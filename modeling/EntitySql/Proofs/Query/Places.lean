import EntitySql.Proofs.Query.Marshaled
import EntitySql.Proofs.Query.Stored

/-! The places for values in the statements of an operation, and what is computed before the statements for them. Places
are told from the table and the operation, with the types that the parameters declare. Main statement: there is one step
for each array of constants that a place holds and one for each generated column of an insert, no other, and each is
done before its result is used. -/
namespace EntitySql.Query
variable {t : Table} {op : Operation} {v : Value} {column : Option String} {declared : ValueType → Prop}

/-- A place for a value: its column, unless it stands in raw SQL, and the types that are declared for the value. -/
inductive Place (t : Table) (op : Operation) : Value → Option String → (ValueType → Prop) → Prop where
  /-- An insert stores an id of its own into a generated column. -/
  | minted {i : ℕ} {column : Column} (hinsert : op.kind.isInsert = true) (hcolumn : t.columns.toList[i]? = some column)
      (hgenerated : column.isGenerated = true) : Place t op (.computed (idLocal i)) (some column.name) (column.type = ·)
  /-- Into another column it stores the first target of the column's name. -/
  | stored {p : Param} {target : Target} (hinsert : op.kind.isInsert = true) (hp : p ∈ op.params)
      (htarget : target ∈ targetsOf t p) (hfirst : FirstOfName (givenTargets t op) target)
      (hfree : ∀ other ∈ t.columns.toList, other.isGenerated = true → other.name ≠ target.column.name) :
      Place t op target.value (some target.column.name) (Declared t p target.value)
  | bound {p : Param} {target : Target} (hother : op.kind.isInsert = false) (hp : p ∈ op.params)
      (htarget : target ∈ targetsOf t p) (hbinds : Binds op p target) :
      Place t op target.value (some target.column.name) (Declared t p target.value)
  | spliced {name : String} {path : List String} {p : Param} (hmem : (name, path) ∈ spliced op)
      (hp : op.param? name = some p) : Place t op (rawBound (name, path)).1 none (Known t p path)

/-- A binding carries the value of a place: the names of an array of constants, any other value as it is. -/
structure Binding.Carries (b : Binding) (steps : List PreludeStep) (v : Value) (array : Prop) : Prop where
  mapped : array → ∃ name nullable, b.value = .computed name ∧ .enumNames name v nullable ∈ steps
  plain : ¬array → b.value = v

/-- The values that are computed before the statements of an operation are told apart, computed before their use, and
used. Every array of constants that a place holds is mapped to names by one step, and every generated column of an insert
has its id minted by one. -/
structure LocalsSound (t : Table) (op : Operation) (compiled : CompiledOperation) : Prop where
  distinct : (compiled.prelude.map PreludeStep.name).Nodup
  bound : ∀ b ∈ compiled.bindings, ∀ name, b.value = .computed name → ∃ step ∈ compiled.prelude, step.name = name
  echoed : ∀ name, .computed name ∈ compiled.result.echoed → ∃ step ∈ compiled.prelude, step.name = name
  earlier : ∀ before step after, compiled.prelude = before ++ step :: after →
    ∀ name, step.source? = some (.computed name) → ∃ source ∈ before, source.name = name
  used : ∀ before step after, compiled.prelude = before ++ step :: after →
    (∃ b ∈ compiled.bindings, b.value = .computed step.name) ∨
      ∃ later ∈ after, later.source? = some (.computed step.name)
  carried : ∀ b ∈ compiled.bindings, ∃ v declared, Place t op v b.column declared ∧
    b.Carries compiled.prelude v (declared ⟨.enum, true⟩)
  placed : ∀ v column declared, Place t op v column declared → ∃ b ∈ compiled.bindings, b.column = column ∧
    b.Carries compiled.prelude v (declared ⟨.enum, true⟩)
  one_for_array : (compiled.prelude.filterMap PreludeStep.source?).Nodup
  mem_arrays : ∀ v, v ∈ compiled.prelude.filterMap PreludeStep.source? ↔
    ∃ column declared, Place t op v column declared ∧ declared ⟨.enum, true⟩
  one_for_column : compiled.prelude.filterMap PreludeStep.minted? =
    if op.kind.isInsert then (t.columns.toList.filter fun column => column.isGenerated).map Column.name else []

/-- A slot is at a place: it has its value and column, and the type that is declared. -/
structure Slot.At (s : Slot) (v : Value) (column : Option String) (declared : ValueType → Prop) : Prop where
  value : s.value = v
  column : s.column = column
  type : ∀ type, declared type ↔ s.type = some type

/-- A parameter declares what it binds to a column, and with no other type than that of the column. -/
theorem slot_at_target {p : Param} {target : Target} (hrules : ColumnRules t op p) (htarget : target ∈ targetsOf t p) :
    target.slot.At target.value (some target.column.name) (Declared t p target.value) := by
  refine ⟨rfl, rfl, fun type => ⟨fun hdeclared => congrArg some (hrules.type_eq htarget hdeclared).symm, fun htype => ?_⟩⟩
  obtain ⟨type', hdeclared⟩ := exists_declared htarget
  obtain rfl : type' = type := (hrules.type_eq htarget hdeclared).trans (Option.some.inj htype)
  exact hdeclared

theorem slot_at_spliced {name : String} {path : List String} {p : Param} (hp : op.param? name = some p) :
    (rawSlot t op name path).At (rawBound (name, path)).1 none (Known t p path) := by
  refine ⟨congrArg Prod.fst (@bound_rawSlot t op name path), rfl, fun type => ?_⟩
  rw [← valueType?_eq_some, rawSlot, hp, Option.bind_some]

theorem insertTarget?_iff {target : Target} {column : Column} :
    insertTarget? t (boundParams t op) column = some target ↔
      (∀ other ∈ t.columns.toList, other.isGenerated = true → other.name ≠ column.name) ∧
        target.column.field = column.field ∧ target.column.name = column.name ∧
        FirstOfName (givenTargets t op) target := by
  rw [insertTarget?_eq_some, targets_boundParams]

section
variable {plan : Plan} (hplan : Query.plan t op = .ok plan)
include hplan

theorem columnRules_of_plan {p : Param} (hp : p ∈ op.params) : ColumnRules t op p :=
  ((exists_plan_iff_acceptable.1 ⟨plan, hplan⟩).params p hp).columns

/-- Every slot of a plan is at a place. -/
theorem exists_place {s : Slot} (hs : s ∈ plan.slots) :
    ∃ declared, Place t op s.value s.column declared ∧ s.At s.value s.column declared := by
  have h := planned_of_plan hplan
  cases hkind : op.kind.isInsert with
  | true =>
    rw [(h.slots_insert hkind).2] at hs
    obtain ⟨⟨column, value⟩, hstored, rfl⟩ := List.mem_map.1 hs
    obtain ⟨i, hcolumn, hvalue⟩ := mem_storedTargets.1 hstored
    cases hgenerated : column.isGenerated with
    | true =>
      have hid : .computed (idLocal i) = value := by simpa [insertValue?, hgenerated] using hvalue
      subst hid
      exact ⟨_, .minted hkind hcolumn hgenerated, rfl, rfl, fun type => by simp [Target.slot]⟩
    | false =>
      rw [insertValue?, hgenerated, if_neg (by simp)] at hvalue
      obtain ⟨given, hgiven, rfl⟩ := Option.map_eq_some_iff.1 hvalue
      obtain ⟨rfl, p, hp, htarget⟩ := mem_of_insertTarget? (List.mem_of_getElem? hcolumn) hgiven
      obtain ⟨hfree, -, -, hfirst⟩ := insertTarget?_iff.1 hgiven
      exact ⟨_, .stored hkind hp htarget hfirst hfree, slot_at_target (columnRules_of_plan hplan hp) htarget⟩
  | false =>
    cases h.standsFor hkind hs with
    | target hp htarget hbinds =>
      exact ⟨_, .bound hkind hp htarget hbinds, slot_at_target (columnRules_of_plan hplan hp) htarget⟩
    | @placeholder name path hmem =>
      obtain ⟨p, hp, -⟩ := exists_param?_of_spliced hplan hmem
      have hat := @slot_at_spliced t op name path p hp
      refine ⟨_, ?_, rfl, rfl, hat.type⟩
      rw [hat.value]
      exact .spliced hmem hp

theorem slot_mem_of_stored {target : Target} (hinsert : op.kind.isInsert = true) (hcolumn : target.column ∈ t.columns.toList)
    (hfirst : FirstOfName (givenTargets t op) target)
    (hfree : ∀ other ∈ t.columns.toList, other.isGenerated = true → other.name ≠ target.column.name) :
    target.slot ∈ plan.slots := by
  rw [((planned_of_plan hplan).slots_insert hinsert).2]
  obtain ⟨i, hi⟩ := List.mem_iff_getElem?.1 hcolumn
  have hgiven : target.column.isGenerated = false := by
    by_contra hgenerated
    exact hfree target.column hcolumn (by simpa using hgenerated) rfl
  refine List.mem_map_of_mem (mem_storedTargets.2 ⟨i, hi, ?_⟩)
  rw [insertValue?, hgiven, if_neg (by simp), insertTarget?_iff.2 ⟨hfree, rfl, rfl, hfirst⟩]
  rfl

theorem slot_mem_of_bound {p : Param} {target : Target} (hother : op.kind.isInsert = false) (hp : p ∈ op.params)
    (htarget : target ∈ targetsOf t p) (hbinds : Binds op p target) : target.slot ∈ plan.slots := by
  have hfilter : ∀ params : List Param, p ∈ params →
      target.slot ∈ slots (fullFilter t op (params.map (Query.bound t))).pieces := by
    intro params hmem
    rw [slots_fullFilter]
    refine List.mem_append_left _ (List.mem_map_of_mem (List.mem_flatMap.2 ⟨Query.bound t p, ?_, htarget⟩))
    exact List.mem_map_of_mem hmem
  refine List.mem_append_left _ ?_
  cases planned_of_plan hplan with
  | insert hinsert => simp [hother] at hinsert
  | update hupdate =>
    rw [Statement.slots_update, filterParams_boundParams, List.map_map]
    by_cases hrole : p.role = .whereFilter
    · exact List.mem_append_right _ (hfilter _ (List.mem_filter.2 ⟨hp, by simpa using hrole⟩))
    · refine List.mem_append_left _ (List.mem_map.2 ⟨target, List.mem_flatMap.2 ⟨Query.bound t p, ?_, ?_⟩, rfl⟩)
      · rw [valueParams_boundParams]
        exact List.mem_map_of_mem (List.mem_filter.2 ⟨hp, by simpa using hrole⟩)
      · refine List.mem_filter.2 ⟨htarget, ?_⟩
        cases hcomposite : p.isComposite with
        | true => simp [Query.bound, hbinds hupdate hrole hcomposite]
        | false => simp [Query.bound, hcomposite]
  | delete =>
    rw [Statement.slots_delete]
    exact hfilter _ hp
  | count =>
    rw [Statement.slots_count]
    exact hfilter _ hp
  | select =>
    rw [Statement.slots_select]
    exact List.mem_append_right _ (hfilter _ hp)

/-- Every place is that of a slot. -/
theorem exists_slot (h : Place t op v column declared) : ∃ s ∈ plan.slots, s.At v column declared := by
  cases h with
  | @minted i column hinsert hcolumn hgenerated =>
    obtain ⟨generator, hgenerator⟩ := Option.isSome_iff_exists.1 hgenerated
    refine ⟨Target.slot ⟨column, .computed (idLocal i)⟩, ?_, rfl, rfl, fun type => by simp [Target.slot]⟩
    rw [((planned_of_plan hplan).slots_insert hinsert).2]
    exact List.mem_map_of_mem (minted_mem_insertValues hcolumn hgenerator)
  | stored hinsert hp htarget hfirst hfree =>
    exact ⟨_, slot_mem_of_stored hplan hinsert (mem_targetsOf htarget).1 hfirst hfree,
      slot_at_target (columnRules_of_plan hplan hp) htarget⟩
  | bound hother hp htarget hbinds =>
    exact ⟨_, slot_mem_of_bound hplan hother hp htarget hbinds, slot_at_target (columnRules_of_plan hplan hp) htarget⟩
  | spliced hmem hp =>
    exact ⟨_, (planned_of_plan hplan).rawSlot_mem (isInsert_of_mem_spliced hmem) hmem, slot_at_spliced hp⟩

end

theorem Binding.Encodes.carries {b : Binding} {s : Slot} {steps : List PreludeStep} (h : b.Encodes steps s)
    (hat : s.At v column declared) : b.Carries steps v (declared ⟨.enum, true⟩) := by
  refine ⟨fun harray => ?_, fun hother => ?_⟩
  · rw [← hat.value]
    exact h.mapped ((hat.type _).1 harray)
  · rw [← hat.value]
    exact h.plain fun htype => hother ((hat.type _).2 htype)

/-- The computed values of every operation that is compiled are sound. -/
theorem localsSound_of_compile {d : Dialect} {compiled : CompiledOperation} (h : op.compile d t = .ok compiled) :
    LocalsSound t op compiled := by
  obtain ⟨p, hplan, rfl⟩ := compile_eq_ok.1 h
  have hp := planned_of_plan hplan
  constructor
  case echoed =>
    intro name hv
    obtain ⟨step, hstep, hname⟩ := minted_of_echoed hplan hv
    rw [Plan.prelude_compile]
    exact ⟨step, List.mem_append_left _ hstep, hname⟩
  all_goals simp only [Plan.prelude_compile, Plan.bindings_compile]
  case distinct => exact hp.distinct
  case bound => exact fun b hb name hvalue => hp.defined_of_bound hb hvalue
  case earlier => exact fun before step after hsplit name hsource => hp.source_earlier hsplit hsource
  case used => exact fun before step after hsplit => hp.used_later hsplit
  case carried =>
    intro b hb
    obtain ⟨s, hs, hencodes⟩ := exists_of_forall₂ p.encodes hb
    obtain ⟨declared, hplace, hat⟩ := exists_place hplan hs
    exact ⟨s.value, declared, hencodes.column ▸ hplace, hencodes.carries hat⟩
  case placed =>
    intro v column declared hplace
    obtain ⟨s, hs, hat⟩ := exists_slot hplan hplace
    obtain ⟨b, hb, hencodes⟩ := exists_of_mem_forall₂ p.encodes hs
    exact ⟨b, hb, hencodes.column.trans hat.column, hencodes.carries hat⟩
  case one_for_array => exact hp.sources_eq ▸ p.nodup_arrays
  case mem_arrays =>
    intro v
    rw [hp.sources_eq, Plan.mem_arrays]
    constructor
    · rintro ⟨s, hs, htype, rfl⟩
      obtain ⟨declared, hplace, hat⟩ := exists_place hplan hs
      exact ⟨s.column, declared, hplace, (hat.type _).2 htype⟩
    · rintro ⟨column, declared, hplace, harray⟩
      obtain ⟨s, hs, hat⟩ := exists_slot hplan hplace
      exact ⟨s, hs, (hat.type _).1 harray, hat.value⟩
  case one_for_column => exact hp.minted_eq

set_option maxRecDepth 4000 in
/-- The id of a new user is minted, and then its badges are mapped to their names. -/
theorem enroll_localsSound : ∃ compiled, Operation.compile .postgres badges enroll = .ok compiled ∧
    LocalsSound badges enroll compiled ∧
    compiled.prelude = [.generateId "id0" "snowflake" "ID", .enumNames "var0" (.field "user" "badges") true] := by
  have hprelude : (Operation.compile .postgres badges enroll).toOption.map CompiledOperation.prelude =
      some [.generateId "id0" "snowflake" "ID", .enumNames "var0" (.field "user" "badges") true] := by cbv
  obtain ⟨compiled, h, hsteps⟩ := exists_ok_of_toOption hprelude
  exact ⟨compiled, h, localsSound_of_compile h, hsteps⟩

end EntitySql.Query
