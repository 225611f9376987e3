import EntitySql.Proofs.Query.Reselected
import EntitySql.Proofs.Query.Supplied

/-! How the values of bindings reach the database. The types of parameters are checked when they are resolved, long before
the conversions are chosen, which look at the column or, for raw SQL, look the type up by its path. Main statement: the
two agree, so every constant is bound by its name and every array as an array. -/
namespace EntitySql.Query
open Fragment (Raw)
variable {t : Table} {op : Operation} {p : Param} {arrays : EnumArrays} {s : Slot} {v : Value} {type : ValueType}

/-- A binding converts a value of a type: an array as an array, a constant by its name with the flag of the place, and
anything else not at all. An array of constants is bound in the form that a step gives it. -/
structure Binding.Marshals (b : Binding) (steps : List PreludeStep) (v : Value) (type : ValueType) (nullable : Bool) :
    Prop where
  array : b.encoding = .sqlArray ↔ type.isArray = true
  constant : ∀ flag, b.encoding = .enumName flag ↔ type = ⟨.enum, false⟩ ∧ flag = nullable
  plain : b.encoding = .plain ↔ type.kind ≠ .enum ∧ type.isArray = false
  mapped : (∃ name source flag, b.value = .computed name ∧ .enumNames name source flag ∈ steps) ↔ type = ⟨.enum, true⟩
  source : ∀ name source flag, b.value = .computed name → .enumNames name source flag ∈ steps → source = v
  same : type ≠ ⟨.enum, true⟩ → b.value = v

/-- The types that raw SQL knows: that of a single value by its name alone, and by a path of one field that of the first
field of this name in a structure, skipped or not, or of the column in a row. A longer path leads further than any type. -/
inductive Known (t : Table) (p : Param) : List String → ValueType → Prop where
  | single {type : ValueType} (htype : p.type = .scalar type) : Known t p [] type
  | member {before after : List CompositeField} {f : CompositeField} (htype : p.type = .composite (before ++ f :: after))
      (hfirst : ∀ g ∈ before, g.name ≠ f.name) : Known t p [f.name] f.type
  | column {column : Column} (htype : p.type = .entity) (hcolumn : column ∈ t.columns.toList) :
      Known t p [column.field] column.type

theorem valueType?_eq_some {path : List String} : valueType? t p path = some type ↔ Known t p path type := by
  constructor
  · intro h
    unfold valueType? at h
    split at h
    · next htype =>
      cases h
      exact .single htype
    · next fields field htype =>
      obtain ⟨f, hf, rfl⟩ := Option.map_eq_some_iff.1 h
      obtain ⟨hname, before, after, rfl, hbefore⟩ := List.find?_eq_some_iff_append.1 hf
      obtain rfl : f.name = field := by simpa using hname
      exact .member htype fun g hg => by simpa using hbefore g hg
    · next field htype =>
      obtain ⟨column, hcolumn, rfl⟩ := Option.map_eq_some_iff.1 h
      obtain ⟨hmem, rfl⟩ := Table.column?_eq_some.1 hcolumn
      exact .column htype hmem
    · cases h
  · intro h
    cases h with
    | single htype => simp [valueType?, htype]
    | @member before after f htype hfirst =>
      have hfind : (before ++ f :: after).find? (·.name == f.name) = some f :=
        List.find?_eq_some_iff_append.2 ⟨by simp, before, after, rfl, fun g hg => by simpa using hfirst g hg⟩
      simp [valueType?, htype, hfind]
    | column htype hcolumn => simp [valueType?, htype, Table.column?_eq_some.2 ⟨hcolumn, rfl⟩]

section
variable {field : String} {column : Column} {target : Target}

/-- A field that a value may be bound to has a column of its type, if it has one. -/
theorem HeldOrRaw.type_eq (h : HeldOrRaw t op p field type) (hcolumn : t.column? field = some column) :
    type = column.type := by
  obtain ⟨held, hheld, rfl⟩ | ⟨hnone, -⟩ := h
  · rw [hcolumn] at hheld
    rw [Option.some.inj hheld]
  · rw [hcolumn] at hnone
    cases hnone

/-- What a parameter declares has the type of the column that it is bound to. -/
theorem ColumnRules.type_eq (hrules : ColumnRules t op p) (htarget : target ∈ targetsOf t p)
    (h : Declared t p target.value type) : type = target.column.type := by
  unfold ColumnRules at hrules
  unfold targetsOf at htarget
  generalize hvalue : target.value = value at h
  cases h with
  | single htype =>
    simp only [htype] at hrules htarget
    cases htargets : p.targets with
    | nil =>
      simp only [htargets] at htarget
      obtain ⟨column, hcolumn, rfl⟩ := List.mem_map.1 htarget
      exact (hrules.2 htargets).type_eq (Option.mem_toList.1 hcolumn)
    | cons field fields =>
      simp only [htargets] at htarget
      obtain ⟨column, hmem, rfl⟩ := List.mem_map.1 htarget
      obtain ⟨field', hfield, hcolumn⟩ := List.mem_filterMap.1 hmem
      have hheld : HeldOrRaw t op p field' type := .inl (hrules.1 field' (htargets ▸ hfield))
      exact hheld.type_eq hcolumn
  | @member fields f htype hf hskip =>
    simp only [htype] at hrules htarget
    obtain ⟨g, -, hmap⟩ := List.mem_filterMap.1 htarget
    obtain ⟨column, hcolumn, rfl⟩ := Option.map_eq_some_iff.1 hmap
    obtain ⟨-, hname⟩ := Value.field.inj hvalue
    exact (hrules f hf hskip).type_eq (hname ▸ hcolumn)
  | @column column htype hcolumn =>
    simp only [htype] at htarget
    obtain ⟨column', hmem, rfl⟩ := List.mem_map.1 htarget
    obtain ⟨-, hfield⟩ := Value.field.inj hvalue
    rw [List.inj_on_of_nodup_map t.columns.nodup_fields hmem hcolumn hfield]

end

/-- The conversion that a slot asks for, by its type and by whether it may be null. -/
def Slot.encoding (s : Slot) : Encoding :=
  match s.type with
  | some ⟨_, true⟩ => .sqlArray
  | some ⟨.enum, false⟩ => .enumName s.nullable
  | _ => .plain

theorem encoding_bind : (bind arrays s).2.encoding = s.encoding := by
  unfold bind Slot.encoding
  cases s.type with
  | none => rfl
  | some type =>
    obtain ⟨kind, isArray⟩ := type
    cases isArray with
    | true => cases kind <;> rfl
    | false => cases kind <;> rfl

/-- A binding does what its slot asks for: it converts a value of a known type, and leaves any other as it is. -/
structure Binding.Follows (b : Binding) (steps : List PreludeStep) (s : Slot) : Prop where
  column : b.column = s.column
  typed : ∀ type, s.type = some type → b.Marshals steps s.value type s.nullable
  untyped : s.type = none → b.value = s.value ∧ b.encoding = .plain

theorem forall₂_encoding (arrays : EnumArrays) (slots : List Slot) :
    List.Forall₂ (fun b s => b.encoding = s.encoding) (bindAll arrays slots).2 slots := by
  induction slots generalizing arrays with
  | nil => exact .nil
  | cons s slots ih => exact .cons encoding_bind (ih _)

section
variable {plan : Plan} {b : Binding}

/-- Only for an array of constants a binding has the name of a step that maps one. -/
theorem Planned.array_of_step (h : Planned t op plan) (hs : s ∈ plan.slots) (hb : b.Encodes plan.steps s)
    {name : String} {source : Value} {flag : Bool} (hvalue : b.value = .computed name)
    (hstep : .enumNames name source flag ∈ plan.steps) : s.type = some ⟨.enum, true⟩ ∧ s.value = source := by
  have hunique : ∀ step ∈ plan.steps, step.name = name → step = .enumNames name source flag :=
    fun step hmem hname => List.inj_on_of_nodup_map h.distinct hmem hstep hname
  by_cases htype : s.type = some ⟨.enum, true⟩
  · obtain ⟨name', flag', hname, hmapped⟩ := hb.mapped htype
    obtain rfl : name' = name := Value.computed.inj (hname.symm.trans hvalue)
    cases hunique _ hmapped rfl
    exact ⟨htype, rfl⟩
  · -- Otherwise the name is that of an id, which another step mints.
    rw [hb.plain htype] at hvalue
    obtain ⟨step, hmem, hname⟩ := h.minted_of_slot hs hvalue
    obtain rfl := hunique step (List.mem_append_left _ hmem) hname
    obtain ⟨i, column, generator, -, -, hid⟩ := mem_generatedIds.1 (h.generated_subset hmem).2
    cases hid

/-- The encoding of a slot of a known type is that of the type. -/
theorem Slot.encoding_iff (htype : s.type = some type) :
    (s.encoding = .sqlArray ↔ type.isArray = true) ∧
      (∀ flag, s.encoding = .enumName flag ↔ type = ⟨.enum, false⟩ ∧ flag = s.nullable) ∧
      (s.encoding = .plain ↔ type.kind ≠ .enum ∧ type.isArray = false) := by
  obtain ⟨kind, isArray⟩ := type
  cases isArray with
  | true => simp [Slot.encoding, htype]
  | false =>
    by_cases hkind : kind = .enum
    · subst hkind
      simp [Slot.encoding, htype, eq_comm]
    · have hplain : s.encoding = .plain := by
        unfold Slot.encoding
        split <;> simp_all
      simp [hplain, hkind]

theorem Planned.follows_of_encodes (h : Planned t op plan) (hs : s ∈ plan.slots) (hb : b.Encodes plan.steps s)
    (hencoding : b.encoding = s.encoding) : b.Follows plan.steps s := by
  refine ⟨hb.column, fun type htype => ?_, fun hnone => ⟨hb.plain (by simp [hnone]), ?_⟩⟩
  · obtain ⟨harray, hconstant, hplain⟩ := Slot.encoding_iff htype
    rw [← hencoding] at harray hconstant hplain
    have htypes : s.type = some ⟨.enum, true⟩ ↔ type = ⟨.enum, true⟩ := by simp [htype]
    refine ⟨harray, hconstant, hplain, ⟨?_, fun hmapped => ?_⟩, ?_, fun hne => hb.plain (htypes.not.2 hne)⟩
    · rintro ⟨name, source, flag, hvalue, hstep⟩
      exact htypes.1 (h.array_of_step hs hb hvalue hstep).1
    · obtain ⟨name, flag, hvalue, hstep⟩ := hb.mapped (htypes.2 hmapped)
      exact ⟨name, s.value, flag, hvalue, hstep⟩
    · exact fun name source flag hvalue hstep => (h.array_of_step hs hb hvalue hstep).2.symm
  · rw [hencoding, Slot.encoding, hnone]

/-- All bindings of a plan do what their slots ask for. -/
theorem Planned.follows (h : Planned t op plan) :
    List.Forall₂ (fun b s => b.Follows plan.steps s) plan.bindings plan.slots := by
  obtain ⟨hlength, hencodes⟩ := List.forall₂_iff_zip.1 plan.encodes
  refine List.forall₂_iff_zip.2 ⟨hlength, fun {b s} hzip => ?_⟩
  have hencoding := (List.forall₂_iff_zip.1 (forall₂_encoding [] plan.slots)).2 hzip
  exact h.follows_of_encodes (List.of_mem_zip hzip).2 (hencodes hzip) hencoding

end

/-- Placeholders of raw SQL have slots of no column, targets do not. -/
theorem unbound_targets (targets : List Target) :
    (targets.map Target.slot).filter (fun s => s.column.isNone) = [] := by
  simp [Target.slot]

theorem unbound_rawPieces (raw : Raw) :
    (slots (rawPieces t op raw)).filter (fun s => s.column.isNone) =
      (placeholders raw).map fun placeholder => rawSlot t op placeholder.1 placeholder.2 := by
  rw [slots_rawPieces]
  exact List.filter_eq_self.2 (List.forall_mem_map.2 fun _ _ => rfl)

theorem unbound_fullFilter (params : List BoundParam) :
    (slots (fullFilter t op params).pieces).filter (fun s => s.column.isNone) =
      ((rawPredicate? op).toList.flatMap placeholders).map fun placeholder =>
        rawSlot t op placeholder.1 placeholder.2 := by
  rw [slots_fullFilter, List.filter_append, unbound_targets, List.nil_append]
  cases rawPredicate? op with
  | none => rfl
  | some raw => simp [unbound_rawPieces]

theorem spliced_of_predicate (hkind : op.kind.isInsert = false) (hnot : op.kind ≠ .selectRawExpression) :
    spliced op = (rawPredicate? op).toList.flatMap placeholders := by
  rw [spliced, hkind, rawExpression?, if_neg hnot]
  rfl

theorem Planned.unbound_later {plan : Plan} (h : Planned t op plan) :
    ((plan.followUp.map Statement.slots).getD []).filter (fun s => s.column.isNone) = [] := by
  cases hfollow : plan.followUp with
  | none => rfl
  | some later =>
    rw [Option.map_some, Option.getD_some, h.followUp_eq hfollow, slots_reselect]
    exact unbound_targets _

/-- The slots of no column are the placeholders of raw SQL, in their order. -/
theorem Planned.unbound {plan : Plan} (h : Planned t op plan) :
    plan.slots.filter (fun s => s.column.isNone) =
      (spliced op).map fun placeholder => rawSlot t op placeholder.1 placeholder.2 := by
  rw [Plan.slots, List.filter_append, h.unbound_later, List.append_nil]
  cases h with
  | insert hkind =>
    rw [Statement.slots_insert, List.map_map, spliced, if_pos hkind]
    exact unbound_targets _
  | update hkind =>
    rw [Statement.slots_update, List.filter_append, List.map_map, unbound_fullFilter,
      spliced_of_predicate (by simp [hkind, OperationKind.isInsert]) (by simp [hkind])]
    exact congrArg (· ++ _) (unbound_targets _)
  | delete hkind =>
    rw [Statement.slots_delete, unbound_fullFilter,
      spliced_of_predicate (by simp [hkind, OperationKind.isInsert]) (by simp [hkind])]
  | count hkind =>
    rw [Statement.slots_count, unbound_fullFilter, spliced_of_predicate
      (by rcases hkind with h | h <;> simp [h, OperationKind.isInsert]) (by rcases hkind with h | h <;> simp [h])]
  | @select hkind selection _ _ hselection =>
    have hexpression : (slots selection.pieces).filter (fun s => s.column.isNone) =
        ((rawExpression? op).toList.flatMap placeholders).map fun placeholder =>
          rawSlot t op placeholder.1 placeholder.2 := by
      obtain ⟨hnone, names, rfl, -⟩ | ⟨raw, hraw, rfl⟩ := selection_cases hselection
      · rw [hnone, Selection.slots_columns]
        rfl
      · rw [hraw, Selection.pieces, unbound_rawPieces]
        simp
    have hinsert : op.kind.isInsert = false := by
      cases hop : op.kind <;> simp [hop, OperationKind.isSelect, OperationKind.isInsert] at hkind ⊢
    rw [Statement.slots_select, List.filter_append, hexpression, unbound_fullFilter, spliced, hinsert]
    simp

/-- The binding of a column: the type of what it holds is the column's, and it converts that type. -/
structure Binding.Fits (b : Binding) (t : Table) (op : Operation) (steps : List PreludeStep) (column : Column)
    (v : Value) : Prop where
  marshals : b.Marshals steps v column.type column.isNullable
  /-- The value is an id that is minted for the column, or a parameter declares it with the type of the column. -/
  source : (∃ name generator, column.generator = some generator ∧ v = .computed name ∧
    .generateId name generator column.name ∈ steps) ∨ ∃ p ∈ op.params, Declared t p v column.type
  /-- No parameter declares it with another type. -/
  typed : ∀ p ∈ op.params, ∀ type, Declared t p v type → type = column.type

/-- The binding of a placeholder: it converts the type that is known to raw SQL, or nothing. -/
structure Binding.Splices (b : Binding) (t : Table) (steps : List PreludeStep) (p : Param)
    (placeholder : String × List String) : Prop where
  known : ∀ type, Known t p placeholder.2 type → b.Marshals steps (rawBound placeholder).1 type true
  unknown : (∀ type, ¬Known t p placeholder.2 type) → b.value = (rawBound placeholder).1 ∧ b.encoding = .plain

section
variable {plan : Plan} {b : Binding} (h : Planned t op plan)
include h

theorem Planned.fits_of_follows (hnames : (op.params.map Param.name).Nodup)
    (hrules : ∀ p ∈ op.params, ColumnRules t op p) (hs : s ∈ plan.slots) (hb : b.Follows plan.steps s) {name : String}
    (hname : b.column = some name) :
    ∃ column ∈ t.columns.toList, ∃ v, column.name = name ∧ b.Fits t op plan.steps column v := by
  obtain ⟨i, column, generator, hcolumn, hgenerator, hstep, rfl⟩ | hstands := h.minted_or_standsFor hs
  · have hcolumns : some column.name = some name := hb.column.symm.trans hname
    refine ⟨column, List.mem_of_getElem? hcolumn, .computed (idLocal i), Option.some.inj hcolumns,
      hb.typed column.type rfl, .inl ⟨idLocal i, generator, hgenerator, rfl, List.mem_append_left _ hstep⟩, ?_⟩
    intro p _ type hdeclared
    cases hdeclared.parameter_eq
  · cases hstands with
    | @target p hp target htarget _ =>
      have hcolumns : some target.column.name = some name := hb.column.symm.trans hname
      obtain ⟨type, hdeclared⟩ := exists_declared htarget
      refine ⟨target.column, (mem_targetsOf htarget).1, target.value, Option.some.inj hcolumns,
        hb.typed target.column.type rfl, .inr ⟨p, hp, ?_⟩, fun q hq type' hother => ?_⟩
      · exact (hrules p hp).type_eq htarget hdeclared ▸ hdeclared
      · have hsame : q.name = p.name :=
          Option.some.inj (hother.parameter_eq.symm.trans hdeclared.parameter_eq)
        obtain rfl := List.inj_on_of_nodup_map hnames hq hp hsame
        exact (hrules q hq).type_eq htarget hother
    | placeholder => cases hb.column.symm.trans hname

end

theorem exists_param?_of_spliced {plan : Plan} (h : Query.plan t op = .ok plan) {placeholder : String × List String}
    (hmem : placeholder ∈ spliced op) : ∃ p, op.param? placeholder.1 = some p ∧ p.name = placeholder.1 := by
  obtain ⟨q, hq, hname⟩ := exists_param_of_spliced h (isInsert_of_mem_spliced hmem) hmem
  have hsome : (op.param? placeholder.1).isSome := List.find?_isSome.2 ⟨q, hq, by simpa using hname⟩
  obtain ⟨p, hp⟩ := Option.isSome_iff_exists.1 hsome
  exact ⟨p, hp, by simpa using List.find?_some hp⟩

theorem splices_of_follows {b : Binding} {steps : List PreludeStep} {name : String} {path : List String}
    (hp : op.param? name = some p) (hb : b.Follows steps (rawSlot t op name path)) : b.Splices t steps p (name, path) := by
  have hvalue : (rawSlot t op name path).value = (rawBound (name, path)).1 :=
    congrArg Prod.fst (@bound_rawSlot t op name path)
  have htype : (rawSlot t op name path).type = valueType? t p path := by
    rw [rawSlot, hp]
    rfl
  refine ⟨fun type hknown => ?_, fun hunknown => ?_⟩
  · exact hvalue ▸ hb.typed type (htype.trans (valueType?_eq_some.2 hknown))
  · have hnone : valueType? t p path = none :=
      Option.eq_none_iff_forall_ne_some.2 fun type hsome => hunknown type (valueType?_eq_some.1 hsome)
    exact hvalue ▸ hb.untyped (htype.trans hnone)

/-- The bindings of an operation, of columns and of raw SQL, hand over what the parameters declare. -/
structure Marshaled (t : Table) (op : Operation) (compiled : CompiledOperation) : Prop where
  columns : ∀ b ∈ compiled.bindings, ∀ name, b.column = some name →
    ∃ column ∈ t.columns.toList, ∃ v, column.name = name ∧ b.Fits t op compiled.prelude column v
  placeholders : List.Forall₂
    (fun b placeholder => ∃ p ∈ op.params, p.name = placeholder.1 ∧ b.Splices t compiled.prelude p placeholder)
    (compiled.bindings.filter fun b => b.column.isNone) (spliced op)

/-- Every binding of a compiled operation converts its value as the column asks for that it is bound to, or as the type
asks for that raw SQL knows. -/
theorem marshaled_of_compile {d : Dialect} {compiled : CompiledOperation} (hnames : (op.params.map Param.name).Nodup)
    (h : op.compile d t = .ok compiled) : Marshaled t op compiled := by
  obtain ⟨plan, hplan, rfl⟩ := compile_eq_ok.1 h
  have hp := planned_of_plan hplan
  have hrules : ∀ p ∈ op.params, ColumnRules t op p :=
    fun p hmem => ((exists_plan_iff_acceptable.1 ⟨plan, hplan⟩).params p hmem).columns
  constructor
  all_goals simp only [Plan.prelude_compile, Plan.bindings_compile]
  case columns =>
    intro b hb name hname
    obtain ⟨s, hs, hfollows⟩ := exists_of_forall₂ hp.follows hb
    exact hp.fits_of_follows hnames hrules hs hfollows hname
  case placeholders =>
    have hfollows : List.Forall₂ (fun b s => b.Follows plan.steps s) (plan.bindings.filter fun b => b.column.isNone)
        (plan.slots.filter fun s => s.column.isNone) := by
      refine List.rel_filter ?_ hp.follows
      intro b s hb
      simp [hb.column]
    rw [hp.unbound, List.forall₂_map_right_iff] at hfollows
    obtain ⟨hlength, hzip⟩ := List.forall₂_iff_zip.1 hfollows
    refine List.forall₂_iff_zip.2 ⟨hlength, fun {b placeholder} hmem => ?_⟩
    obtain ⟨p, hp, hname⟩ := exists_param?_of_spliced hplan (List.of_mem_zip hmem).2
    exact ⟨p, List.mem_of_find?_eq_some hp, hname, splices_of_follows hp (hzip hmem)⟩

/-- A select by an array of constants, in which raw SQL mentions the array and a constant that is bound to no column. -/
def ranked : Operation where
  name := "ranked"
  kind := .selectEntity
  returns := .many
  params := [
    Param.composite "user" [⟨"badges", .enum, true, false⟩, ⟨"rank", .enum, false, true⟩], Param.scalar "limit" .int]
  rawPredicate := some { sql := "RANK > :user.rank OR :user.badges IS NULL OR SIZE < :limit" }

set_option maxRecDepth 4000 in
theorem ranked_marshaled : (ranked.params.map Param.name).Nodup ∧ ∃ compiled,
    Operation.compile .postgres badges ranked = .ok compiled ∧
      compiled.bindings = [⟨.computed "var0", some "BADGES", .sqlArray⟩,
        ⟨.field "user" "rank", none, .enumName true⟩, ⟨.computed "var0", none, .sqlArray⟩,
        ⟨.param "limit", none, .plain⟩] ∧
      Marshaled badges ranked compiled := by
  have hnames : (ranked.params.map Param.name).Nodup := by decide
  have hbindings : (Operation.compile .postgres badges ranked).toOption.map CompiledOperation.bindings =
      some [⟨.computed "var0", some "BADGES", .sqlArray⟩, ⟨.field "user" "rank", none, .enumName true⟩,
        ⟨.computed "var0", none, .sqlArray⟩, ⟨.param "limit", none, .plain⟩] := by
    rw [Operation.compile_eq]
    cbv
  obtain ⟨compiled, h, hbindings⟩ := exists_ok_of_toOption hbindings
  exact ⟨hnames, compiled, h, hbindings, marshaled_of_compile hnames h⟩

end EntitySql.Query
