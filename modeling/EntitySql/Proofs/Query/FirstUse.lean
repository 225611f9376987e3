import EntitySql.Proofs.Query.Marshaled

/-! Whether the step that maps an array of constants to their names admits null. There is one step for each array, however
many places hold the array, and it is made at the first of them. Main statement: it has the flag of that place, so null
is admitted wherever a place admits it exactly if the first place of an array does so whenever a later one does. -/
namespace EntitySql.Query
variable {d : Dialect} {t : Table} {op : Operation} {arrays : EnumArrays} {s : Slot} {v : Value} {flag : Bool}

/-- A place for an array of constants of this value. -/
def Slot.holds (s : Slot) (v : Value) : Bool :=
  s.type = some ⟨.enum, true⟩ && s.value = v

theorem Slot.holds_iff : s.holds v = true ↔ s.type = some ⟨.enum, true⟩ ∧ s.value = v := by
  simp [Slot.holds]

theorem mem_enumNames {source : Value} {nullable : Bool} : (v, flag) ∈ (enumNames arrays source nullable).1 ↔
    (v, flag) ∈ arrays ∨ v ∉ arrays.map Prod.fst ∧ source = v ∧ nullable = flag := by
  obtain ⟨hknown, heq⟩ | ⟨hnew, heq⟩ := enumNames_cases arrays source nullable
  · rw [heq]
    refine ⟨.inl, ?_⟩
    rintro (h | ⟨hnew, rfl, -⟩)
    · exact h
    · exact absurd hknown hnew
  · rw [heq, List.mem_append, List.mem_singleton, Prod.mk.injEq]
    refine or_congr_right ⟨?_, ?_⟩
    · rintro ⟨rfl, rfl⟩
      exact ⟨hnew, rfl, rfl⟩
    · rintro ⟨-, rfl, rfl⟩
      exact ⟨rfl, rfl⟩

/-- A slot adds its array with its own flag, unless the array is there already. -/
theorem mem_bind : (v, flag) ∈ (bind arrays s).1 ↔
    (v, flag) ∈ arrays ∨ v ∉ arrays.map Prod.fst ∧ s.holds v = true ∧ s.nullable = flag := by
  rw [Slot.holds_iff]
  unfold bind
  split
  · next htype => simp [htype, mem_enumNames]
  · next hne htype =>
    have hkind : s.type ≠ some ⟨.enum, true⟩ := by simpa [htype] using hne
    simp [hkind]
  · next htype => simp [htype]
  · next hne _ _ =>
    have hkind : s.type ≠ some ⟨.enum, true⟩ := hne
    simp [hkind]

/-- The arrays that slots add have the flags of the first slots that hold them. -/
theorem mem_bindAll {slots : List Slot} : (v, flag) ∈ (bindAll arrays slots).1 ↔
    (v, flag) ∈ arrays ∨ v ∉ arrays.map Prod.fst ∧ (slots.find? (·.holds v)).map (·.nullable) = some flag := by
  induction slots generalizing arrays with
  | nil => simp [bindAll]
  | cons s slots ih =>
    rw [bindAll, ih, mem_bind, mem_sources_bind, ← Slot.holds_iff, List.find?_cons]
    cases s.holds v with
    | true => simp
    | false => simp

section
variable {plan : Plan} {b : Binding} {name : String} (h : Planned t op plan)
include h

theorem Planned.first_of_step (hstep : .enumNames name v flag ∈ plan.steps) :
    ∃ first, plan.slots.find? (·.holds v) = some first ∧ first.nullable = flag := by
  obtain hgenerated | hmapped := List.mem_append.1 hstep
  · obtain ⟨i, column, generator, -, -, hid⟩ := mem_generatedIds.1 (h.generated_subset hgenerated).2
    cases hid
  · obtain ⟨i, source, nullable, harray, heq⟩ := mem_enumSteps.1 hmapped
    cases heq
    have hmem : (v, flag) ∈ (bindAll [] plan.slots).1 := List.mem_of_getElem? harray
    obtain hnil | ⟨-, hfirst⟩ := mem_bindAll.1 hmem
    · cases hnil
    · exact Option.map_eq_some_iff.1 hfirst

/-- A place that admits null has it admitted by its step if the first place of its array admits null. -/
theorem Planned.admitted_iff (hs : s ∈ plan.slots) (hb : b.Encodes plan.steps s) :
    (s.nullable = true → ∀ name v flag, b.value = .computed name → .enumNames name v flag ∈ plan.steps → flag = true) ↔
      ∀ v first, s.holds v = true → s.nullable = true → plan.slots.find? (·.holds v) = some first →
        first.nullable = true := by
  constructor
  · intro hkept v first hholds hnullable hfirst
    obtain ⟨htype, rfl⟩ := Slot.holds_iff.1 hholds
    obtain ⟨name, flag, hvalue, hstep⟩ := hb.mapped htype
    obtain ⟨first', hfirst', rfl⟩ := h.first_of_step hstep
    obtain rfl : first' = first := Option.some.inj (hfirst'.symm.trans hfirst)
    exact hkept hnullable name s.value _ hvalue hstep
  · intro hfirsts hnullable name v flag hvalue hstep
    obtain ⟨first, hfirst, rfl⟩ := h.first_of_step hstep
    exact hfirsts v first (Slot.holds_iff.2 (h.array_of_step hs hb hvalue hstep)) hnullable hfirst

end

/-- A place of raw SQL, which may always be null, or of a column, which may be null if the column may. -/
def Slot.InPlace (t : Table) (s : Slot) : Prop :=
  s.column = none ∧ s.nullable = true ∨
    ∃ column ∈ t.columns.toList,
      s.column = some column.name ∧ s.type = some column.type ∧ s.nullable = column.isNullable

/-- The places of the bindings, and the flags of the steps: each is that of the first place that holds the array. -/
structure Flagged (t : Table) (compiled : CompiledOperation) (slots : List Slot) : Prop where
  places : List.Forall₂ (fun b s => b.column = s.column ∧ s.InPlace t) compiled.bindings slots
  first : ∀ name v flag, .enumNames name v flag ∈ compiled.prelude →
    ∃ s, slots.find? (·.holds v) = some s ∧ s.nullable = flag

/-- Wherever a place admits null, the step that maps its array does. -/
def KeepsNulls (compiled : CompiledOperation) (slots : List Slot) : Prop :=
  List.Forall₂ (fun b s => s.nullable = true →
    ∀ name v flag, b.value = .computed name → .enumNames name v flag ∈ compiled.prelude → flag = true)
    compiled.bindings slots

/-- The first place of an array admits null whenever any place of the array does. -/
def FirstAdmits (slots : List Slot) : Prop :=
  ∀ s ∈ slots, ∀ v first, s.holds v = true → s.nullable = true → slots.find? (·.holds v) = some first →
    first.nullable = true

/-- Arrays that may be null in every place may be null in the first. -/
theorem firstAdmits_of_nullable {slots : List Slot}
    (h : ∀ s ∈ slots, s.type = some ⟨.enum, true⟩ → s.nullable = true) : FirstAdmits slots := by
  intro _ _ v first _ _ hfirst
  have hholds : first.holds v = true := by simpa using List.find?_some hfirst
  exact h first (List.mem_of_find?_eq_some hfirst) (Slot.holds_iff.1 hholds).1

theorem Planned.inPlace {plan : Plan} (h : Planned t op plan) (hs : s ∈ plan.slots) : s.InPlace t := by
  obtain ⟨i, column, generator, hcolumn, -, -, rfl⟩ | hstands := h.minted_or_standsFor hs
  · exact .inr ⟨column, List.mem_of_getElem? hcolumn, rfl, rfl, rfl⟩
  · cases hstands with
    | @target _ _ target htarget _ => exact .inr ⟨target.column, (mem_targetsOf htarget).1, rfl, rfl, rfl⟩
    | placeholder => exact .inl ⟨rfl, rfl⟩

/-- The steps keep the nulls of all places exactly if the first place of every array admits null whenever another does. -/
theorem keepsNulls_iff {compiled : CompiledOperation} (h : op.compile d t = .ok compiled) :
    ∃ p, plan t op = .ok p ∧ compiled = p.compile d op ∧ Flagged t compiled p.slots ∧
      (KeepsNulls compiled p.slots ↔ FirstAdmits p.slots) := by
  obtain ⟨p, hplan, rfl⟩ := compile_eq_ok.1 h
  have hp := planned_of_plan hplan
  obtain ⟨hlength, hencodes⟩ := List.forall₂_iff_zip.1 p.encodes
  refine ⟨p, hplan, rfl, ⟨?_, ?_⟩, ?_⟩
  · rw [Plan.bindings_compile]
    exact List.forall₂_iff_zip.2 ⟨hlength, fun hmem => ⟨(hencodes hmem).column, hp.inPlace (List.of_mem_zip hmem).2⟩⟩
  · rw [Plan.prelude_compile]
    exact fun name v flag hstep => hp.first_of_step hstep
  · rw [KeepsNulls, FirstAdmits, Plan.bindings_compile, Plan.prelude_compile, List.forall₂_iff_zip]
    constructor
    · rintro ⟨-, hkept⟩ s hs
      obtain ⟨b, -, hmem⟩ := exists_of_mem_forall₂ (R := fun b s => (b, s) ∈ p.bindings.zip p.slots)
        (List.forall₂_iff_zip.2 ⟨hlength, id⟩) hs
      exact (hp.admitted_iff hs (hencodes hmem)).1 (hkept hmem)
    · intro hfirst
      refine ⟨hlength, fun {b s} hmem => ?_⟩
      have hs : s ∈ p.slots := (List.of_mem_zip hmem).2
      exact (hp.admitted_iff hs (hencodes hmem)).2 (hfirst s hs)

set_option maxRecDepth 4000 in
/-- The array is stored into a column that admits null before raw SQL mentions it. -/
theorem award_keeps_nulls : ∃ compiled p, Operation.compile .postgres badges award = .ok compiled ∧
    plan badges award = .ok p ∧ compiled.prelude = [.enumNames "var0" (.param "badges") true] ∧
      Flagged badges compiled p.slots ∧ KeepsNulls compiled p.slots := by
  have hprelude : (Operation.compile .postgres badges award).toOption.map CompiledOperation.prelude =
      some [.enumNames "var0" (.param "badges") true] := by
    rw [Operation.compile_eq]
    cbv
  have hnullable : (plan badges award).toOption.map (fun p =>
      p.slots.all fun s => s.type ≠ some ⟨.enum, true⟩ || s.nullable) = some true := by
    cbv
  obtain ⟨compiled, h, hprelude⟩ := exists_ok_of_toOption hprelude
  obtain ⟨p, hplan, -, hflagged, hkept⟩ := keepsNulls_iff h
  obtain ⟨p', hplan', hnullable⟩ := exists_ok_of_toOption hnullable
  obtain rfl : p' = p := Except.ok.inj (hplan'.symm.trans hplan)
  refine ⟨compiled, p', h, hplan, hprelude, hflagged, hkept.2 (firstAdmits_of_nullable fun s hs htype => ?_)⟩
  simpa [htype] using List.all_eq_true.1 hnullable s hs

/-- A table of posts with two arrays of constants, of which one may be null. -/
def posts : Table :=
  ((Table.ofName "POSTS").addColumn { field := "id", kind := .long, primaryKey := true }
    |>.addColumn { field := "tags", kind := .enum, isArray := true, nullable := false }
    |>.addColumn { field := "labels", kind := .enum, isArray := true })

/-- A select of posts that have an array as their tags or as their labels. -/
def findTagged : Operation where
  name := "findTagged"
  kind := .selectEntity
  returns := .many
  params := [{ Param.array "tags" .enum with targets := ["tags", "labels"] }]

set_option maxRecDepth 4000 in
/-- The array is compared with the tags first, and so null is not admitted where it is compared with the labels. -/
theorem findTagged_loses_null : ∃ compiled p, Operation.compile .postgres posts findTagged = .ok compiled ∧
    plan posts findTagged = .ok p ∧ compiled.prelude = [.enumNames "var0" (.param "tags") false] ∧
      compiled.bindings =
        [⟨.computed "var0", some "TAGS", .sqlArray⟩, ⟨.computed "var0", some "LABELS", .sqlArray⟩] ∧
      (∃ column ∈ posts.columns.toList, column.name = "LABELS" ∧ column.isNullable = true) ∧
      ¬KeepsNulls compiled p.slots := by
  have hprelude : (Operation.compile .postgres posts findTagged).toOption.map
      (fun compiled => (compiled.prelude, compiled.bindings)) =
        some ([.enumNames "var0" (.param "tags") false],
          [⟨.computed "var0", some "TAGS", .sqlArray⟩, ⟨.computed "var0", some "LABELS", .sqlArray⟩]) := by
    cbv
  have hslots : (plan posts findTagged).toOption.map Plan.slots =
      some [⟨.param "tags", some "TAGS", some ⟨.enum, true⟩, false⟩,
        ⟨.param "tags", some "LABELS", some ⟨.enum, true⟩, true⟩] := by
    cbv
  obtain ⟨compiled, h, heq⟩ := exists_ok_of_toOption hprelude
  obtain ⟨hprelude, hbindings⟩ := Prod.mk.inj heq
  obtain ⟨p, hplan, hslots⟩ := exists_ok_of_toOption hslots
  refine ⟨compiled, p, h, hplan, hprelude, hbindings, by decide, fun hkept => ?_⟩
  rw [KeepsNulls, hprelude, hbindings, hslots, List.forall₂_cons, List.forall₂_cons] at hkept
  obtain ⟨-, hlabels, -⟩ := hkept
  cases hlabels rfl "var0" (.param "tags") false rfl (List.mem_singleton_self _)

end EntitySql.Query
