import EntitySql.Proofs.Query.Origin

/-! What is computed before the statements of an operation, and where it is used. The statement and its follow-up share
the steps: the arrays that the statement has collected are passed on, so that binding the two one after the other is
binding all their slots at once. -/
namespace EntitySql
open Query

/-- The bindings of an operation, the follow-up's last. -/
def CompiledOperation.bindings (compiled : CompiledOperation) : List Binding :=
  compiled.statement.bindings ++ (compiled.followUp.map (·.bindings)).getD []

namespace Query
variable {t : Table} {op : Operation} {arrays : EnumArrays} {s : Slot} {v : Value}

/-- What the slots of a plan are bound to. -/
def Plan.bindings (p : Plan) : List Binding :=
  (bindAll [] p.slots).2

/-- The arrays of constants that the slots of a plan hold. -/
def Plan.enumArrays (p : Plan) : EnumArrays :=
  (bindAll [] p.slots).1

/-- The steps that are done before the statements of a plan. -/
def Plan.steps (p : Plan) : List PreludeStep :=
  p.generated ++ enumSteps p.enumArrays

/-- The array that a step maps to names. -/
def PreludeStep.source? : PreludeStep → Option Value
  | generateId _ _ _ => none
  | enumNames _ source _ => some source

theorem Plan.bindings_compile (p : Plan) (d : Dialect) (op : Operation) :
    (p.compile d op).bindings = p.bindings := by
  unfold CompiledOperation.bindings Plan.bindings Plan.slots Plan.compile
  rw [bindAll_append]
  cases p.followUp <;> rfl

theorem Plan.prelude_compile (p : Plan) (d : Dialect) (op : Operation) :
    (p.compile d op).prelude = p.steps := by
  unfold Plan.steps Plan.enumArrays Plan.slots Plan.compile
  rw [bindAll_append]

/-- An array is known, and then nothing is added, or it is put at the end. -/
theorem enumNames_cases (arrays : EnumArrays) (source : Value) (nullable : Bool) :
    source ∈ arrays.map Prod.fst ∧ (enumNames arrays source nullable).1 = arrays ∨
      source ∉ arrays.map Prod.fst ∧ (enumNames arrays source nullable).1 = arrays ++ [(source, nullable)] := by
  unfold enumNames
  split
  · next i hi =>
    obtain ⟨hlt, hsource, -⟩ := List.findIdx?_eq_some_iff_getElem.1 hi
    have hentry : arrays[i].1 = source := by simpa using hsource
    exact .inl ⟨hentry ▸ List.mem_map_of_mem (List.getElem_mem hlt), rfl⟩
  · next hnone =>
    refine .inr ⟨fun hmem => ?_, rfl⟩
    obtain ⟨entry, hentry, rfl⟩ := List.mem_map.1 hmem
    simpa using List.findIdx?_eq_none_iff.1 hnone entry hentry

theorem mem_sources_enumNames {source : Value} {nullable : Bool} :
    v ∈ (enumNames arrays source nullable).1.map Prod.fst ↔ v ∈ arrays.map Prod.fst ∨ source = v := by
  obtain ⟨hknown, heq⟩ | ⟨-, heq⟩ := enumNames_cases arrays source nullable
  · rw [heq]
    constructor
    · exact .inl
    · rintro (h | rfl)
      · exact h
      · exact hknown
  · simp [heq, eq_comm]

theorem nodup_sources_enumNames {source : Value} {nullable : Bool} (h : (arrays.map Prod.fst).Nodup) :
    ((enumNames arrays source nullable).1.map Prod.fst).Nodup := by
  obtain ⟨-, heq⟩ | ⟨hnew, heq⟩ := enumNames_cases arrays source nullable
  · rwa [heq]
  · rw [heq, List.map_append]
    exact h.append (List.nodup_singleton _) (by simpa using hnew)

theorem mem_sources_bind :
    v ∈ (bind arrays s).1.map Prod.fst ↔ v ∈ arrays.map Prod.fst ∨ s.type = some ⟨.enum, true⟩ ∧ s.value = v := by
  unfold bind
  split
  · next htype => simp [htype, mem_sources_enumNames]
  · next hne htype =>
    have hkind : s.type ≠ some ⟨.enum, true⟩ := by simpa [htype] using hne
    simp [hkind]
  · next htype => simp [htype]
  · next hne _ _ =>
    have hkind : s.type ≠ some ⟨.enum, true⟩ := hne
    simp [hkind]

theorem nodup_sources_bind (h : (arrays.map Prod.fst).Nodup) : ((bind arrays s).1.map Prod.fst).Nodup := by
  unfold bind
  split
  · exact nodup_sources_enumNames h
  · exact h
  · exact h
  · exact h

/-- The arrays that are mapped to names are those that slots hold. -/
theorem mem_sources_bindAll {slots : List Slot} :
    v ∈ (bindAll arrays slots).1.map Prod.fst ↔
      v ∈ arrays.map Prod.fst ∨ ∃ s ∈ slots, s.type = some ⟨.enum, true⟩ ∧ s.value = v := by
  induction slots generalizing arrays with
  | nil => simp [bindAll]
  | cons s slots ih =>
    rw [bindAll, ih, mem_sources_bind]
    simp [or_assoc]

theorem nodup_sources_bindAll {slots : List Slot} (h : (arrays.map Prod.fst).Nodup) :
    ((bindAll arrays slots).1.map Prod.fst).Nodup := by
  induction slots generalizing arrays with
  | nil => exact h
  | cons s slots ih => exact ih (nodup_sources_bind h)

theorem forall₂_encodes {slots : List Slot} {final : EnumArrays} (hfinal : (bindAll arrays slots).1 <+: final) :
    List.Forall₂ (fun b s => b.Encodes (enumSteps final) s) (bindAll arrays slots).2 slots := by
  induction slots generalizing arrays with
  | nil => exact .nil
  | cons s slots ih => exact .cons (encodes_bind ((prefix_bindAll slots).trans hfinal)) (ih hfinal)

/-- The bindings of a plan carry the values of its slots. -/
theorem Plan.encodes (p : Plan) : List.Forall₂ (fun b s => b.Encodes p.steps s) p.bindings p.slots :=
  (forall₂_encodes List.prefix_rfl).imp fun _ _ hencodes =>
    hencodes.mono fun _ hstep => List.mem_append_right _ hstep

theorem Plan.nodup_arrays (p : Plan) : (p.enumArrays.map Prod.fst).Nodup :=
  nodup_sources_bindAll List.nodup_nil

theorem Plan.mem_arrays {p : Plan} :
    v ∈ p.enumArrays.map Prod.fst ↔ ∃ s ∈ p.slots, s.type = some ⟨.enum, true⟩ ∧ s.value = v := by
  rw [Plan.enumArrays, mem_sources_bindAll]
  simp

theorem sources_enumSteps : (enumSteps arrays).filterMap PreludeStep.source? = arrays.map Prod.fst := by
  have hfirst : arrays.zipIdx.map Prod.fst = arrays := List.zipIdx_map_fst 0 arrays
  calc (enumSteps arrays).filterMap PreludeStep.source?
    _ = arrays.zipIdx.filterMap (some ∘ Prod.fst ∘ Prod.fst) := by
      rw [enumSteps, List.filterMap_map]
      rfl
    _ = arrays.map Prod.fst := by rw [List.filterMap_eq_map, ← List.map_map, hfirst]

theorem minted_enumSteps : (enumSteps arrays).filterMap PreludeStep.minted? = [] := by
  rw [enumSteps, List.filterMap_map]
  exact List.filterMap_eq_nil_iff.2 fun _ _ => rfl

theorem sources_generatedIds : (generatedIds t).filterMap PreludeStep.source? = [] := by
  refine List.filterMap_eq_nil_iff.2 fun step hstep => ?_
  obtain ⟨i, column, generator, -, -, rfl⟩ := mem_generatedIds.1 hstep
  rfl

/-- One id is minted for each generated column. -/
theorem minted_generatedIds :
    (generatedIds t).filterMap PreludeStep.minted? =
      (t.columns.toList.filter fun column => column.isGenerated).map Column.name := by
  have hfirst : t.columns.toList.zipIdx.map Prod.fst = t.columns.toList := List.zipIdx_map_fst 0 _
  conv => rhs; rw [← hfirst]
  unfold generatedIds
  induction t.columns.toList.zipIdx with
  | nil => rfl
  | cons entry rest ih =>
    cases hgenerator : entry.1.generator with
    | none => simpa [Column.isGenerated, hgenerator] using ih
    | some generator => simpa [Column.isGenerated, hgenerator, PreludeStep.minted?] using ih

/-- What stands before an element that is not in the first part of a list begins with that part. -/
theorem subset_before {α : Type} {a b before after : List α} {x : α} (h : a ++ b = before ++ x :: after)
    (hx : x ∉ a) : a ⊆ before := by
  obtain ⟨rest, rfl, -⟩ | ⟨rest, rfl, hrest⟩ := List.append_eq_append_iff.1 h
  · exact List.subset_append_left _ _
  · cases rest with
    | nil => simp
    | cons y rest =>
      obtain ⟨rfl, -⟩ := List.cons.inj hrest
      exact absurd (by simp) hx

theorem subset_after {α : Type} {a b before after : List α} {x : α} (h : a ++ b = before ++ x :: after)
    (hx : x ∉ b) : b ⊆ after := by
  obtain ⟨rest, -, rfl⟩ | ⟨rest, -, hrest⟩ := List.append_eq_append_iff.1 h
  · exact absurd (by simp) hx
  · cases rest with
    | nil =>
      rw [List.nil_append] at hrest
      exact absurd (hrest ▸ List.mem_cons_self) hx
    | cons y rest =>
      obtain ⟨-, rfl⟩ := List.cons.inj hrest
      exact List.subset_append_right _ _

/-- The names of an array are bound in the place of the array. -/
theorem Plan.bound_of_array {p : Plan} {i : Nat} {nullable : Bool} (harray : p.enumArrays[i]? = some (v, nullable)) :
    ∃ b ∈ p.bindings, b.value = .computed (enumLocal i) := by
  obtain ⟨s, hs, htype, rfl⟩ := mem_arrays.1 (List.mem_map_of_mem (List.mem_of_getElem? harray))
  obtain ⟨b, hb, hencodes⟩ := exists_of_mem_forall₂ (forall₂_encodes List.prefix_rfl) hs
  obtain ⟨name, nullable', hvalue, hstep⟩ := hencodes.mapped htype
  obtain ⟨j, source, nullable'', harray', heq⟩ := mem_enumSteps.1 hstep
  cases heq
  rw [index_unique p.nodup_arrays harray harray' rfl]
  exact ⟨b, hb, hvalue⟩

theorem Planned.generated_eq {p : Plan} (h : Planned t op p) :
    p.generated = if op.kind.isInsert then generatedIds t else [] := by
  cases hkind : op.kind.isInsert with
  | true => exact (h.slots_insert hkind).1
  | false => exact (h.bounds hkind).1

theorem Planned.generated_subset {p : Plan} (h : Planned t op p) {step : PreludeStep} (hstep : step ∈ p.generated) :
    op.kind.isInsert = true ∧ step ∈ generatedIds t := by
  rw [h.generated_eq] at hstep
  split at hstep
  · next hkind => exact ⟨hkind, hstep⟩
  · cases hstep

/-- An id that is minted is bound, or is the array that a step maps to names. -/
theorem Planned.used_of_generated {p : Plan} (h : Planned t op p) {step : PreludeStep} (hstep : step ∈ p.generated) :
    (∃ b ∈ p.bindings, b.value = .computed step.name) ∨
      ∃ later ∈ enumSteps p.enumArrays, later.source? = some (.computed step.name) := by
  obtain ⟨hkind, hmem⟩ := h.generated_subset hstep
  obtain ⟨i, column, generator, hcolumn, hgenerator, rfl⟩ := mem_generatedIds.1 hmem
  have hs : (Target.slot ⟨column, .computed (idLocal i)⟩) ∈ p.slots := by
    rw [(h.slots_insert hkind).2]
    exact List.mem_map_of_mem (minted_mem_insertValues hcolumn hgenerator)
  obtain ⟨b, hb, hencodes⟩ := exists_of_mem_forall₂ (forall₂_encodes List.prefix_rfl) hs
  by_cases htype : some column.type = some ⟨.enum, true⟩
  · obtain ⟨name, nullable, -, hlater⟩ := hencodes.mapped htype
    exact .inr ⟨_, hlater, rfl⟩
  · exact .inl ⟨b, hb, hencodes.plain htype⟩

section
variable {p : Plan} {b : Binding} {name : String} {before after : List PreludeStep} {step : PreludeStep}

theorem Planned.distinct (h : Planned t op p) : (p.steps.map PreludeStep.name).Nodup := by
  rw [Plan.steps, h.generated_eq]
  split
  · exact nodup_names_prelude
  · exact nodup_names_enumSteps

theorem Planned.defined_of_bound (h : Planned t op p) (hb : b ∈ p.bindings) (hvalue : b.value = .computed name) :
    ∃ step ∈ p.steps, step.name = name := by
  obtain ⟨s, hs, hencodes⟩ := exists_of_forall₂ p.encodes hb
  by_cases htype : s.type = some ⟨.enum, true⟩
  · obtain ⟨name', nullable, hname, hstep⟩ := hencodes.mapped htype
    rw [hname] at hvalue
    cases hvalue
    exact ⟨_, hstep, rfl⟩
  · rw [hencodes.plain htype] at hvalue
    obtain ⟨step, hstep, hname⟩ := h.minted_of_slot hs hvalue
    exact ⟨step, List.mem_append_left _ hstep, hname⟩

/-- Only ids are mapped to names before they are supplied, and all ids are minted first. -/
theorem Planned.source_earlier (h : Planned t op p) (hsplit : p.steps = before ++ step :: after)
    (hsource : step.source? = some (.computed name)) : ∃ source ∈ before, source.name = name := by
  have hnot : step ∉ p.generated := by
    intro hmem
    obtain ⟨i, column, generator, -, -, rfl⟩ := mem_generatedIds.1 (h.generated_subset hmem).2
    cases hsource
  have hmapped : .computed name ∈ p.enumArrays.map Prod.fst := by
    have hstep : step ∈ p.steps := hsplit ▸ by simp
    rw [← sources_enumSteps]
    exact List.mem_filterMap.2 ⟨step, (List.mem_append.1 hstep).resolve_left hnot, hsource⟩
  obtain ⟨s, hs, -, hvalue⟩ := Plan.mem_arrays.1 hmapped
  -- The array stands in a slot of the plan, where all computed values are still ids.
  obtain ⟨source, hmem, hname⟩ := h.minted_of_slot hs hvalue
  exact ⟨source, subset_before hsplit hnot hmem, hname⟩

theorem Planned.used_later (h : Planned t op p) (hsplit : p.steps = before ++ step :: after) :
    (∃ b ∈ p.bindings, b.value = .computed step.name) ∨
      ∃ later ∈ after, later.source? = some (.computed step.name) := by
  have hstep : step ∈ p.steps := hsplit ▸ by simp
  obtain hgenerated | hmapped := List.mem_append.1 hstep
  · have hnot : step ∉ enumSteps p.enumArrays := by
      intro hmem
      obtain ⟨i, source, nullable, -, rfl⟩ := mem_enumSteps.1 hmem
      obtain ⟨j, column, generator, -, -, heq⟩ := mem_generatedIds.1 (h.generated_subset hgenerated).2
      cases heq
    obtain hbound | ⟨later, hlater, hsource⟩ := h.used_of_generated hgenerated
    · exact .inl hbound
    · exact .inr ⟨later, subset_after hsplit hnot hlater, hsource⟩
  · obtain ⟨i, source, nullable, harray, rfl⟩ := mem_enumSteps.1 hmapped
    exact .inl (p.bound_of_array harray)

theorem Planned.sources_eq (h : Planned t op p) :
    p.steps.filterMap PreludeStep.source? = p.enumArrays.map Prod.fst := by
  rw [Plan.steps, List.filterMap_append, sources_enumSteps, h.generated_eq]
  split <;> simp [sources_generatedIds]

theorem Planned.minted_eq (h : Planned t op p) :
    p.steps.filterMap PreludeStep.minted? =
      if op.kind.isInsert then (t.columns.toList.filter fun column => column.isGenerated).map Column.name else [] := by
  rw [Plan.steps, List.filterMap_append, minted_enumSteps, List.append_nil, h.generated_eq]
  split
  · exact minted_generatedIds
  · rfl

end

end Query
end EntitySql
