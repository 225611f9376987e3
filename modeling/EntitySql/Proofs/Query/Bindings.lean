import EntitySql.Proofs.Query.Resolved

/-! Bindings and the values they stand for. A binding of an array of constants holds the name of a step; the step
tells the array. The arrays collected so far are only ever added to, so a name that was given out keeps its
meaning. -/
namespace EntitySql.Query

/-- The value that a binding had before it was encoded: the array that a step maps to names, otherwise itself. -/
def sourceOf (steps : List PreludeStep) : Value → Value
  | .computed name =>
    (steps.findSome? fun
      | .enumNames name' source _ => if name' = name then some source else none
      | .generateId _ _ _ => none).getD (.computed name)
  | value => value

theorem numbered_inj (word : String) {i j : Nat} : word ++ toString i = word ++ toString j ↔ i = j := by
  rw [String.append_right_inj]
  exact Nat.repr_inj

theorem enumLocal_inj {i j : Nat} : enumLocal i = enumLocal j ↔ i = j :=
  numbered_inj "var"

theorem sourceOf_supplied {steps : List PreludeStep} {v : Value} (h : v.parameter?.isSome) :
    sourceOf steps v = v := by
  cases v with
  | param name => rfl
  | field root path => rfl
  | computed name => cases h

theorem sourceOf_enumLocal {arrays : EnumArrays} {i : Nat} {source : Value} {nullable : Bool}
    (h : arrays[i]? = some (source, nullable)) : sourceOf (enumSteps arrays) (.computed (enumLocal i)) = source := by
  have hfind : ∀ (rest : EnumArrays) (k i : Nat), rest[i]? = some (source, nullable) →
      ((rest.zipIdx k).map fun entry => PreludeStep.enumNames (enumLocal entry.2) entry.1.1 entry.1.2).findSome?
        (fun
          | .enumNames name' source _ => if name' = enumLocal (k + i) then some source else none
          | .generateId _ _ _ => none) = some source := by
    intro rest
    induction rest with
    | nil => simp
    | cons array rest ih =>
      intro k i hi
      rw [List.zipIdx_cons, List.map_cons, List.findSome?_cons]
      cases i with
      | zero =>
        cases hi
        simp
      | succ i =>
        have hne : enumLocal k ≠ enumLocal (k + (i + 1)) := fun he => by
          have := enumLocal_inj.1 he
          omega
        simp only [hne, if_false]
        rw [show k + (i + 1) = k + 1 + i by omega]
        exact ih (k + 1) i hi
  have hfound := hfind arrays 0 i h
  rw [Nat.zero_add] at hfound
  rw [sourceOf, enumSteps, hfound]
  rfl

theorem mem_enumSteps {arrays : EnumArrays} {step : PreludeStep} :
    step ∈ enumSteps arrays ↔
      ∃ i source nullable, arrays[i]? = some (source, nullable) ∧ step = .enumNames (enumLocal i) source nullable := by
  constructor
  · intro h
    obtain ⟨⟨⟨source, nullable⟩, i⟩, hmem, rfl⟩ := List.mem_map.1 h
    exact ⟨i, source, nullable, List.mk_mem_zipIdx_iff_getElem?.1 hmem, rfl⟩
  · rintro ⟨i, source, nullable, harray, rfl⟩
    exact List.mem_map.2 ⟨((source, nullable), i), List.mk_mem_zipIdx_iff_getElem?.2 harray, rfl⟩

theorem sourceOf_of_mem {arrays : EnumArrays} {name : String} {source : Value} {nullable : Bool}
    (h : .enumNames name source nullable ∈ enumSteps arrays) :
    sourceOf (enumSteps arrays) (.computed name) = source := by
  obtain ⟨i, source', nullable', harray, heq⟩ := mem_enumSteps.1 h
  cases heq
  exact sourceOf_enumLocal harray

/-- A binding carries the value of a slot: the value itself, or for an array of constants the name of a step that
maps the array. -/
structure Binding.Encodes (b : Binding) (steps : List PreludeStep) (s : Slot) : Prop where
  column : b.column = s.column
  mapped : s.type = some ⟨.enum, true⟩ →
    ∃ name nullable, b.value = .computed name ∧ .enumNames name s.value nullable ∈ steps
  plain : s.type ≠ some ⟨.enum, true⟩ → b.value = s.value

theorem Binding.Encodes.mono {b : Binding} {steps steps' : List PreludeStep} {s : Slot} (h : b.Encodes steps s)
    (hsub : ∀ step ∈ steps, step ∈ steps') : b.Encodes steps' s := by
  refine ⟨h.column, fun htype => ?_, h.plain⟩
  obtain ⟨name, nullable, hvalue, hstep⟩ := h.mapped htype
  exact ⟨name, nullable, hvalue, hsub _ hstep⟩

section
variable {arrays final : EnumArrays} {s : Slot}

/-- An array is found where it was put, or put at the end. -/
theorem getElem?_enumNames (arrays : EnumArrays) (source : Value) (nullable : Bool) :
    ∃ i nullable', (enumNames arrays source nullable).2 = .computed (enumLocal i) ∧
      (enumNames arrays source nullable).1[i]? = some (source, nullable') := by
  unfold enumNames
  split
  · next i hi =>
    obtain ⟨hlt, hsource, -⟩ := List.findIdx?_eq_some_iff_getElem.1 hi
    refine ⟨i, arrays[i].2, rfl, ?_⟩
    rw [List.getElem?_eq_getElem hlt]
    exact congrArg some (Prod.ext (by simpa using hsource) rfl)
  · exact ⟨arrays.length, nullable, rfl, by simp⟩

theorem prefix_enumNames (source : Value) (nullable : Bool) :
    arrays <+: (enumNames arrays source nullable).1 := by
  unfold enumNames
  split
  · exact List.prefix_rfl
  · exact List.prefix_append _ _

theorem prefix_bind : arrays <+: (bind arrays s).1 := by
  unfold bind
  split
  · exact prefix_enumNames _ _
  · exact List.prefix_rfl
  · exact List.prefix_rfl
  · exact List.prefix_rfl

theorem prefix_bindAll (slots : List Slot) : arrays <+: (bindAll arrays slots).1 := by
  induction slots generalizing arrays with
  | nil => exact List.prefix_rfl
  | cons s slots ih => exact prefix_bind.trans ih

theorem length_bindAll (slots : List Slot) : (bindAll arrays slots).2.length = slots.length := by
  induction slots generalizing arrays with
  | nil => rfl
  | cons s slots ih => exact congrArg (· + 1) ih

theorem bindAll_append (arrays : EnumArrays) (a b : List Slot) :
    bindAll arrays (a ++ b) =
      ((bindAll (bindAll arrays a).1 b).1, (bindAll arrays a).2 ++ (bindAll (bindAll arrays a).1 b).2) := by
  induction a generalizing arrays with
  | nil => rfl
  | cons s a ih => simp [bindAll, ih]

theorem encodes_bind (hfinal : (bind arrays s).1 <+: final) : (bind arrays s).2.Encodes (enumSteps final) s := by
  unfold bind at hfinal ⊢
  split
  · next htype =>
    simp only [htype] at hfinal
    obtain ⟨i, nullable, hname, harray⟩ := getElem?_enumNames arrays s.value s.nullable
    refine ⟨rfl, fun _ => ⟨enumLocal i, nullable, hname, ?_⟩, fun hne => absurd htype hne⟩
    obtain ⟨hlt, hget⟩ := List.getElem?_eq_some_iff.1 harray
    exact mem_enumSteps.2
      ⟨i, s.value, nullable, (List.prefix_iff_getElem?.1 hfinal i hlt).trans (congrArg some hget), rfl⟩
  · next hne htype => exact ⟨rfl, fun h => absurd h (by simpa [htype] using hne), fun _ => rfl⟩
  · next htype => exact ⟨rfl, fun h => by simp [htype] at h, fun _ => rfl⟩
  · next hne _ _ => exact ⟨rfl, fun h => absurd h hne, fun _ => rfl⟩

/-- The binding at a position carries the value of the slot there. -/
theorem encodes_bindAll {slots : List Slot} (hfinal : (bindAll arrays slots).1 <+: final) {i : Nat}
    (hs : slots[i]? = some s) : ∃ b, (bindAll arrays slots).2[i]? = some b ∧ b.Encodes (enumSteps final) s := by
  induction slots generalizing arrays i with
  | nil => cases hs
  | cons first slots ih =>
    cases i with
    | zero =>
      cases hs
      exact ⟨_, rfl, encodes_bind ((prefix_bindAll slots).trans hfinal)⟩
    | succ i => exact ih hfinal hs

theorem columns_bindAll (slots : List Slot) :
    (bindAll arrays slots).2.map (·.column) = slots.map (·.column) := by
  induction slots generalizing arrays with
  | nil => rfl
  | cons s slots ih =>
    have hfirst : (bind arrays s).2.column = s.column := (encodes_bind List.prefix_rfl).column
    rw [bindAll, List.map_cons, List.map_cons, ih, hfirst]

theorem sourceOf_bind (hs : s.value.parameter?.isSome) (hfinal : (bind arrays s).1 <+: final) :
    sourceOf (enumSteps final) (bind arrays s).2.value = s.value ∧ (bind arrays s).2.column = s.column := by
  have hencodes := encodes_bind hfinal
  refine ⟨?_, hencodes.column⟩
  by_cases htype : s.type = some ⟨.enum, true⟩
  · obtain ⟨name, nullable, hvalue, hstep⟩ := hencodes.mapped htype
    rw [hvalue]
    exact sourceOf_of_mem hstep
  · rw [hencodes.plain htype]
    exact sourceOf_supplied hs

/-- Before they were encoded the bindings were the slots, in the same order. -/
theorem sourceOf_bindAll {slots : List Slot} (hslots : ∀ s ∈ slots, s.value.parameter?.isSome)
    (hfinal : (bindAll arrays slots).1 <+: final) :
    (bindAll arrays slots).2.map (fun b => (sourceOf (enumSteps final) b.value, b.column)) =
      slots.map fun s => (s.value, s.column) := by
  induction slots generalizing arrays with
  | nil => rfl
  | cons s slots ih =>
    obtain ⟨hs, hslots⟩ := List.forall_mem_cons.1 hslots
    have hfirst : (bind arrays s).1 <+: final := (prefix_bindAll slots).trans hfinal
    obtain ⟨hvalue, hcolumn⟩ := sourceOf_bind hs hfirst
    have hrest := @ih (bind arrays s).1 hslots hfinal
    rw [bindAll, List.map_cons, List.map_cons, hrest, hvalue, hcolumn]

end

end EntitySql.Query
