import EntitySql.Proofs.Query.Resolved

/-! How an insert comes by its values. Ids come first, then the targets of the parameters as they are given, but no second
one for a name; in the end all are sorted by the positions of their columns. Main statement: this is one value for each
column that gets one, in the order of the columns. -/
namespace EntitySql

/-- The position that a field is looked up at is that of its column, since no other has the field. -/
theorem Columns.index?_eq_some {cs : Columns} {column : Column} (h : column ∈ cs.toList) {i : ℕ} :
    cs.index? column.field = some i ↔ cs.toList[i]? = some column := by
  have hat : ∀ {j : ℕ}, cs.index? column.field = some j → cs.toList[j]? = some column := by
    intro j hj
    obtain ⟨hlt, hfield, -⟩ := List.findIdx?_eq_some_iff_getElem.1 hj
    rw [List.getElem?_eq_getElem hlt]
    exact congrArg some
      (List.inj_on_of_nodup_map cs.nodup_fields (List.getElem_mem hlt) h (by simpa using hfield))
  refine ⟨hat, fun hi => ?_⟩
  have hfound : (cs.index? column.field).isSome := by
    rw [Columns.index?, List.findIdx?_isSome, List.any_eq_true]
    exact ⟨column, h, by simp⟩
  obtain ⟨j, hj⟩ := Option.isSome_iff_exists.1 hfound
  obtain ⟨hlt, hget⟩ := List.getElem?_eq_some_iff.1 hi
  have hsame : j = i := by
    obtain ⟨hjlt, hjget⟩ := List.getElem?_eq_some_iff.1 (hat hj)
    have hnodup := List.Nodup.of_map _ cs.nodup_fields
    exact (List.Nodup.getElem_inj_iff hnodup).1 (hjget.trans hget.symm)
  exact hsame ▸ hj

namespace Query
variable {t : Table} {params : List BoundParam} {values : List (ℕ × Target)} {targets : List Target} {i : ℕ}
  {target : Target}

/-- A target with the position of its column. -/
def place (t : Table) (target : Target) : ℕ × Target :=
  ((t.columns.index? target.column.field).getD (UInt64.size - 1), target)

/-- The values of the generated columns, with their positions. -/
def mintedValues (t : Table) : List (ℕ × Target) :=
  t.columns.toList.zipIdx.filterMap fun (column, i) =>
    column.generator.map fun _ => (i, ⟨column, .computed (idLocal i)⟩)

/-- The values that an insert stores, with the positions of their columns. -/
def placedValues (t : Table) (params : List BoundParam) : List (ℕ × Target) :=
  t.columns.toList.zipIdx.filterMap fun (column, i) =>
    (insertValue? t params column i).map fun value => (i, ⟨column, value⟩)

theorem snd_placedValues : (placedValues t params).map (·.2) = insertValues t params := by
  rw [placedValues, List.map_filterMap, insertValues]
  refine List.filterMap_congr fun entry _ => ?_
  rw [Option.map_map]
  rfl

/-- A name that is given out is that of a target which is not generated and has its name first. -/
def FirstOfName (targets : List Target) (target : Target) : Prop :=
  (targets.filter fun other => !other.column.isGenerated).find? (·.column.name = target.column.name) = some target

theorem takeUp_cases (t : Table) (values : List (ℕ × Target)) (target : Target) :
    takeUp t values target = values ∧
        (target.column.isGenerated = true ∨ ∃ v ∈ values, v.2.column.name = target.column.name) ∨
      takeUp t values target = values ++ [place t target] ∧ target.column.isGenerated = false ∧
        ∀ v ∈ values, v.2.column.name ≠ target.column.name := by
  unfold takeUp
  split
  · next hgenerated => exact .inl ⟨rfl, .inl hgenerated⟩
  · next hgiven =>
    split
    · next hany => exact .inl ⟨rfl, .inr (by simpa using hany)⟩
    · next hnone => exact .inr ⟨rfl, by simpa using hgiven, by simpa using hnone⟩

theorem nodup_takeUp (h : values.Nodup) : (takeUp t values target).Nodup := by
  obtain ⟨heq, -⟩ | ⟨heq, -, hnew⟩ := takeUp_cases t values target
  · rwa [heq]
  · rw [heq]
    refine h.append (List.nodup_singleton _) ?_
    rintro v hv hsame
    rw [List.mem_singleton.1 hsame] at hv
    exact hnew _ hv rfl

theorem nodup_foldl_takeUp (h : values.Nodup) : (targets.foldl (takeUp t) values).Nodup := by
  induction targets generalizing values with
  | nil => exact h
  | cons target targets ih => exact ih (nodup_takeUp h)

theorem firstOfName_cons_of_generated {other : Target} (h : other.column.isGenerated = true) :
    FirstOfName (other :: targets) target ↔ FirstOfName targets target := by
  simp [FirstOfName, h]

theorem firstOfName_cons_of_ne {other : Target} (h : other.column.name ≠ target.column.name) :
    FirstOfName (other :: targets) target ↔ FirstOfName targets target := by
  cases hgenerated : other.column.isGenerated with
  | true => exact firstOfName_cons_of_generated hgenerated
  | false => simp [FirstOfName, hgenerated, h]

theorem firstOfName_cons_of_eq {other : Target} (hgiven : other.column.isGenerated = false)
    (h : other.column.name = target.column.name) : FirstOfName (other :: targets) target ↔ other = target := by
  simp [FirstOfName, hgiven, h]

/-- What is taken up: what was there, and the first targets of the other names. -/
theorem mem_foldl_takeUp {v : ℕ × Target} :
    v ∈ targets.foldl (takeUp t) values ↔
      v ∈ values ∨ v = place t v.2 ∧ v.2.column.isGenerated = false ∧
        (∀ w ∈ values, w.2.column.name ≠ v.2.column.name) ∧ FirstOfName targets v.2 := by
  induction targets generalizing values with
  | nil => simp [FirstOfName]
  | cons target targets ih =>
    rw [List.foldl_cons, ih]
    obtain ⟨heq, hskipped⟩ | ⟨heq, hgiven, hnew⟩ := takeUp_cases t values target
    · rw [heq]
      refine or_congr_right (and_congr_right fun _ => and_congr_right fun _ => and_congr_right fun hfresh => ?_)
      obtain hgenerated | ⟨w, hw, hname⟩ := hskipped
      · rw [firstOfName_cons_of_generated hgenerated]
      · have hne : target.column.name ≠ v.2.column.name := hname ▸ hfresh w hw
        rw [firstOfName_cons_of_ne hne]
    · rw [heq]
      simp only [List.mem_append, List.mem_singleton, or_imp, forall_and, forall_eq]
      by_cases hname : target.column.name = v.2.column.name
      · rw [firstOfName_cons_of_eq hgiven hname]
        constructor
        · rintro ((hv | rfl) | ⟨-, -, ⟨-, hne⟩, -⟩)
          · exact .inl hv
          · exact .inr ⟨rfl, hgiven, hnew, rfl⟩
          · exact absurd hname hne
        · rintro (hv | ⟨hplace, -, -, rfl⟩)
          · exact .inl (.inl hv)
          · exact .inl (.inr hplace)
      · rw [firstOfName_cons_of_ne hname]
        constructor
        · rintro ((hv | rfl) | ⟨hplace, hgiven', ⟨hfresh, -⟩, hfirst⟩)
          · exact .inl hv
          · exact absurd rfl hname
          · exact .inr ⟨hplace, hgiven', hfresh, hfirst⟩
        · rintro (hv | ⟨hplace, hgiven', hfresh, hfirst⟩)
          · exact .inl (.inl hv)
          · exact .inr ⟨hplace, hgiven', ⟨hfresh, hname⟩, hfirst⟩

theorem mem_mintedValues : (i, target) ∈ mintedValues t ↔
    t.columns.toList[i]? = some target.column ∧ target.column.isGenerated = true ∧
      target.value = .computed (idLocal i) := by
  constructor
  · intro h
    obtain ⟨⟨column, j⟩, hmem, hentry⟩ := List.mem_filterMap.1 h
    obtain ⟨generator, hgenerator, heq⟩ := Option.map_eq_some_iff.1 hentry
    cases heq
    exact ⟨List.mk_mem_zipIdx_iff_getElem?.1 hmem, by simp [Column.isGenerated, hgenerator], rfl⟩
  · rintro ⟨hcolumn, hgenerated, hvalue⟩
    obtain ⟨generator, hgenerator⟩ := Option.isSome_iff_exists.1 hgenerated
    refine List.mem_filterMap.2 ⟨(target.column, i), List.mk_mem_zipIdx_iff_getElem?.2 hcolumn, ?_⟩
    simp [hgenerator, ← hvalue]

theorem mem_placedValues : (i, target) ∈ placedValues t params ↔
    t.columns.toList[i]? = some target.column ∧ insertValue? t params target.column i = some target.value := by
  constructor
  · intro h
    obtain ⟨⟨column, j⟩, hmem, hentry⟩ := List.mem_filterMap.1 h
    obtain ⟨value, hvalue, heq⟩ := Option.map_eq_some_iff.1 hentry
    cases heq
    exact ⟨List.mk_mem_zipIdx_iff_getElem?.1 hmem, hvalue⟩
  · rintro ⟨hcolumn, hvalue⟩
    refine List.mem_filterMap.2 ⟨(target.column, i), List.mk_mem_zipIdx_iff_getElem?.2 hcolumn, ?_⟩
    simp [hvalue]

/-- What is read off the elements of a list together with their positions is in the order of the positions. -/
theorem increasing_filterMap_zipIdx {α β : Type} {f : α × ℕ → Option (ℕ × β)}
    (hf : ∀ entry v, f entry = some v → v.1 = entry.2) (xs : List α) :
    (xs.zipIdx.filterMap f).Pairwise fun v w => v.1 < w.1 := by
  have hpositions : xs.zipIdx.Pairwise fun a b => a.2 < b.2 := by
    rw [← List.pairwise_map (f := Prod.snd) (R := (· < ·)), List.zipIdx_map_snd]
    exact List.pairwise_lt_range'
  refine hpositions.filterMap f fun a b hab v hv w hw => ?_
  rw [hf a v hv, hf b w hw]
  exact hab

theorem nodup_of_increasing (h : values.Pairwise fun v w => v.1 < w.1) : values.Nodup :=
  h.imp fun hlt heq => absurd (heq ▸ hlt) (lt_irrefl _)

theorem increasing_mintedValues : (mintedValues t).Pairwise fun v w => v.1 < w.1 := by
  refine increasing_filterMap_zipIdx (fun entry v hv => ?_) _
  obtain ⟨generator, -, rfl⟩ := Option.map_eq_some_iff.1 hv
  rfl

theorem increasing_placedValues : (placedValues t params).Pairwise fun v w => v.1 < w.1 := by
  refine increasing_filterMap_zipIdx (fun entry v hv => ?_) _
  obtain ⟨value, -, rfl⟩ := Option.map_eq_some_iff.1 hv
  rfl

theorem insertTarget?_eq_some {column : Column} : insertTarget? t params column = some target ↔
    (∀ other ∈ t.columns.toList, other.isGenerated = true → other.name ≠ column.name) ∧
      target.column.field = column.field ∧ target.column.name = column.name ∧
      FirstOfName (params.flatMap (·.targets)) target := by
  have hfind : (insertTargets params).find? (·.column.name = column.name) = some target ↔
      target.column.name = column.name ∧ FirstOfName (params.flatMap (·.targets)) target := by
    rw [FirstOfName, insertTargets]
    constructor
    · intro h
      have hname : target.column.name = column.name := by simpa using List.find?_some h
      exact ⟨hname, hname ▸ h⟩
    · rintro ⟨hname, h⟩
      rwa [← hname]
  unfold insertTarget?
  split
  · next hany => simpa using fun hnone => absurd hany (by simpa using hnone)
  · next hnone =>
    have hfree : ∀ other ∈ t.columns.toList, other.isGenerated = true → other.name ≠ column.name := by
      simpa using hnone
    rw [and_iff_right hfree]
    cases hfound : (insertTargets params).find? (·.column.name = column.name) with
    | none =>
      have hnot : ¬(target.column.name = column.name ∧ FirstOfName (params.flatMap (·.targets)) target) := by
        rw [← hfind, hfound]
        simp
      simp [hnot]
    | some found =>
      rw [← hfind, hfound, Option.ite_none_right_eq_some]
      refine and_congr_left fun hsame => ?_
      rw [Option.some.inj hsame]

theorem fresh_of_mintedValues {name : String} : (∀ v ∈ mintedValues t, v.2.column.name ≠ name) ↔
    ∀ other ∈ t.columns.toList, other.isGenerated = true → other.name ≠ name := by
  constructor
  · intro h other hother hgenerated
    obtain ⟨i, hi⟩ := List.mem_iff_getElem?.1 hother
    exact h (i, ⟨other, .computed (idLocal i)⟩) (mem_mintedValues.2 ⟨hi, hgenerated, rfl⟩)
  · rintro h ⟨i, target⟩ hv
    obtain ⟨hi, hgenerated, -⟩ := mem_mintedValues.1 hv
    exact h target.column (List.mem_of_getElem? hi) hgenerated

theorem eq_place (h : target.column ∈ t.columns.toList) :
    (i, target) = place t target ↔ t.columns.toList[i]? = some target.column := by
  obtain ⟨j, hj⟩ := List.mem_iff_getElem?.1 h
  have hindex := (Columns.index?_eq_some h).2 hj
  rw [place, hindex, Option.getD_some, Prod.mk.injEq, and_iff_left rfl, ← Columns.index?_eq_some h, hindex]
  simp [eq_comm]

section
variable (hparams : ∀ target ∈ params.flatMap (·.targets), target.column ∈ t.columns.toList)
include hparams

/-- What has been taken up in the end are the values of the columns. -/
theorem mem_takenUp {v : ℕ × Target} :
    v ∈ (params.flatMap (·.targets)).foldl (takeUp t) (mintedValues t) ↔ v ∈ placedValues t params := by
  obtain ⟨i, target⟩ := v
  rw [mem_foldl_takeUp, mem_mintedValues, mem_placedValues, fresh_of_mintedValues]
  cases hgenerated : target.column.isGenerated with
  | true =>
    rw [insertValue?, hgenerated, if_pos rfl, Option.some.injEq, eq_comm (a := target.value)]
    simp
  | false =>
    rw [insertValue?, hgenerated, if_neg (by simp), Option.map_eq_some_iff]
    have hfirst_mem : FirstOfName (params.flatMap (·.targets)) target → target.column ∈ t.columns.toList :=
      fun hfirst => hparams target (List.mem_filter.1 (List.mem_of_find?_eq_some hfirst)).1
    constructor
    · rintro (⟨-, hfalse, -⟩ | ⟨hplace, -, hfree, hfirst⟩)
      · cases hfalse
      · refine ⟨(eq_place (hfirst_mem hfirst)).1 hplace, target, ?_, rfl⟩
        exact insertTarget?_eq_some.2 ⟨hfree, rfl, rfl, hfirst⟩
    · rintro ⟨hcolumn, given, hgiven, hvalue⟩
      obtain ⟨hfree, hfield, hname, hfirst⟩ := insertTarget?_eq_some.1 hgiven
      have hmem := hparams given (List.mem_filter.1 (List.mem_of_find?_eq_some hfirst)).1
      have hsame : given.column = target.column :=
        List.inj_on_of_nodup_map t.columns.nodup_fields hmem (List.mem_of_getElem? hcolumn) hfield
      obtain rfl : given = target := by
        cases given
        cases target
        cases hsame
        cases hvalue
        rfl
      exact .inr ⟨(eq_place hmem).2 hcolumn, rfl, hfree, hfirst⟩

/-- The values that have been taken up, sorted by the positions of their columns, are one for each column that gets one,
in the order of the columns. -/
theorem sortedValues_eq : sortedValues t (mintedValues t) params = insertValues t params := by
  have hplaced := @increasing_placedValues t params
  have hperm : ((params.flatMap (·.targets)).foldl (takeUp t) (mintedValues t)).Perm (placedValues t params) :=
    (List.perm_ext_iff_of_nodup (nodup_foldl_takeUp (nodup_of_increasing increasing_mintedValues))
      (nodup_of_increasing hplaced)).2 fun v => mem_takenUp hparams
  -- No two values have one position, so there is only one way to sort them.
  have hunique : ∀ v w, v ∈ placedValues t params → w ∈ placedValues t params → v.1 = w.1 → v = w := by
    rintro ⟨i, target⟩ ⟨j, other⟩ hv hw (rfl : i = j)
    obtain ⟨hcolumn, hvalue⟩ := mem_placedValues.1 hv
    obtain ⟨hcolumn', hvalue'⟩ := mem_placedValues.1 hw
    cases target
    cases other
    cases hcolumn.symm.trans hcolumn'
    cases hvalue.symm.trans hvalue'
    rfl
  have hsorted := @List.pairwise_mergeSort (ℕ × Target) (fun v w => v.1 ≤ w.1)
    (fun a b c hab hbc => by simpa using (of_decide_eq_true hab).trans (of_decide_eq_true hbc))
    (fun a b => by simpa using le_total a.1 b.1) ((params.flatMap (·.targets)).foldl (takeUp t) (mintedValues t))
  have hall := (List.mergeSort_perm _ fun v w : ℕ × Target => v.1 ≤ w.1).trans hperm
  rw [sortedValues, ← snd_placedValues]
  refine congrArg (List.map _) (List.Perm.eq_of_pairwise (fun v w hv hw hle hge => ?_) hsorted
    (hplaced.imp fun hlt => decide_eq_true hlt.le) hall)
  exact hunique v w (hall.mem_iff.1 hv) hw (le_antisymm (of_decide_eq_true hle) (of_decide_eq_true hge))

end

end Query
end EntitySql
