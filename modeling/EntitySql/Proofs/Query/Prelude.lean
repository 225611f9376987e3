import EntitySql.Proofs.Query.Bindings

/-! The steps before a statement: ids are minted for the generated columns, then arrays of constants are mapped to
their names. No two steps have one name, so a computed value tells its step. -/
namespace EntitySql.Query
variable {t : Table} {arrays : EnumArrays}

theorem idLocal_inj {i j : Nat} : idLocal i = idLocal j ↔ i = j :=
  numbered_inj "id"

theorem idLocal_ne_enumLocal (i j : Nat) : idLocal i ≠ enumLocal j := by
  intro h
  have hchars := congrArg String.toList h
  simp [idLocal, enumLocal] at hchars

/-- The column that a step mints an id for. -/
def PreludeStep.minted? : PreludeStep → Option String
  | generateId _ _ column => some column
  | enumNames _ _ _ => none

theorem mem_generatedIds {step : PreludeStep} :
    step ∈ generatedIds t ↔ ∃ i column generator, t.columns.toList[i]? = some column ∧
      column.generator = some generator ∧ step = .generateId (idLocal i) generator column.name := by
  constructor
  · intro h
    obtain ⟨⟨column, i⟩, hmem, hstep⟩ := List.mem_filterMap.1 h
    obtain ⟨generator, hgenerator, rfl⟩ := Option.map_eq_some_iff.1 hstep
    exact ⟨i, column, generator, List.mk_mem_zipIdx_iff_getElem?.1 hmem, hgenerator, rfl⟩
  · rintro ⟨i, column, generator, hcolumn, hgenerator, rfl⟩
    refine List.mem_filterMap.2 ⟨(column, i), List.mk_mem_zipIdx_iff_getElem?.2 hcolumn, ?_⟩
    simp [hgenerator]

theorem nodup_names_generatedIds : ((generatedIds t).map PreludeStep.name).Nodup := by
  have hnames : (generatedIds t).map PreludeStep.name =
      (t.columns.toList.zipIdx.filter fun entry => entry.1.isGenerated).map fun entry => idLocal entry.2 := by
    unfold generatedIds
    induction t.columns.toList.zipIdx with
    | nil => rfl
    | cons entry rest ih =>
      cases hgenerator : entry.1.generator with
      | none => simpa [Column.isGenerated, hgenerator] using ih
      | some generator => simpa [Column.isGenerated, hgenerator, PreludeStep.name] using ih
  have hall : (t.columns.toList.zipIdx.map fun entry => idLocal entry.2).Nodup := by
    have hpositions := List.Nodup.map (fun _ _ => idLocal_inj.1) (List.nodup_zipIdx_map_snd t.columns.toList)
    rwa [List.map_map] at hpositions
  rw [hnames]
  exact hall.sublist (List.filter_sublist.map _)

theorem nodup_names_enumSteps : ((enumSteps arrays).map PreludeStep.name).Nodup := by
  have hnames : (enumSteps arrays).map PreludeStep.name = (arrays.zipIdx.map Prod.snd).map enumLocal := by
    rw [enumSteps, List.map_map, List.map_map]
    rfl
  rw [hnames]
  exact (List.nodup_zipIdx_map_snd arrays).map fun _ _ => enumLocal_inj.1

theorem nodup_names_prelude : ((generatedIds t ++ enumSteps arrays).map PreludeStep.name).Nodup := by
  rw [List.map_append]
  refine nodup_names_generatedIds.append nodup_names_enumSteps fun name hid henum => ?_
  obtain ⟨step, hstep, rfl⟩ := List.mem_map.1 hid
  obtain ⟨step', hstep', heq⟩ := List.mem_map.1 henum
  obtain ⟨i, column, generator, -, -, rfl⟩ := mem_generatedIds.1 hstep
  obtain ⟨j, source, nullable, -, rfl⟩ := mem_enumSteps.1 hstep'
  exact idLocal_ne_enumLocal i j heq.symm

/-- Elements that have different keys are told apart by them. -/
theorem index_unique {α β : Type} {key : α → β} {xs : List α} (hkeys : (xs.map key).Nodup) {i j : Nat} {a b : α}
    (ha : xs[i]? = some a) (hb : xs[j]? = some b) (h : key a = key b) : i = j := by
  have hlt : i < (xs.map key).length := by
    rw [List.length_map]
    exact (List.getElem?_eq_some_iff.1 ha).1
  refine (List.getElem?_inj hlt hkeys).1 ?_
  simp [ha, hb, h]

/-- The id of a generated column is minted for it by one step only. -/
theorem minted_unique (hnames : (columnNames t).Nodup) {i : Nat} {column : Column} {generator : String}
    (hcolumn : t.columns.toList[i]? = some column) (hgenerator : column.generator = some generator)
    (step : PreludeStep) :
    step ∈ generatedIds t ++ enumSteps arrays ∧ step.minted? = some column.name ↔
      step = .generateId (idLocal i) generator column.name := by
  constructor
  · rintro ⟨hmem, hminted⟩
    obtain hid | henum := List.mem_append.1 hmem
    · obtain ⟨j, other, generator', hother, hgenerator', rfl⟩ := mem_generatedIds.1 hid
      have hname : other.name = column.name := Option.some.inj hminted
      obtain rfl := index_unique hnames hother hcolumn hname
      rw [hcolumn] at hother
      cases hother
      rw [hgenerator] at hgenerator'
      cases hgenerator'
      rfl
    · obtain ⟨j, source, nullable, -, rfl⟩ := mem_enumSteps.1 henum
      cases hminted
  · rintro rfl
    exact ⟨List.mem_append_left _ (mem_generatedIds.2 ⟨i, column, generator, hcolumn, hgenerator, rfl⟩), rfl⟩

end EntitySql.Query
