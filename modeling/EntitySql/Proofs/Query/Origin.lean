import EntitySql.Proofs.Query.Contract
import EntitySql.Proofs.Query.Inserted

/-! Where the slots of a plan come from. An insert has those of the values that it stores; any other statement has those
of targets of parameters and of placeholders of raw SQL, and its follow-up has targets only. Computed values come from
inserts alone. -/
namespace EntitySql.Query
variable {t : Table} {op : Operation} {s : Slot} {v : Value}

/-- The slots of a plan, the follow-up's last. -/
def Plan.slots (p : Plan) : List Slot :=
  p.statement.slots ++ (p.followUp.map Statement.slots).getD []

/-- The values of the row that is returned without asking the database. -/
def ResultMapping.echoed : ResultMapping → List Value
  | echoInserted values => values
  | _ => []

/-- The target that an insert takes a value from is one of a parameter, for the same column. -/
theorem mem_of_insertTarget? {column : Column} (hcolumn : column ∈ t.columns.toList) {given : Target}
    (h : insertTarget? t (boundParams t op) column = some given) :
    given.column = column ∧ ∃ p ∈ op.params, given ∈ targetsOf t p := by
  unfold insertTarget? at h
  split at h
  · cases h
  · split at h
    · next found hfound =>
      split at h
      · next hfield =>
        cases h
        obtain ⟨b, hb, htarget⟩ := List.mem_flatMap.1 (List.mem_filter.1 (List.mem_of_find?_eq_some hfound)).1
        obtain ⟨p, hp, rfl⟩ := List.mem_map.1 hb
        refine ⟨?_, p, hp, htarget⟩
        exact List.inj_on_of_nodup_map t.columns.nodup_fields (mem_targetsOf htarget).1 hcolumn hfield
      · cases h
    · cases h

/-- An insert stores a value that is minted for the column, or one of a parameter. -/
theorem value_insertValues {target : Target} (h : target ∈ insertValues t (boundParams t op)) :
    (∃ i generator, t.columns.toList[i]? = some target.column ∧ target.column.generator = some generator ∧
      target.value = .computed (idLocal i)) ∨ ∃ p ∈ op.params, target ∈ targetsOf t p := by
  obtain ⟨⟨column, i⟩, hmem, hentry⟩ := List.mem_filterMap.1 h
  have hcolumn : t.columns.toList[i]? = some column := List.mk_mem_zipIdx_iff_getElem?.1 hmem
  obtain ⟨value, hvalue, rfl⟩ := Option.map_eq_some_iff.1 hentry
  cases hgenerator : column.generator with
  | some generator =>
    refine .inl ⟨i, generator, hcolumn, rfl, ?_⟩
    simpa [insertValue?, Column.isGenerated, hgenerator, eq_comm] using hvalue
  | none =>
    have hmapped : (insertTarget? t (boundParams t op) column).map (·.value) = some value := by
      simpa [insertValue?, Column.isGenerated, hgenerator] using hvalue
    obtain ⟨given, hgiven, rfl⟩ := Option.map_eq_some_iff.1 hmapped
    obtain ⟨rfl, p, hp, htarget⟩ := mem_of_insertTarget? (List.mem_of_getElem? hcolumn) hgiven
    exact .inr ⟨p, hp, htarget⟩

/-- Every id that is minted is stored. -/
theorem minted_mem_insertValues {params : List BoundParam} {i : Nat} {column : Column} {generator : String}
    (hcolumn : t.columns.toList[i]? = some column) (hgenerator : column.generator = some generator) :
    ⟨column, .computed (idLocal i)⟩ ∈ insertValues t params := by
  refine List.mem_filterMap.2 ⟨(column, i), List.mk_mem_zipIdx_iff_getElem?.2 hcolumn, ?_⟩
  simp [insertValue?, Column.isGenerated, hgenerator]

theorem Planned.eq_insert {p : Plan} (h : Planned t op p) (hkind : op.kind.isInsert = true) :
    ∃ batch result row, insertResult t op batch (insertValues t (boundParams t op)) = .ok (result, row) ∧
      p.statement = insertOf t.objectName (insertValues t (boundParams t op)) ∧ p.followUp = none ∧
      p.generated = generatedIds t ∧ p.result = result := by
  cases h with
  | insert _ _ _ hresult => exact ⟨_, _, _, hresult, rfl, rfl, rfl, rfl⟩
  | update hupdate | delete hupdate => simp [hupdate, OperationKind.isInsert] at hkind
  | count hcount => rcases hcount with h | h <;> simp [h, OperationKind.isInsert] at hkind
  | select hselect =>
    cases hop : op.kind <;> simp [hop, OperationKind.isSelect, OperationKind.isInsert] at hselect hkind

/-- An insert has no slots but for the values that it stores. -/
theorem Planned.slots_insert {p : Plan} (h : Planned t op p) (hkind : op.kind.isInsert = true) :
    p.generated = generatedIds t ∧ p.slots = (insertValues t (boundParams t op)).map Target.slot := by
  obtain ⟨batch, result, row, -, hstatement, hfollow, hgenerated, -⟩ := h.eq_insert hkind
  refine ⟨hgenerated, ?_⟩
  rw [Plan.slots, hstatement, hfollow, slots_insertOf]
  simp

/-- The placeholders of raw SQL that statements contain: an insert contains no raw SQL. -/
def spliced (op : Operation) : List (String × List String) :=
  if op.kind.isInsert then [] else ((rawExpression? op).toList ++ (rawPredicate? op).toList).flatMap placeholders

/-- A target that the statements of an operation bind. An update assigns no generated columns from a structure. -/
def Binds (op : Operation) (p : Param) (target : Target) : Prop :=
  op.kind = .update → p.role ≠ .whereFilter → p.isComposite = true → target.column.isGenerated = false

/-- What a slot stands for in a statement that is no insert: a target of a parameter, or a placeholder of raw SQL. -/
inductive StandsFor (t : Table) (op : Operation) : Slot → Prop where
  | target {p : Param} (hp : p ∈ op.params) {target : Target} (htarget : target ∈ targetsOf t p)
      (hbinds : Binds op p target) : StandsFor t op target.slot
  | placeholder {name : String} {path : List String} (h : (name, path) ∈ spliced op) :
      StandsFor t op (rawSlot t op name path)

section
variable {params : List Param}

/-- Parameters that filter rows: all of them, but for an update only those of that role. -/
def Filters (op : Operation) (params : List Param) : Prop :=
  ∀ p ∈ params, p ∈ op.params ∧ (op.kind = .update → p.role = .whereFilter)

theorem filters_all (hkind : op.kind ≠ .update) : Filters op op.params :=
  fun _ hp => ⟨hp, fun hupdate => absurd hupdate hkind⟩

theorem filters_update : Filters op (op.params.filter fun p => p.role = .whereFilter) := by
  intro p hp
  obtain ⟨hmem, hrole⟩ := List.mem_filter.1 hp
  exact ⟨hmem, fun _ => by simpa using hrole⟩

theorem standsFor_targets (hparams : Filters op params)
    (hs : s ∈ ((params.map (bound t)).flatMap (·.targets)).map Target.slot) : StandsFor t op s := by
  obtain ⟨target, htarget, rfl⟩ := List.mem_map.1 hs
  obtain ⟨b, hb, htarget⟩ := List.mem_flatMap.1 htarget
  obtain ⟨p, hp, rfl⟩ := List.mem_map.1 hb
  obtain ⟨hmem, hrole⟩ := hparams p hp
  exact .target hmem htarget fun hupdate hnot => absurd (hrole hupdate) hnot

theorem isInsert_of_mem_spliced {placeholder : String × List String} (h : placeholder ∈ spliced op) :
    op.kind.isInsert = false := by
  cases hkind : op.kind.isInsert with
  | true => simp [spliced, hkind] at h
  | false => rfl

theorem mem_spliced (hkind : op.kind.isInsert = false) {placeholder : String × List String} :
    placeholder ∈ spliced op ↔
      ∃ raw, (rawExpression? op = some raw ∨ rawPredicate? op = some raw) ∧ placeholder ∈ placeholders raw := by
  rw [spliced, hkind, if_neg (by simp), List.mem_flatMap]
  simp

theorem standsFor_rawPieces (hkind : op.kind.isInsert = false) {raw : Fragment.Raw}
    (hraw : rawExpression? op = some raw ∨ rawPredicate? op = some raw) (hs : s ∈ slots (rawPieces t op raw)) :
    StandsFor t op s := by
  rw [slots_rawPieces] at hs
  obtain ⟨placeholder, hmem, rfl⟩ := List.mem_map.1 hs
  exact .placeholder ((mem_spliced hkind).2 ⟨raw, hraw, hmem⟩)

theorem standsFor_fullFilter (hkind : op.kind.isInsert = false) (hparams : Filters op params)
    (hs : s ∈ slots (fullFilter t op (params.map (bound t))).pieces) : StandsFor t op s := by
  rw [slots_fullFilter, List.mem_append] at hs
  obtain hs | hs := hs
  · exact standsFor_targets hparams hs
  · obtain ⟨raw, hraw, hs⟩ := List.mem_flatMap.1 hs
    exact standsFor_rawPieces hkind (.inr (Option.mem_toList.1 hraw)) hs

theorem standsFor_selection (hkind : op.kind.isInsert = false) {selection : Selection} {row : RowShape}
    (h : selectionOf t op = .ok (selection, row)) (hs : s ∈ slots selection.pieces) : StandsFor t op s := by
  obtain ⟨-, columns, rfl, -⟩ | ⟨raw, hraw, rfl⟩ := selection_cases h
  · rw [Selection.slots_columns] at hs
    cases hs
  · exact standsFor_rawPieces hkind (.inl hraw) hs

theorem standsFor_assigned
    (hs : s ∈ (assignedTargets (valueParams (boundParams t op))).map Target.slot) : StandsFor t op s := by
  obtain ⟨target, htarget, rfl⟩ := List.mem_map.1 hs
  obtain ⟨b, hb, htarget⟩ := List.mem_flatMap.1 htarget
  rw [valueParams_boundParams] at hb
  obtain ⟨p, hp, rfl⟩ := List.mem_map.1 hb
  obtain ⟨htarget, hassigned⟩ := List.mem_filter.1 htarget
  exact .target (List.mem_filter.1 hp).1 htarget fun _ _ hcomposite => by simpa [bound, hcomposite] using hassigned

theorem standsFor_reselect (hs : s ∈ (reselect t (boundParams t op)).slots) : StandsFor t op s := by
  rw [reselect, Statement.slots_select, Selection.slots_columns, List.nil_append, Filter.slots_pieces, paramFilter,
    slots_conditions, slots_nil, List.append_nil, filterParams_boundParams] at hs
  exact standsFor_targets filters_update hs

end

/-- Every slot of a statement that is no insert stands for a target or a placeholder. -/
theorem Planned.standsFor {p : Plan} (h : Planned t op p) (hkind : op.kind.isInsert = false) (hs : s ∈ p.slots) :
    StandsFor t op s := by
  obtain hs | hs := List.mem_append.1 hs
  · cases h with
    | insert hinsert => simp [hkind] at hinsert
    | update =>
      rw [Statement.slots_update, List.map_map, filterParams_boundParams] at hs
      obtain hs | hs := List.mem_append.1 hs
      · exact standsFor_assigned hs
      · exact standsFor_fullFilter hkind filters_update hs
    | delete hdelete =>
      rw [Statement.slots_delete] at hs
      exact standsFor_fullFilter hkind (filters_all (by simp [hdelete])) hs
    | count hcount =>
      rw [Statement.slots_count] at hs
      exact standsFor_fullFilter hkind (filters_all (by rcases hcount with h | h <;> simp [h])) hs
    | select hselect hselection =>
      rw [Statement.slots_select] at hs
      obtain hs | hs := List.mem_append.1 hs
      · exact standsFor_selection hkind hselection hs
      · refine standsFor_fullFilter hkind (filters_all fun hupdate => ?_) hs
        simp [hupdate, OperationKind.isSelect] at hselect
  · -- A follow-up selects by the parameters alone, also where the statement has a raw predicate.
    cases hfollow : p.followUp with
    | none => simp [hfollow] at hs
    | some later =>
      rw [hfollow, Option.map_some, Option.getD_some, h.followUp_eq hfollow] at hs
      exact standsFor_reselect hs

/-- A slot of any statement holds an id that is minted for its column, or stands for a target or a placeholder. -/
theorem Planned.minted_or_standsFor {p : Plan} (h : Planned t op p) (hs : s ∈ p.slots) :
    (∃ i column generator, t.columns.toList[i]? = some column ∧ column.generator = some generator ∧
      .generateId (idLocal i) generator column.name ∈ p.generated ∧ s = Target.slot ⟨column, .computed (idLocal i)⟩) ∨
      StandsFor t op s := by
  cases hkind : op.kind.isInsert with
  | true =>
    obtain ⟨hgenerated, hslots⟩ := h.slots_insert hkind
    rw [hslots] at hs
    obtain ⟨⟨column, value⟩, htarget, rfl⟩ := List.mem_map.1 hs
    obtain ⟨i, generator, hcolumn, hgenerator, rfl⟩ | ⟨p, hp, hgiven⟩ := value_insertValues htarget
    · refine .inl ⟨i, column, generator, hcolumn, hgenerator, ?_, rfl⟩
      exact hgenerated ▸ mem_generatedIds.2 ⟨i, column, generator, hcolumn, hgenerator, rfl⟩
    · exact .inr (.target hp hgiven fun hupdate => by simp [hupdate, OperationKind.isInsert] at hkind)
  | false => exact .inr (h.standsFor hkind hs)

theorem StandsFor.supplied (h : StandsFor t op s) : s.value.parameter?.isSome := by
  cases h with
  | target _ htarget _ =>
    rw [Target.slot, (mem_targetsOf htarget).2]
    rfl
  | @placeholder name path =>
    have hparameter := parameter?_rawBound (name, path)
    rw [← @bound_rawSlot t op] at hparameter
    exact hparameter ▸ rfl

/-- No other statement binds a value that is computed for it, before its arrays are mapped to names. -/
theorem Planned.slots_supplied {p : Plan} (h : Planned t op p) (hkind : op.kind.isInsert = false) (hs : s ∈ p.slots) :
    s.value.parameter?.isSome :=
  (h.standsFor hkind hs).supplied

theorem ResultMapping.echoed_eq_nil {result : ResultMapping} (h : ∀ values, result ≠ .echoInserted values) :
    result.echoed = [] := by
  cases result with
  | echoInserted values => exact absurd rfl (h values)
  | _ => rfl

theorem echoed_of_updateResult {params : List BoundParam} {result : ResultMapping} {followUp : Option Statement}
    {row : RowShape} (h : updateResult t op params = .ok (result, followUp, row)) : result.echoed = [] := by
  obtain ⟨-, hecho, -⟩ | ⟨-, rfl, -⟩ := updateResult_cases h
  · exact ResultMapping.echoed_eq_nil hecho
  · rfl

theorem echoed_of_planUpdate {params : List BoundParam} {p : Plan} (h : planUpdate t op params = .ok p) :
    p.result.echoed = [] := by
  obtain ⟨_, -, h⟩ := bind_eq_ok.1 h
  dsimp only at h
  split at h
  · exact absurd h throw_ne_ok
  · obtain ⟨⟨result, followUp, row⟩, hresult, h⟩ := bind_eq_ok.1 h
    rw [← pure_eq_ok.1 h]
    exact echoed_of_updateResult hresult

theorem echoed_of_planDelete {params : List BoundParam} {p : Plan} (h : planDelete t op params = .ok p) :
    p.result.echoed = [] := by
  obtain ⟨result, hresult, h⟩ := bind_eq_ok.1 h
  rw [← pure_eq_ok.1 h]
  unfold deleteResult at hresult
  split at hresult
  · exact pure_eq_ok.1 hresult ▸ rfl
  · exact pure_eq_ok.1 hresult ▸ rfl
  · exact pure_eq_ok.1 hresult ▸ rfl
  · exact absurd hresult throw_ne_ok

theorem echoed_of_planCount {params : List BoundParam} {p : Plan} (h : planCount t op params = .ok p) :
    p.result.echoed = [] := by
  obtain ⟨result, hresult, h⟩ := bind_eq_ok.1 h
  rw [← pure_eq_ok.1 h]
  unfold countResult at hresult
  split at hresult
  · exact pure_eq_ok.1 hresult ▸ rfl
  · exact pure_eq_ok.1 hresult ▸ rfl
  · exact absurd hresult throw_ne_ok
  · exact absurd hresult throw_ne_ok

theorem echoed_of_planSelect {params : List BoundParam} {p : Plan} (h : planSelect t op params = .ok p) :
    p.result.echoed = [] := by
  obtain ⟨result, hresult, h⟩ := bind_eq_ok.1 h
  obtain ⟨⟨selection, row⟩, -, h⟩ := bind_eq_ok.1 h
  rw [← pure_eq_ok.1 h]
  unfold selectResult at hresult
  cases hreturns : op.returns with
  | one | many =>
    simp only [hreturns, pure_bind] at hresult
    split at hresult
    · exact absurd hresult throw_bind_ne_ok
    · exact pure_eq_ok.1 hresult ▸ rfl
  | void | bool | int =>
    simp only [hreturns] at hresult
    exact absurd hresult throw_bind_ne_ok

/-- Only an insert tells the row that it returns. -/
theorem echoed_of_plan {p : Plan} (h : plan t op = .ok p) (hkind : op.kind.isInsert = false) :
    p.result.echoed = [] := by
  obtain ⟨params, -, h⟩ := bind_eq_ok.1 h
  unfold planBound at h
  cases hop : op.kind <;> rw [hop] at h
  case insert | batchInsert => simp [hop, OperationKind.isInsert] at hkind
  case update => exact echoed_of_planUpdate h
  case delete => exact echoed_of_planDelete h
  case count | «exists» => exact echoed_of_planCount h
  case selectEntity | selectColumn | selectRawExpression => exact echoed_of_planSelect h

theorem echoed_of_insertResult {batch : Bool} {values : List Target} {result : ResultMapping} {row : RowShape}
    (h : insertResult t op batch values = .ok (result, row)) (hv : v ∈ result.echoed) :
    (∃ target ∈ values, target.value = v) ∨ v.parameter?.isSome := by
  obtain ⟨-, hecho, -⟩ | ⟨-, entity, -, -, rfl, -⟩ := insertResult_cases h
  · rw [ResultMapping.echoed_eq_nil hecho] at hv
    cases hv
  · obtain ⟨column, -, rfl⟩ := List.mem_map.1 hv
    split
    · next target hfound => exact .inl ⟨target, List.mem_of_find?_eq_some hfound, rfl⟩
    · exact .inr rfl

section
variable {name : String}

theorem minted_of_computed {target : Target} (h : target ∈ insertValues t (boundParams t op))
    (hvalue : target.value = .computed name) : ∃ step ∈ generatedIds t, step.name = name := by
  obtain ⟨i, generator, hcolumn, hgenerator, hminted⟩ | ⟨p, -, htarget⟩ := value_insertValues h
  · rw [hminted] at hvalue
    cases hvalue
    exact ⟨_, mem_generatedIds.2 ⟨i, target.column, generator, hcolumn, hgenerator, rfl⟩, rfl⟩
  · have hsupplied := (mem_targetsOf htarget).2
    rw [hvalue] at hsupplied
    cases hsupplied

/-- A slot that holds a computed value holds an id that is minted before the statement. -/
theorem Planned.minted_of_slot {p : Plan} (h : Planned t op p) (hs : s ∈ p.slots) (hvalue : s.value = .computed name) :
    ∃ step ∈ p.generated, step.name = name := by
  obtain ⟨i, column, generator, -, -, hstep, rfl⟩ | hstands := h.minted_or_standsFor hs
  · cases hvalue
    exact ⟨_, hstep, rfl⟩
  · have hsupplied := hstands.supplied
    rw [hvalue] at hsupplied
    cases hsupplied

theorem minted_of_echoed {p : Plan} (h : plan t op = .ok p) (hv : .computed name ∈ p.result.echoed) :
    ∃ step ∈ p.generated, step.name = name := by
  cases hkind : op.kind.isInsert with
  | true =>
    obtain ⟨batch, result, row, hresult, -, -, hgenerated, rfl⟩ := (planned_of_plan h).eq_insert hkind
    rw [hgenerated]
    obtain ⟨target, htarget, hvalue⟩ | hsupplied := echoed_of_insertResult hresult hv
    · exact minted_of_computed htarget hvalue
    · cases hsupplied
  | false =>
    rw [echoed_of_plan h hkind] at hv
    cases hv

end

end EntitySql.Query
