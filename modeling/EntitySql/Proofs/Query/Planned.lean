import EntitySql.Proofs.Query.Written

/-! All that the plan of an operation can be, one form for each kind of statement. What is shown of plans, and of
the operations compiled from them, is shown form by form. -/
namespace EntitySql.Query
variable {t : Table} {op : Operation}

theorem filterParams_boundParams :
    filterParams (boundParams t op) = (op.params.filter fun p => p.role = .whereFilter).map (bound t) := by
  rw [filterParams, boundParams, List.filter_map]
  rfl

/-- The plans of an operation. -/
inductive Planned (t : Table) (op : Operation) : Plan → Prop where
  | insert (hkind : op.kind.isInsert = true) {batch : Option String} {result : ResultMapping} {row : RowShape}
      (halone : checkEntityAlone op = .ok ()) (hbatch : batchParam t op = .ok batch)
      (hresult : insertResult t op batch.isSome (insertValues t (boundParams t op)) = .ok (result, row)) :
      Planned t op {
        statement := .insert t.objectName
          ((insertValues t (boundParams t op)).map fun target => (target.column.name, target.slot))
        generated := generatedIds t
        batch, result, row }
  | update (hkind : op.kind = .update) {result : ResultMapping} {followUp : Option Statement} {row : RowShape}
      (hsingle : ∀ p ∈ valueParams (boundParams t op), p.param.isComposite = false → p.targets.length ≤ 1)
      (hassigned : assignedTargets (valueParams (boundParams t op)) ≠ [])
      (hresult : updateResult t op (boundParams t op) = .ok (result, followUp, row)) :
      Planned t op {
        statement := .update t.objectName
          ((assignedTargets (valueParams (boundParams t op))).map fun target => (target.column.name, target.slot))
          (fullFilter t op (filterParams (boundParams t op)))
        followUp, result, row }
  | delete (hkind : op.kind = .delete) {result : ResultMapping} :
      Planned t op { statement := .delete t.objectName (fullFilter t op (boundParams t op)), result }
  | count (hkind : op.kind = .count ∨ op.kind = .exists) {result : ResultMapping} :
      Planned t op { statement := .count t.objectName (fullFilter t op (boundParams t op)), result }
  | select (hkind : op.kind.isSelect = true) {selection : Selection} {result : ResultMapping} {row : RowShape}
      (hselection : selectionOf t op = .ok (selection, row)) :
      Planned t op {
        statement := .select t.objectName selection (fullFilter t op (boundParams t op)) (orderColumns t op) op.limit
        result, row }

theorem planned_of_planInsert {p : Plan} (hkind : op.kind.isInsert = true)
    (h : planInsert t op (boundParams t op) = .ok p) : Planned t op p := by
  obtain ⟨_, halone, h⟩ := bind_eq_ok.1 h
  obtain ⟨batch, hbatch, h⟩ := bind_eq_ok.1 h
  obtain ⟨⟨result, row⟩, hresult, h⟩ := bind_eq_ok.1 h
  rw [← pure_eq_ok.1 h]
  exact .insert hkind halone hbatch hresult

theorem planned_of_planUpdate {p : Plan} (hkind : op.kind = .update)
    (h : planUpdate t op (boundParams t op) = .ok p) : Planned t op p := by
  obtain ⟨_, hcheck, h⟩ := bind_eq_ok.1 h
  dsimp only at h
  split at h
  · exact absurd h throw_ne_ok
  · next hassigned =>
    obtain ⟨⟨result, followUp, row⟩, hresult, h⟩ := bind_eq_ok.1 h
    rw [← pure_eq_ok.1 h]
    refine .update hkind ?_ (by simpa using hassigned) hresult
    intro p hp hcomposite
    unfold checkSingleColumns at hcheck
    split at hcheck
    · exact absurd hcheck throw_ne_ok
    · next hfind => simpa [hcomposite] using List.find?_eq_none.1 hfind p hp

theorem planned_of_planDelete {p : Plan} (hkind : op.kind = .delete)
    (h : planDelete t op (boundParams t op) = .ok p) : Planned t op p := by
  obtain ⟨result, -, h⟩ := bind_eq_ok.1 h
  rw [← pure_eq_ok.1 h]
  exact .delete hkind

theorem planned_of_planCount {p : Plan} (hkind : op.kind = .count ∨ op.kind = .exists)
    (h : planCount t op (boundParams t op) = .ok p) : Planned t op p := by
  obtain ⟨result, -, h⟩ := bind_eq_ok.1 h
  rw [← pure_eq_ok.1 h]
  exact .count hkind

theorem planned_of_planSelect {p : Plan} (hkind : op.kind.isSelect = true)
    (h : planSelect t op (boundParams t op) = .ok p) : Planned t op p := by
  obtain ⟨result, -, h⟩ := bind_eq_ok.1 h
  obtain ⟨⟨selection, row⟩, hselection, h⟩ := bind_eq_ok.1 h
  rw [← pure_eq_ok.1 h]
  exact .select hkind hselection

theorem planned_of_plan {p : Plan} (h : plan t op = .ok p) : Planned t op p := by
  obtain ⟨params, hparams, h⟩ := bind_eq_ok.1 h
  obtain ⟨rfl, -⟩ := eq_of_resolveParams hparams
  unfold planBound at h
  cases hkind : op.kind <;> rw [hkind] at h
  case insert | batchInsert => exact planned_of_planInsert (by rw [hkind]; rfl) h
  case update => exact planned_of_planUpdate hkind h
  case delete => exact planned_of_planDelete hkind h
  case count => exact planned_of_planCount (.inl hkind) h
  case «exists» => exact planned_of_planCount (.inr hkind) h
  case selectEntity | selectColumn | selectRawExpression => exact planned_of_planSelect (by rw [hkind]; rfl) h

theorem compile_eq_ok {d : Dialect} {compiled : CompiledOperation} :
    op.compile d t = .ok compiled ↔ ∃ p, plan t op = .ok p ∧ p.compile d op = compiled := by
  rw [Operation.compile_eq, map_eq_ok]

theorem resolved_of_plan {p : Plan} (h : plan t op = .ok p) : resolveParams t op = .ok (boundParams t op) := by
  obtain ⟨params, hparams, -⟩ := bind_eq_ok.1 h
  obtain ⟨rfl, -⟩ := eq_of_resolveParams hparams
  exact hparams

/-- A select returns columns of the table, or a raw expression if it is of that kind. -/
theorem selection_cases {selection : Selection} {row : RowShape} (h : selectionOf t op = .ok (selection, row)) :
    (rawExpression? op = none ∧ ∃ names, selection = .columns names ∧ ∀ name ∈ names, name ∈ columnNames t) ∨
      ∃ raw, rawExpression? op = some raw ∧ selection = .expression (rawPieces t op raw) := by
  unfold selectionOf at h
  split at h
  · next hkind =>
    split at h
    · exact absurd h throw_ne_ok
    · split at h
      · exact absurd h throw_ne_ok
      · next column hcolumn =>
        cases h
        refine .inl ⟨by simp [rawExpression?, hkind], [column.name], rfl, ?_⟩
        intro name hname
        rw [List.mem_singleton.1 hname]
        exact List.mem_map_of_mem (List.mem_of_find?_eq_some hcolumn)
  · split at h
    · exact absurd h throw_ne_ok
    · next raw hraw =>
      cases h
      exact .inr ⟨raw, hraw, rfl⟩
  · next hkind =>
    cases h
    exact .inl ⟨by rw [rawExpression?, if_neg hkind], columnNames t, rfl, fun _ hname => hname⟩

/-- What an insert returns: no row, or the row of its entity. -/
theorem insertResult_cases {batch : Bool} {values : List Target} {result : ResultMapping} {row : RowShape}
    (h : insertResult t op batch values = .ok (result, row)) :
    (op.returns ≠ .one ∧ (∀ echoed, result ≠ .echoInserted echoed) ∧ row = .none) ∨
      op.returns = .one ∧ ∃ entity ∈ op.params, entity.type = .entity ∧
        result = .echoInserted (echoedValues t values entity.name) ∧ row = .entity (columnNames t) := by
  have hnone : ∀ {result' : ResultMapping}, op.returns ≠ .one → (∀ echoed, result' ≠ .echoInserted echoed) →
      (pure (result', RowShape.none) : Except CompileError _) = .ok (result, row) →
        op.returns ≠ .one ∧ (∀ echoed, result ≠ .echoInserted echoed) ∧ row = .none := by
    intro result' hreturns hecho hpure
    cases hpure
    exact ⟨hreturns, hecho, rfl⟩
  unfold insertResult at h
  split at h
  · next hreturns => exact .inl (hnone (by simp [hreturns]) (by simp) h)
  · next hreturns => exact .inl (hnone (by simp [hreturns]) (by simp) h)
  · next hreturns => exact .inl (hnone (by simp [hreturns]) (by simp) h)
  · next hreturns => exact .inl (hnone (by simp [hreturns]) (by simp) h)
  · next hreturns =>
    split at h
    · next entity hfind =>
      cases h
      exact .inr ⟨hreturns, entity, List.mem_of_find?_eq_some hfind, by simpa using List.find?_some hfind, rfl, rfl⟩
    · exact absurd h throw_ne_ok
  · exact absurd h throw_ne_ok

/-- What an update returns: no row, or the row that is selected after it. -/
theorem updateResult_cases {params : List BoundParam} {result : ResultMapping} {followUp : Option Statement}
    {row : RowShape} (h : updateResult t op params = .ok (result, followUp, row)) :
    (op.returns ≠ .one ∧ (∀ echoed, result ≠ .echoInserted echoed) ∧ followUp = none ∧ row = .none) ∨
      op.returns = .one ∧ result = .reselectIfUpdated ∧ followUp = some (reselect t params) ∧
        row = .entity (columnNames t) := by
  unfold updateResult at h
  cases hreturns : op.returns with
  | void | int | bool =>
    simp only [hreturns] at h
    cases h
    exact .inl ⟨by simp, by simp, rfl, rfl⟩
  | one =>
    simp only [hreturns] at h
    cases h
    exact .inr ⟨rfl, rfl, rfl, rfl⟩
  | many =>
    simp only [hreturns] at h
    exact absurd h throw_ne_ok

theorem followUp_of_updateResult {params : List BoundParam} {result : ResultMapping} {followUp : Option Statement}
    {row : RowShape} (h : updateResult t op params = .ok (result, followUp, row)) :
    followUp = if op.returns = .one then some (reselect t params) else none := by
  obtain ⟨hreturns, -, rfl, -⟩ | ⟨hreturns, -, rfl, -⟩ := updateResult_cases h
  · rw [if_neg hreturns]
  · rw [if_pos hreturns]

/-- The only follow-up is the select of the row that an update returns. -/
theorem Planned.followUp_eq {p : Plan} (h : Planned t op p) {s : Statement} (hs : p.followUp = some s) :
    s = reselect t (boundParams t op) := by
  cases h with
  | update _ _ _ hresult =>
    have hfollow := followUp_of_updateResult hresult
    simp only at hs
    split at hfollow
    · rw [hs] at hfollow
      exact Option.some.inj hfollow
    · rw [hs] at hfollow
      cases hfollow
  | insert | delete | count | select => cases hs

/-- A table of users with badges, an array of constants. -/
def badges : Table :=
  ((Table.ofName "USERS").addColumn
      { field := "id", kind := .long, primaryKey := true, generator := some "snowflake" }
    |>.addColumn { field := "badges", kind := .enum, isArray := true }
    |>.addColumn { field := "name", kind := .string })

/-- An update that returns its row, with a parameter used by a raw predicate only. -/
def award : Operation where
  name := "award"
  kind := .update
  returns := .one
  params := [
    { Param.array "badges" .enum with role := .updateValue }, Param.scalar "id" .long, Param.scalar "limit" .int]
  rawPredicate := some { sql := "SIZE < :limit AND :badges IS NOT NULL AND 1 = :limit" }

set_option maxRecDepth 4000 in
theorem award_compiles : ∃ compiled, Operation.compile .postgres badges award = .ok compiled := by
  have hok : (Operation.compile .postgres badges award).toBool = true := by
    rw [Operation.compile_eq]
    cbv
  exact exists_ok_of_toBool hok

end EntitySql.Query
