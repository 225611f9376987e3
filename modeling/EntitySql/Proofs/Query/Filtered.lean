import EntitySql.Proofs.Fragment.Parsed
import EntitySql.Proofs.Query.NullSafe
import EntitySql.Proofs.Query.Reselected

/-! Which rows an update or a delete changes. Every filter is bound in the WHERE clause, but for structures without a
field to bind. Main statement: the clause is missing, so that all rows are changed, exactly if there are no other filters
and no raw predicate. -/
namespace EntitySql

/-- A structure with no field to bind: it has none, or all are skipped. -/
def Param.isHollow (p : Param) : Bool :=
  match p.type with
  | .composite fields => fields.all (·.skip)
  | _ => false

namespace Query
variable {d : Dialect} {t : Table} {op : Operation} {p : Param}

/-- Whether nothing tells rows apart: the filters have no fields to bind, and there is no raw predicate. -/
structure Unfiltered (op : Operation) : Prop where
  hollow : ∀ p ∈ filtersOf op, p.isHollow
  blank : ∀ raw ∈ op.rawPredicate, IsBlank raw.sql

/-- The text of an update or a delete up to its WHERE clause. -/
def changeText (d : Dialect) (t : Table) (op : Operation) : String :=
  if op.kind = .update then updateText d t (updateTargets t op) else "DELETE FROM " ++ d.qualify t.objectName

theorem targetsOf_eq_nil (h : p.isHollow = true) : targetsOf t p = [] := by
  unfold Param.isHollow at h
  unfold targetsOf
  cases htype : p.type with
  | scalar | entity => simp [htype] at h
  | composite fields =>
    simp only [htype, List.all_eq_true] at h
    have hkept : (fields.filter fun f => !f.skip) = [] := List.filter_eq_nil_iff.2 fun f hf => by simp [h f hf]
    dsimp only
    rw [hkept, List.filterMap_nil]

/-- Any other parameter has a target, or it is left to raw SQL. -/
theorem targetsOf_ne_nil_of_not_hollow (hcolumns : t.columns.toList ≠ []) (hpresent : FieldsPresent t op p)
    (h : p.isHollow = false) : targetsOf t p ≠ [] ∨ p.name ∈ rawNames op := by
  cases htype : p.type with
  | scalar type => exact targetsOf_ne_nil hpresent (by simp [Param.isComposite, htype])
  | composite fields =>
    simp only [Param.isHollow, htype, List.all_eq_false, Bool.not_eq_true] at h
    obtain ⟨f, hf, hskip⟩ := h
    simp only [FieldsPresent, htype] at hpresent
    obtain hsome | hraw := hpresent f hf hskip
    · obtain ⟨column, hcolumn⟩ := Option.isSome_iff_exists.1 hsome
      have hmem : (⟨column, .field p.name f.name⟩ : Target) ∈ targetsOf t p := by
        simp only [targetsOf, htype]
        exact List.mem_filterMap.2 ⟨f, List.mem_filter.2 ⟨hf, by simp [hskip]⟩, by simp [hcolumn]⟩
      exact .inl (List.ne_nil_of_mem hmem)
    · exact .inr hraw
  | entity => exact .inl (by simpa [targetsOf, htype] using hcolumns)

theorem renderFrom_raw_ne_empty {index : Nat} {sql : String} (h : ¬IsBlank sql) :
    renderFrom d index (rawPieces t op (Fragment.Raw.ofSql sql)) ≠ "" :=
  fun hempty => h (rawPieces_eq_nil.1 (renderFrom_rawPieces_eq_empty.1 hempty))

/-- A target or a raw predicate stands in the WHERE clause. -/
theorem exists_clause (d : Dialect) (index : Nat) {params : List BoundParam}
    (h : (∃ b ∈ params, b.targets ≠ []) ∨ ∃ raw ∈ op.rawPredicate, ¬IsBlank raw.sql) :
    ∃ clause, clause ≠ "" ∧ whereText d index t op params = " WHERE " ++ clause := by
  by_cases hblank : ∀ raw ∈ op.rawPredicate, IsBlank raw.sql
  · obtain ⟨b, hb, htargets⟩ := h.resolve_right (by simpa using hblank)
    have hne : params.flatMap conditionsOf ≠ [] := fun hnil => htargets (conditions_eq_nil.1 hnil b hb)
    refine ⟨_, ?_, text_alone index hne hblank⟩
    rw [conditionTexts, ← renderFrom_separated]
    refine renderFrom_ne_empty_of_slots fun hnone => htargets ?_
    rw [slots_joined, List.map_eq_nil_iff] at hnone
    exact List.flatMap_eq_nil_iff.1 hnone b hb
  · push Not at hblank
    obtain ⟨⟨sql, c⟩, hraw, hsql⟩ := hblank
    by_cases hnil : params.flatMap conditionsOf = []
    · exact ⟨_, renderFrom_raw_ne_empty hsql, text_raw index hnil hraw hsql⟩
    · refine ⟨" AND ".intercalate (conditionTexts d index params) ++ (" " ++ c.sql ++ " (") ++
        rawText d index t op params sql ++ ")", by simp, ?_⟩
      rw [text_joint index hnil hraw hsql]
      simp only [String.append_assoc]

theorem whereText_eq_empty (d : Dialect) (index : Nat) {params : List BoundParam} (h : ∀ b ∈ params, b.targets = [])
    (hblank : ∀ raw ∈ op.rawPredicate, IsBlank raw.sql) : whereText d index t op params = "" := by
  obtain ⟨c, hfilter⟩ := fullFilter_of_blank t params hblank
  rw [whereText, hfilter, conditions_eq_nil.2 h]
  rfl

section
variable (hkind : op.kind = .delete ∨ op.kind = .update)
include hkind

theorem kinds_of_change : op.kind.isInsert = false ∧ op.kind ≠ .selectRawExpression := by
  obtain h | h := hkind <;> simp [h, OperationKind.isInsert]

/-- Neither an update nor a delete has a raw expression, so only the predicate can name its parameters. -/
theorem exists_predicate_of_rawNames {name : String} (h : name ∈ rawNames op) :
    (∃ raw ∈ op.rawPredicate, ¬IsBlank raw.sql) ∧ ∃ b ∈ predicateBounds op, b.1.parameter? = some name := by
  rw [rawNames, rawExpression?, if_neg (kinds_of_change hkind).2, Option.toList_none, List.nil_append] at h
  obtain ⟨raw, hraw, hname⟩ := List.mem_flatMap.1 h
  obtain ⟨predicate, hpredicate, rfl⟩ := Option.map_eq_some_iff.1 (Option.mem_toList.1 hraw)
  obtain ⟨path, hpath⟩ := mem_placeholders hname
  refine ⟨⟨predicate, hpredicate, fun hblank => ?_⟩, rawBound (name, path), ?_, parameter?_rawBound _⟩
  · rw [placeholders, Fragment.segments_ofSql_eq_nil.2 hblank] at hpath
    cases hpath
  · exact List.mem_flatMap.2 ⟨predicate, Option.mem_toList.2 hpredicate, List.mem_map_of_mem hpath⟩

theorem Planned.sql_change {plan : Plan} (h : Planned t op plan) :
    plan.statement.sql d = changeText d t op ++
      whereText d (1 + filterStart t op) t op ((filtersOf op).map (bound t)) := by
  obtain ⟨-, hexpression⟩ := kinds_of_change hkind
  obtain hdelete | hupdate := hkind
  · have hnot : op.kind ≠ .update := by simp [hdelete]
    rw [← boundParams_filtersOf hnot, filterStart_eq_zero hexpression hnot, changeText, if_neg hnot, whereText]
    cases h with
    | delete => simp [Statement.sql, Statement.pieces, render, renderFrom, String.append_assoc]
    | insert hinsert => simp [hdelete, OperationKind.isInsert] at hinsert
    | update hupdate => contradiction
    | count hcount => simp [hdelete] at hcount
    | select hselect => simp [hdelete, OperationKind.isSelect] at hselect
  · have hstart : filterStart t op = (updateTargets t op).length := by
      rw [filterStart, ← bounds_assigned hupdate, expressionBounds, if_neg hexpression, List.length_map]
      simp [updateTargets]
    rw [(h.eq_update hupdate).1, sql_updateOf, ← filterParams_filtersOf hupdate, hstart, changeText, if_pos hupdate,
      whereText, updateFilters]

end

/-- A statement that is no insert binds what its contract says. -/
theorem boundsOf_compile {plan : Plan} (h : Planned t op plan) (hkind : op.kind.isInsert = false) (d : Dialect) :
    boundsOf (plan.compile d op).prelude (plan.compile d op).statement.bindings = contract t op := by
  obtain ⟨hgenerated, hbounds⟩ := h.bounds hkind
  have hsupplied : ∀ s ∈ plan.statement.slots, s.value.parameter?.isSome :=
    fun s hs => h.slots_supplied hkind (List.mem_append_left _ hs)
  rw [← hbounds, boundsOf]
  simp only [Plan.compile, hgenerated, List.nil_append]
  exact sourceOf_bindAll hsupplied (prefix_bindAll _)

/-- The rows that an update or a delete changes are those that its filters tell. -/
structure FiltersKept (d : Dialect) (t : Table) (op : Operation) (compiled : CompiledOperation) : Prop where
  clause : ¬Unfiltered op → ∃ clause, clause ≠ "" ∧ compiled.statement.sql = changeText d t op ++ " WHERE " ++ clause
  whole : Unfiltered op → compiled.statement.sql = changeText d t op
  /-- After the stored values the statement binds a value of every filter that is not hollow. -/
  bound : ∃ stored filtering, compiled.statement.bindings = stored ++ filtering ∧
    boundsOf compiled.prelude stored = storedBounds t op ∧
    ∀ p ∈ filtersOf op, p.isHollow = false →
      ∃ b ∈ filtering, (sourceOf compiled.prelude b.value).parameter? = some p.name

section
variable (hkind : op.kind = .delete ∨ op.kind = .update)
  (hkept : ∀ p ∈ filtersOf op, p.isHollow = false → targetsOf t p ≠ [] ∨ p.name ∈ rawNames op)
include hkind hkept

/-- A filter that is not hollow brings a target, or a raw predicate that names it. -/
theorem target_or_raw (h : ¬Unfiltered op) :
    (∃ b ∈ (filtersOf op).map (bound t), b.targets ≠ []) ∨ ∃ raw ∈ op.rawPredicate, ¬IsBlank raw.sql := by
  by_contra hnone
  push Not at hnone
  obtain ⟨htargets, hblank⟩ := hnone
  refine h ⟨fun p hp => ?_, hblank⟩
  by_contra hhollow
  obtain hne | hraw := hkept p hp (by simpa using hhollow)
  · exact hne (htargets _ (List.mem_map_of_mem hp))
  · obtain ⟨⟨raw, hmem, hsql⟩, -⟩ := exists_predicate_of_rawNames hkind hraw
    exact hsql (hblank raw hmem)

theorem exists_bound_of_filter (hp : p ∈ filtersOf op) (hhollow : p.isHollow = false) :
    ∃ b ∈ filterBounds t op ++ predicateBounds op, b.1.parameter? = some p.name := by
  obtain htargets | hraw := hkept p hp hhollow
  · obtain ⟨target, htarget⟩ := List.exists_mem_of_ne_nil _ htargets
    have hmem : target.bound ∈ filterBounds t op := List.mem_flatMap.2 ⟨p, hp, List.mem_map_of_mem htarget⟩
    exact ⟨target.bound, List.mem_append_left _ hmem, (mem_targetsOf htarget).2⟩
  · obtain ⟨-, b, hb, hname⟩ := exists_predicate_of_rawNames hkind hraw
    exact ⟨b, List.mem_append_right _ hb, hname⟩

end

/-- An update or a delete has a WHERE clause with all its filters, unless all are hollow and there is no raw predicate;
then, and only then, it has none. -/
theorem filters_kept {compiled : CompiledOperation} (hcolumns : t.columns.toList ≠ [])
    (h : op.compile d t = .ok compiled) (hkind : op.kind = .delete ∨ op.kind = .update) :
    FiltersKept d t op compiled := by
  obtain ⟨plan, hplan, rfl⟩ := compile_eq_ok.1 h
  have hplanned := planned_of_plan hplan
  obtain ⟨-, hpresent⟩ := eq_of_resolveParams (resolved_of_plan hplan)
  have hkept : ∀ p ∈ filtersOf op, p.isHollow = false → targetsOf t p ≠ [] ∨ p.name ∈ rawNames op :=
    fun p hp => targetsOf_ne_nil_of_not_hollow hcolumns (hpresent p (List.mem_filter.1 hp).1)
  constructor
  case clause =>
    intro hfiltered
    obtain ⟨clause, hne, htext⟩ :=
      exists_clause d (1 + filterStart t op) (target_or_raw hkind hkept hfiltered)
    exact ⟨clause, hne, by rw [Plan.compile, hplanned.sql_change hkind, htext, String.append_assoc]⟩
  case whole =>
    intro hunfiltered
    have hnone : ∀ b ∈ (filtersOf op).map (bound t), b.targets = [] :=
      List.forall_mem_map.2 fun p hp => targetsOf_eq_nil (hunfiltered.hollow p hp)
    rw [Plan.compile, hplanned.sql_change hkind, whereText_eq_empty d _ hnone hunfiltered.blank, String.append_empty]
  case bound =>
    obtain ⟨hinsert, hexpression⟩ := kinds_of_change hkind
    have hbounds := boundsOf_compile hplanned hinsert d
    rw [contract, expressionBounds, if_neg hexpression, List.nil_append, List.append_assoc] at hbounds
    obtain ⟨stored, filtering, hbindings, hstored, hfiltering⟩ := List.map_eq_append_iff.1 hbounds
    refine ⟨stored, filtering, hbindings, hstored, fun p hp hhollow => ?_⟩
    obtain ⟨b, hb, hname⟩ := exists_bound_of_filter hkind hkept hp hhollow
    rw [← hfiltering] at hb
    obtain ⟨binding, hbinding, rfl⟩ := List.mem_map.1 hb
    exact ⟨binding, hbinding, hname⟩

/-- A delete by a structure none of whose fields is bound, and by a limit that only a raw predicate knows. -/
def prune : Operation where
  name := "prune"
  kind := .delete
  returns := .int
  params := [Param.composite "user" [⟨"name", .string, false, true⟩], Param.scalar "limit" .int]
  rawPredicate := some { sql := "SIZE > :limit" }

set_option maxRecDepth 4000 in
theorem prune_filters : badges.columns.toList ≠ [] ∧ (prune.kind = .delete ∨ prune.kind = .update) ∧ ∃ compiled,
    Operation.compile .postgres badges prune = .ok compiled ∧
      compiled.statement.sql = "DELETE FROM \"USERS\" WHERE SIZE > $1" ∧
      FiltersKept .postgres badges prune compiled := by
  have hcolumns : badges.columns.toList ≠ [] := by decide
  have hsql : (Operation.compile .postgres badges prune).toOption.map (fun compiled => compiled.statement.sql) =
      some "DELETE FROM \"USERS\" WHERE SIZE > $1" := by
    cbv
  obtain ⟨compiled, h, hsql⟩ := exists_ok_of_toOption hsql
  exact ⟨hcolumns, .inl rfl, compiled, h, hsql, filters_kept hcolumns h (.inl rfl)⟩

/-- A delete whose only filter is a structure with one field, which is skipped. -/
def purge : Operation where
  name := "purge"
  kind := .delete
  returns := .int
  params := [Param.composite "user" [⟨"id", .long, false, true⟩]]

set_option maxRecDepth 4000 in
/-- All rows are deleted. -/
theorem purge_deletes_all : badges.columns.toList ≠ [] ∧ purge.kind = .delete ∧ purge.params ≠ [] ∧ ∃ compiled,
    Operation.compile .postgres badges purge = .ok compiled ∧
      compiled.statement = ⟨"DELETE FROM \"USERS\"", []⟩ ∧
      ¬" WHERE ".toList <:+: compiled.statement.sql.toList := by
  have hstatement : (Operation.compile .postgres badges purge).toOption.map (fun compiled => compiled.statement) =
      some ⟨"DELETE FROM \"USERS\"", []⟩ := by
    cbv
  obtain ⟨compiled, h, hstatement⟩ := exists_ok_of_toOption hstatement
  refine ⟨by decide, rfl, by decide, compiled, h, hstatement, ?_⟩
  rw [hstatement]
  decide

end Query
end EntitySql
