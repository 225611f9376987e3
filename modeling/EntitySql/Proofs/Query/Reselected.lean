import EntitySql.Proofs.Ddl.Agreement
import EntitySql.Proofs.Query.Locals
import EntitySql.Proofs.Query.Where

/-! The row that an update returns. A second statement selects it after the update; it is written and bound on its own,
and only the steps before the two are shared. Main statement: the select repeats the generated conditions of the update,
numbered from one, and binds what the update binds to them, and nothing else of an update depends on whether it returns
its row. -/
namespace EntitySql.Query
variable {d : Dialect} {t : Table} {op : Operation}

section
variable {arrays final : EnumArrays} {s : Slot}

/-- An array that has been mapped to its names is not mapped again. -/
theorem enumNames_again {source : Value} {nullable : Bool}
    (hfinal : (enumNames arrays source nullable).1 <+: final) :
    enumNames final source nullable = (final, (enumNames arrays source nullable).2) := by
  obtain ⟨rest, rfl⟩ := hfinal
  unfold enumNames
  cases hfind : arrays.findIdx? (·.1 = source) with
  | some i => simp [List.findIdx?_append, hfind]
  | none => simp [List.findIdx?_append, List.findIdx?_cons, hfind]

theorem bind_again (hfinal : (bind arrays s).1 <+: final) : bind final s = (final, (bind arrays s).2) := by
  unfold bind at hfinal ⊢
  split
  · next htype =>
    simp only [htype] at hfinal
    rw [enumNames_again hfinal]
  · rfl
  · rfl
  · rfl

/-- Slots that are bound once more are bound as before, without a further step. -/
theorem bindAll_again {slots : List Slot} (hfinal : (bindAll arrays slots).1 <+: final) :
    bindAll final slots = (final, (bindAll arrays slots).2) := by
  induction slots generalizing arrays with
  | nil => rfl
  | cons s slots ih =>
    have hfirst : (bind arrays s).1 <+: final := (prefix_bindAll slots).trans hfinal
    have hrest : bindAll final slots = (final, (bindAll (bind arrays s).1 slots).2) := ih hfinal
    simp only [bindAll, bind_again hfirst, hrest]

end

/-- A text that begins with a placeholder: its parts, a placeholder before each, numbered on from part to part. -/
def numbered (d : Dialect) : Nat → List String → String
  | _, [] => ""
  | index, part :: parts => d.placeholder index ++ part ++ numbered d (index + 1) parts

/-- The number of the first placeholder of a text tells all the others, and the rest does not depend on it. -/
theorem exists_numbered (d : Dialect) (pieces : List Piece) :
    ∃ first parts, parts.length = (slots pieces).length ∧
      ∀ index, renderFrom d index pieces = first ++ numbered d index parts := by
  induction pieces with
  | nil => exact ⟨"", [], rfl, fun _ => rfl⟩
  | cons piece pieces ih =>
    obtain ⟨first, parts, hlength, hrest⟩ := ih
    cases piece with
    | slot slot =>
      refine ⟨"", first :: parts, by simp [hlength], fun index => ?_⟩
      rw [renderFrom, hrest, numbered, String.empty_append, String.append_assoc]
    | text sql =>
      refine ⟨sql ++ first, parts, hlength, fun index => ?_⟩
      rw [renderFrom, hrest, String.append_assoc]
    | name name =>
      refine ⟨quoteName name ++ first, parts, hlength, fun index => ?_⟩
      rw [renderFrom, hrest, String.append_assoc]
    | object name =>
      refine ⟨d.qualify name ++ first, parts, hlength, fun index => ?_⟩
      rw [renderFrom, hrest, String.append_assoc]
    | nullSafeEquals =>
      refine ⟨d.nullSafeEquals ++ first, parts, hlength, fun index => ?_⟩
      rw [renderFrom, hrest, String.append_assoc]

section
variable (d)

/-- The WHERE clause of the generated conditions of parameters, their placeholders numbered from `index`. -/
def conditionClause (index : Nat) (params : List BoundParam) : String :=
  if params.flatMap conditionsOf = [] then "" else " WHERE " ++ " AND ".intercalate (conditionTexts d index params)

/-- What a raw predicate adds to the clause of the generated conditions, its placeholders numbered from `index`. -/
def rawClause (index : Nat) (t : Table) (op : Operation) (params : List BoundParam) : String :=
  match op.rawPredicate with
  | none => ""
  | some p =>
    let pieces := rawPieces t op (Fragment.Raw.ofSql p.sql)
    if pieces = [] then ""
    else if params.flatMap conditionsOf = [] then " WHERE " ++ renderFrom d index pieces
    else " " ++ p.conjunction.sql ++ " (" ++ renderFrom d index pieces ++ ")"

/-- The text of an update up to its WHERE clause. -/
def updateText (t : Table) (assigned : List Target) : String :=
  "UPDATE " ++ d.qualify t.objectName ++ " SET " ++
    ", ".intercalate ((assigned.zipIdx 1).map fun (target, i) =>
      quoteName target.column.name ++ " = " ++ d.placeholder i)

/-- The text of a select of whole rows up to its WHERE clause. -/
def selectText (t : Table) : String :=
  "SELECT " ++ ", ".intercalate ((columnNames t).map quoteName) ++ " FROM " ++ d.qualify t.objectName

theorem conditionClause_eq (index : Nat) (params : List BoundParam) (c : Conjunction) :
    conditionClause d index params = renderFrom d index (Filter.pieces ⟨params.flatMap conditionsOf, c, []⟩) := by
  unfold conditionClause Filter.pieces conditionTexts
  split
  · next hnil =>
    rw [hnil]
    rfl
  · next hne =>
    dsimp only
    split <;> first | contradiction | rw [renderFrom, renderFrom_separated]

/-- A WHERE clause is that of the generated conditions, with what the raw predicate adds to it. -/
theorem whereText_eq (index : Nat) (t : Table) (op : Operation) (params : List BoundParam) :
    whereText d index t op params =
      conditionClause d index params ++ rawClause d (index + (params.flatMap (·.targets)).length) t op params := by
  by_cases hblank : ∀ p ∈ op.rawPredicate, IsBlank p.sql
  · have hraw : rawClause d (index + (params.flatMap (·.targets)).length) t op params = "" := by
      unfold rawClause
      cases hpredicate : op.rawPredicate with
      | none => rfl
      | some p => exact if_pos (rawPieces_eq_nil.2 (hblank p hpredicate))
    obtain ⟨c, hfilter⟩ := fullFilter_of_blank t params hblank
    rw [hraw, String.append_empty, conditionClause_eq d index params c, whereText, hfilter]
  · push Not at hblank
    obtain ⟨⟨sql, c⟩, hpredicate, hsql⟩ := hblank
    have hpieces : rawPieces t op (Fragment.Raw.ofSql sql) ≠ [] := fun hnil => hsql (rawPieces_eq_nil.1 hnil)
    by_cases hnil : params.flatMap conditionsOf = []
    · rw [text_raw index hnil hpredicate hsql, conditionClause, if_pos hnil, rawClause, hpredicate, rawText]
      simp [hpieces, hnil]
    · rw [text_joint index hnil hpredicate hsql, conditionClause, if_neg hnil, rawClause, hpredicate, rawText]
      simp [hpieces, hnil, String.append_assoc]

end

theorem renderEach_assignments (index : Nat) (assigned : List Target) :
    renderEach d index (assigned.map fun target =>
        [.name target.column.name, .text " = ", .slot target.slot]) =
      (assigned.zipIdx index).map fun (target, i) => quoteName target.column.name ++ " = " ++ d.placeholder i := by
  induction assigned generalizing index with
  | nil => rfl
  | cons target assigned ih => simp [renderEach, renderFrom, ih, String.append_assoc]

/-- The update of the columns of targets to their values. -/
abbrev updateOf (table : ObjectName) (assigned : List Target) (filter : Filter) : Statement :=
  .update table (assigned.map fun target => (target.column.name, target.slot)) filter

theorem slots_updateOf (table : ObjectName) (assigned : List Target) (filter : Filter) :
    (updateOf table assigned filter).slots = assigned.map Target.slot ++ slots filter.pieces := by
  rw [Statement.slots_update, List.map_map]
  rfl

theorem sql_updateOf (assigned : List Target) (filter : Filter) :
    (updateOf t.objectName assigned filter).sql d =
      updateText d t assigned ++ renderFrom d (1 + assigned.length) filter.pieces := by
  have hassigned : slots (separated ", " (assigned.map fun target =>
      [.name target.column.name, .text " = ", .slot target.slot])) = assigned.map Target.slot :=
    slots_separated_map Target.slot (fun _ => rfl) assigned
  rw [Statement.sql, render, Statement.pieces, List.map_map]
  simp only [Function.comp_def, renderFrom_append, renderFrom_separated, renderEach_assignments, slots_append,
    hassigned]
  simp [renderFrom, updateText, String.append_assoc, Nat.add_comm]

theorem sql_reselect (params : List BoundParam) :
    (reselect t params).sql d = selectText d t ++ conditionClause d 1 (filterParams params) := by
  rw [reselect, sql_select_columns, conditionClause_eq d 1 (filterParams params) .and, render]
  simp [orderPieces, limitPieces, selectText, Ddl.nameList, paramFilter]

theorem slots_reselect (params : List BoundParam) :
    (reselect t params).slots = ((filterParams params).flatMap (·.targets)).map Target.slot := by
  rw [reselect, Statement.slots_select, Selection.slots_columns, List.nil_append, Filter.slots_pieces, paramFilter,
    slots_conditions, slots_nil, List.append_nil]

section
variable (t op)

/-- What an update assigns. -/
def updateTargets : List Target :=
  assignedTargets (valueParams (boundParams t op))

/-- The parameters that tell which rows an update changes. -/
def updateFilters : List BoundParam :=
  filterParams (boundParams t op)

end

theorem Planned.eq_update {p : Plan} (h : Planned t op p) (hkind : op.kind = .update) :
    p.statement = updateOf t.objectName (updateTargets t op) (fullFilter t op (updateFilters t op)) ∧ p.generated = [] ∧
      p.followUp = if op.returns = .one then some (reselect t (boundParams t op)) else none := by
  cases h with
  | insert hinsert => simp [hkind, OperationKind.isInsert] at hinsert
  | update _ _ _ hresult => exact ⟨rfl, rfl, followUp_of_updateResult hresult⟩
  | delete hdelete => simp [hkind] at hdelete
  | count hcount => simp [hkind] at hcount
  | select hselect => simp [hkind, OperationKind.isSelect] at hselect

/-- An update may return anything but a list. -/
theorem Acceptable.returning (h : Acceptable t op) (hkind : op.kind = .update) {shape : ReturnShape}
    (hshape : shape ≠ .many) : Acceptable t { op with returns := shape } := by
  have hupdate : UpdateRules t op := by simpa [KindRules, hkind] using h.kind
  refine ⟨⟨h.ordering.columns, h.ordering.select⟩, h.raw_declared, fun p hp => ?_, ?_⟩
  · have hrules := h.params p hp
    exact ⟨hrules.plain_alias, hrules.folded_string, hrules.columns⟩
  · have hreturning : UpdateRules t { op with returns := shape } := ⟨hupdate.one_column, hupdate.assigns, hshape⟩
    simpa [KindRules, hkind] using hreturning

theorem exists_plan_iff_acceptable : (∃ p, plan t op = .ok p) ↔ Acceptable t op := by
  rw [exists_plan, resolveParams_eq_ok]
  constructor
  · rintro ⟨⟨hordering, hnames, hparams⟩, hkind⟩
    exact ⟨hordering, hnames, hparams, hkind⟩
  · exact fun h => ⟨⟨h.ordering, h.raw_declared, h.params⟩, h.kind⟩

/-- What bindings carried before they were encoded. -/
def boundsOf (steps : List PreludeStep) (bindings : List Binding) : List Bound :=
  bindings.map fun b => (sourceOf steps b.value, b.column)

/-- What is bound in the midst of a statement can be bound again, to the same and without a further step. -/
theorem exists_bindAll_between {before between after : List Slot} {final : EnumArrays}
    (hfinal : final = (bindAll [] (before ++ between ++ after)).1)
    (hsupplied : ∀ s ∈ before ++ between ++ after, s.value.parameter?.isSome) :
    ∃ first rebound last, (bindAll [] (before ++ between ++ after)).2 = first ++ rebound ++ last ∧
      bindAll final between = (final, rebound) ∧
      boundsOf (enumSteps final) first = before.map Slot.bound ∧
      boundsOf (enumSteps final) rebound = between.map Slot.bound ∧
      boundsOf (enumSteps final) last = after.map Slot.bound := by
  obtain ⟨hrest, hafter⟩ := List.forall_mem_append.1 hsupplied
  obtain ⟨hbefore, hbetween⟩ := List.forall_mem_append.1 hrest
  rw [bindAll_append, bindAll_append] at hfinal ⊢
  -- The arrays grow from each of the three parts to the next.
  have hlast : (bindAll (bindAll (bindAll [] before).1 between).1 after).1 <+: final := hfinal ▸ List.prefix_rfl
  have hmid : (bindAll (bindAll [] before).1 between).1 <+: final := (prefix_bindAll after).trans hlast
  have hfirst : (bindAll [] before).1 <+: final := (prefix_bindAll between).trans hmid
  exact ⟨_, _, _, rfl, bindAll_again hmid, sourceOf_bindAll hbefore hfirst, sourceOf_bindAll hbetween hmid,
    sourceOf_bindAll hafter hlast⟩

/-- An update that returns its row, and the select that reads the row after it. -/
structure Reselects (d : Dialect) (t : Table) (op : Operation) (compiled : CompiledOperation)
    (followUp : CompiledStatement) : Prop where
  /-- But for the select the operation is what it is without a row to return. -/
  unchanged : ∀ shape, shape ≠ .one → shape ≠ .many → ∃ other,
    Operation.compile d t { op with returns := shape } = .ok other ∧ other.statement = compiled.statement ∧
      other.prelude = compiled.prelude
  update : compiled.statement.sql = updateText d t (updateTargets t op) ++
    conditionClause d (1 + (updateTargets t op).length) (updateFilters t op) ++
    rawClause d (1 + (updateTargets t op).length + followUp.bindings.length) t op (updateFilters t op)
  select : followUp.sql = selectText d t ++ conditionClause d 1 (updateFilters t op)
  /-- The conditions of the two differ in nothing but the numbers of their placeholders. -/
  renumbered : ∃ first parts, parts.length = followUp.bindings.length ∧
    ∀ index, conditionClause d index (updateFilters t op) = first ++ numbered d index parts
  /-- The select binds what the update binds between its assignments and its raw predicate. -/
  bindings : ∃ before after, compiled.statement.bindings = before ++ followUp.bindings ++ after ∧
    boundsOf compiled.prelude before = storedBounds t op ∧
    boundsOf compiled.prelude followUp.bindings = filterBounds t op ∧
    boundsOf compiled.prelude after = predicateBounds op

theorem bounds_updateFilters (hkind : op.kind = .update) :
    (((updateFilters t op).flatMap (·.targets)).map Target.slot).map Slot.bound = filterBounds t op := by
  rw [updateFilters, filterParams_boundParams, filterBounds, List.map_map, List.flatMap_map, List.map_flatMap]
  simp only [hkind, ne_eq, not_true_eq_false, decide_false, Bool.false_or]
  rfl

/-- The slots of an update: what it assigns, what its rows are compared with, and its raw predicate. -/
theorem Planned.slots_update {p : Plan} (h : Planned t op p) (hkind : op.kind = .update) :
    p.statement.slots = (updateTargets t op).map Target.slot ++
      ((updateFilters t op).flatMap (·.targets)).map Target.slot ++
      (rawPredicate? op).toList.flatMap fun raw => slots (rawPieces t op raw) := by
  rw [(h.eq_update hkind).1, slots_updateOf, slots_fullFilter, List.append_assoc]

/-- Without a row to return an update has the same statement and the same steps. -/
theorem exists_unchanged {p : Plan} (hplan : plan t op = .ok p) (hkind : op.kind = .update) {shape : ReturnShape}
    (hone : shape ≠ .one) (hmany : shape ≠ .many) (d : Dialect) :
    ∃ other, Operation.compile d t { op with returns := shape } = .ok other ∧
      other.statement = ⟨p.statement.sql d, (bindAll [] p.statement.slots).2⟩ ∧
      other.prelude = enumSteps (bindAll [] p.statement.slots).1 := by
  have hacceptable : Acceptable t { op with returns := shape } :=
    (exists_plan_iff_acceptable.1 ⟨p, hplan⟩).returning hkind hmany
  obtain ⟨q, hq⟩ := exists_plan_iff_acceptable.2 hacceptable
  obtain ⟨hstatement, hgenerated, hfollow⟩ := (planned_of_plan hq).eq_update hkind
  have hsame : q.statement = p.statement := hstatement.trans ((planned_of_plan hplan).eq_update hkind).1.symm
  have hnone : q.followUp = none := hfollow.trans (if_neg hone)
  refine ⟨_, compile_eq_ok.2 ⟨q, hq, rfl⟩, ?_, ?_⟩
  · rw [Plan.compile, hsame]
  · rw [Plan.compile, hsame, hgenerated, hnone]
    rfl

/-- The select binds again what the update binds between its assignments and its raw predicate, without a further
step. -/
theorem Planned.exists_rebound {p : Plan} (h : Planned t op p) (hkind : op.kind = .update) (hreturns : op.returns = .one)
    (d : Dialect) : ∃ first rebound last, (p.compile d op).statement.bindings = first ++ rebound ++ last ∧
      (p.compile d op).followUp = some ⟨(reselect t (boundParams t op)).sql d, rebound⟩ ∧
      rebound.length = ((updateFilters t op).flatMap (·.targets)).length ∧
      (p.compile d op).prelude = enumSteps (bindAll [] p.statement.slots).1 ∧
      boundsOf (p.compile d op).prelude first = storedBounds t op ∧
      boundsOf (p.compile d op).prelude rebound = filterBounds t op ∧
      boundsOf (p.compile d op).prelude last = predicateBounds op := by
  obtain ⟨-, hgenerated, hfollow⟩ := h.eq_update hkind
  rw [if_pos hreturns] at hfollow
  have hslots := h.slots_update hkind
  have hsupplied : ∀ s ∈ p.statement.slots, s.value.parameter?.isSome := fun s hs =>
    h.slots_supplied (by simp [hkind, OperationKind.isInsert]) (List.mem_append_left _ hs)
  have hlater : (p.followUp.map Statement.slots).getD [] =
      ((updateFilters t op).flatMap (·.targets)).map Target.slot := by
    rw [hfollow, Option.map_some, Option.getD_some, slots_reselect]
    rfl
  rw [hslots] at hsupplied
  obtain ⟨first, rebound, last, hbindings, hagain, hfirst, hrebound, hlast⟩ :=
    exists_bindAll_between rfl hsupplied
  rw [← hslots] at hbindings hagain hfirst hrebound hlast
  have hlength : rebound.length = ((updateFilters t op).flatMap (·.targets)).length := by
    have hbound := congrArg (fun bound => bound.2.length) hagain
    rw [length_bindAll, List.length_map] at hbound
    exact hbound.symm
  have hprelude : (p.compile d op).prelude = enumSteps (bindAll [] p.statement.slots).1 := by
    rw [Plan.compile, hlater, hagain, hgenerated]
    rfl
  refine ⟨first, rebound, last, hbindings, ?_, hlength, hprelude, ?_, ?_, ?_⟩
  · rw [Plan.compile, hlater, hagain, hfollow]
    rfl
  · rw [hprelude, hfirst, List.map_map]
    exact bounds_assigned hkind
  · rw [hprelude, hrebound, bounds_updateFilters hkind]
  · rw [hprelude, hlast, bounds_rawPredicate]

/-- An update that returns its row is followed by a select of the row, which agrees with it. -/
theorem reselects_of_compile {compiled : CompiledOperation} (h : op.compile d t = .ok compiled)
    (hkind : op.kind = .update) (hreturns : op.returns = .one) :
    ∃ followUp, compiled.followUp = some followUp ∧ Reselects d t op compiled followUp := by
  obtain ⟨p, hplan, rfl⟩ := compile_eq_ok.1 h
  have hp := planned_of_plan hplan
  obtain ⟨first, rebound, last, hbindings, hfollow, hlength, hprelude, hbounds⟩ := hp.exists_rebound hkind hreturns d
  refine ⟨_, hfollow, ?_⟩
  constructor
  case unchanged =>
    intro shape hone hmany
    rw [hprelude]
    exact exists_unchanged hplan hkind hone hmany d
  case update =>
    have htext : (p.compile d op).statement.sql = updateText d t (updateTargets t op) ++
        whereText d (1 + (updateTargets t op).length) t op (updateFilters t op) := by
      rw [Plan.compile, (hp.eq_update hkind).1, sql_updateOf, whereText]
    rw [htext, whereText_eq, hlength, String.append_assoc]
  case select => exact sql_reselect (boundParams t op)
  case renumbered =>
    obtain ⟨head, parts, hparts, hnumbered⟩ :=
      exists_numbered d (Filter.pieces ⟨(updateFilters t op).flatMap conditionsOf, .and, []⟩)
    refine ⟨head, parts, ?_, fun index => (conditionClause_eq d index _ .and).trans (hnumbered index)⟩
    rw [hparts, Filter.slots_pieces, slots_conditions, slots_nil, List.append_nil, List.length_map, hlength]
  case bindings => exact ⟨first, last, hbindings, hbounds⟩

/-- An update that returns its row, found by an array of constants that a raw predicate mentions again. -/
def rename : Operation where
  name := "rename"
  kind := .update
  returns := .one
  params := [
    { Param.scalar "name" .string with role := .updateValue }, Param.array "badges" .enum, Param.scalar "id" .long]
  rawPredicate := some { sql := "NAME <> :name OR :badges IS NULL" }

/-- The texts of the update and of the select: the array takes the second placeholder of one and the first of the
other. -/
def renameTexts : String × String :=
  ("UPDATE \"USERS\" SET \"NAME\" = $1 WHERE \"BADGES\" IS NOT DISTINCT FROM $2 AND \"ID\" = $3 " ++
    "AND (NAME <> $4 OR $5 IS NULL)",
  "SELECT \"ID\", \"BADGES\", \"NAME\" FROM \"USERS\" WHERE \"BADGES\" IS NOT DISTINCT FROM $1 AND \"ID\" = $2")

set_option maxRecDepth 4000 in
theorem rename_reselects : rename.kind = .update ∧ rename.returns = .one ∧ ∃ compiled followUp,
    Operation.compile .postgres badges rename = .ok compiled ∧ compiled.followUp = some followUp ∧
      (compiled.statement.sql, followUp.sql) = renameTexts ∧ Reselects .postgres badges rename compiled followUp := by
  have htexts : (Operation.compile .postgres badges rename).toOption.map
      (fun compiled => (compiled.statement.sql, compiled.followUp.map (·.sql))) =
        some (renameTexts.1, some renameTexts.2) := by
    rw [Operation.compile_eq]
    cbv
  obtain ⟨compiled, h, htexts⟩ := exists_ok_of_toOption htexts
  obtain ⟨hupdate, hselect⟩ := Prod.mk.inj htexts
  obtain ⟨followUp, hfollow, hreselects⟩ := reselects_of_compile h rfl rfl
  rw [hfollow] at hselect
  exact ⟨rfl, rfl, compiled, followUp, h, hfollow, Prod.ext hupdate (Option.some.inj hselect), hreselects⟩

end EntitySql.Query
