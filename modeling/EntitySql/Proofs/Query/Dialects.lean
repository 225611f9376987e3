import EntitySql.Proofs.Query.NullSafe

/-! One operation in two dialects. A statement is planned without a dialect, which only writes its pieces. Main
statement: an operation fails in both dialects with the same error, or it has the same contract in both, and its
statements differ in the marks of placeholders, in the operators of null-safe comparisons and in the name of the
table. -/
namespace EntitySql.Query
open Fragment (Raw Segment)
variable {t : Table} {op : Operation} {pieces : List Piece}

/-- A part of the text of a statement. -/
inductive Part where
  /-- What is written alike in both dialects. -/
  | same (sql : String)
  | table (name : ObjectName)
  | nullSafe
  | placeholder (number : ℕ)

def Part.postgres : Part → String
  | same sql => sql
  | table ⟨some ns, name⟩ => quoteName ns ++ "." ++ quoteName name
  | table ⟨none, name⟩ => quoteName name
  | nullSafe => "IS NOT DISTINCT FROM"
  | placeholder number => "$" ++ toString number

def Part.sqlite : Part → String
  | same sql => sql
  | table name => quoteName name.name
  | nullSafe => "IS"
  | placeholder number => "?" ++ toString number

def Part.number? : Part → Option ℕ
  | placeholder number => some number
  | _ => none

/-- A part that is no placeholder, and still not written alike. -/
def Part.isSpelled : Part → Bool
  | table _ => true
  | nullSafe => true
  | _ => false

/-- A raw fragment: its texts as they are, its placeholders with the numbers from `number` on. -/
def rawParts (number : ℕ) : List Segment → List Part
  | [] => []
  | .text sql :: rest => .same sql :: rawParts number rest
  | .placeholder _ _ :: rest => .placeholder number :: rawParts (number + 1) rest

/-- The targets of filters for which NULL is a value. -/
def nullSafeTargets (t : Table) (op : Operation) : List Target :=
  if op.kind.isInsert then []
  else (filtersOf op).flatMap fun p =>
    (targetsOf t p).filter fun target => !p.ignoreCase && target.column.isNullable && p.isDefaultEquality

/-- The raw fragments of a statement. -/
def rawsOf (op : Operation) : List Raw :=
  if op.kind.isInsert then [] else (rawExpression? op).toList ++ (rawPredicate? op).toList

/-- Statements for PostgreSQL and SQLite with the same bindings, whose texts are the same part by part: the placeholders
are numbered from one, the table is named once, and there is a null-safe operator for each of so many comparisons; raw
fragments are among the parts, with their texts as they are. -/
structure SameStatement (t : Table) (nullSafes : ℕ) (raws : List Raw) (x y : CompiledStatement) : Prop where
  bindings : x.bindings = y.bindings
  texts : ∃ parts : List Part,
    x.sql = String.join (parts.map Part.postgres) ∧ y.sql = String.join (parts.map Part.sqlite) ∧
    parts.filterMap Part.number? = List.range' 1 x.bindings.length ∧
    parts.filter Part.isSpelled = .table t.objectName :: List.replicate nullSafes .nullSafe ∧
    ∀ raw ∈ raws, ∃ before number after, parts = before ++ rawParts number raw.segments ++ after

/-- Compiled operations for PostgreSQL and SQLite that are used in the same way. -/
structure SameContract (t : Table) (op : Operation) (x y : CompiledOperation) : Prop where
  name : x.name = y.name
  kind : x.kind = y.kind
  returns : x.returns = y.returns
  prelude : x.prelude = y.prelude
  batch : x.batch = y.batch
  result : x.result = y.result
  row : x.row = y.row
  statement : SameStatement t (nullSafeTargets t op).length (rawsOf op) x.statement y.statement
  followUp : Option.Rel (SameStatement t (nullSafeTargets t op).length []) x.followUp y.followUp

/-- The parts of a statement whose first slot has a number. -/
def partsFrom (number : ℕ) : List Piece → List Part
  | [] => []
  | .text sql :: rest => .same sql :: partsFrom number rest
  | .name name :: rest => .same (quoteName name) :: partsFrom number rest
  | .object name :: rest => .table name :: partsFrom number rest
  | .nullSafeEquals :: rest => .nullSafe :: partsFrom number rest
  | .slot _ :: rest => .placeholder number :: partsFrom (number + 1) rest

theorem partsFrom_append (number : ℕ) (a b : List Piece) :
    partsFrom number (a ++ b) = partsFrom number a ++ partsFrom (number + (slots a).length) b := by
  induction a generalizing number with
  | nil => rfl
  | cons piece a ih => cases piece <;> simp [partsFrom, ih, Nat.add_assoc, Nat.add_comm 1]

theorem renderFrom_postgres (number : ℕ) (pieces : List Piece) :
    renderFrom .postgres number pieces = String.join ((partsFrom number pieces).map Part.postgres) := by
  induction pieces generalizing number with
  | nil => rfl
  | cons piece pieces ih =>
    cases piece with
    | object name =>
      obtain ⟨ns, name⟩ := name
      cases ns <;> simp [renderFrom, partsFrom, ih, Part.postgres, Dialect.qualify, Dialect.hasNamespaces]
    | _ => simp [renderFrom, partsFrom, ih, Part.postgres, Dialect.nullSafeEquals, Dialect.placeholder,
        Dialect.placeholderMark]

theorem renderFrom_sqlite (number : ℕ) (pieces : List Piece) :
    renderFrom .sqlite number pieces = String.join ((partsFrom number pieces).map Part.sqlite) := by
  induction pieces generalizing number with
  | nil => rfl
  | cons piece pieces ih =>
    cases piece with
    | object name =>
      obtain ⟨ns, name⟩ := name
      cases ns <;> simp [renderFrom, partsFrom, ih, Part.sqlite, Dialect.qualify, Dialect.hasNamespaces]
    | _ => simp [renderFrom, partsFrom, ih, Part.sqlite, Dialect.nullSafeEquals, Dialect.placeholder,
        Dialect.placeholderMark]

theorem numbers_partsFrom (number : ℕ) (pieces : List Piece) :
    (partsFrom number pieces).filterMap Part.number? = List.range' number (slots pieces).length := by
  induction pieces generalizing number with
  | nil => rfl
  | cons piece pieces ih => cases piece <;> simp [partsFrom, List.filterMap_cons, Part.number?, ih, List.range'_succ]

theorem partsFrom_rawPieces (number : ℕ) (raw : Raw) :
    partsFrom number (rawPieces t op raw) = rawParts number raw.segments := by
  unfold rawPieces
  induction raw.segments generalizing number with
  | nil => rfl
  | cons segment segments ih => cases segment <;> simp [partsFrom, rawParts, ih]

/-- The pieces that are no slots, and still not written alike. -/
def spelled (pieces : List Piece) : List Piece :=
  pieces.filter fun
    | .object _ => true
    | .nullSafeEquals => true
    | _ => false

@[simp]
theorem spelled_nil : spelled [] = [] := rfl

@[simp]
theorem spelled_append (a b : List Piece) : spelled (a ++ b) = spelled a ++ spelled b :=
  List.filter_append _ _

@[simp]
theorem spelled_text (sql : String) (rest : List Piece) : spelled (.text sql :: rest) = spelled rest := rfl

@[simp]
theorem spelled_name (name : String) (rest : List Piece) : spelled (.name name :: rest) = spelled rest := rfl

@[simp]
theorem spelled_object (name : ObjectName) (rest : List Piece) :
    spelled (.object name :: rest) = .object name :: spelled rest := rfl

@[simp]
theorem spelled_nullSafeEquals (rest : List Piece) :
    spelled (.nullSafeEquals :: rest) = .nullSafeEquals :: spelled rest := rfl

@[simp]
theorem spelled_slot (slot : Slot) (rest : List Piece) : spelled (.slot slot :: rest) = spelled rest := rfl

@[simp]
theorem spelled_separated (separator : String) (groups : List (List Piece)) :
    spelled (separated separator groups) = groups.flatMap spelled := by
  unfold separated
  induction groups with
  | nil => rfl
  | cons group groups ih =>
    cases groups with
    | nil => simp
    | cons next rest =>
      rw [List.intercalate_cons_cons, spelled_append, spelled_append, ih]
      simp

theorem filter_partsFrom (number : ℕ) (pieces : List Piece) :
    (partsFrom number pieces).filter Part.isSpelled = partsFrom 1 (spelled pieces) := by
  induction pieces generalizing number with
  | nil => rfl
  | cons piece pieces ih => cases piece <;> simp [partsFrom, List.filter_cons, Part.isSpelled, ih]

theorem partsFrom_replicate (number n : ℕ) :
    partsFrom number (List.replicate n .nullSafeEquals) = List.replicate n .nullSafe := by
  induction n with
  | zero => rfl
  | succ n ih => rw [List.replicate_succ, partsFrom, ih, List.replicate_succ]

/-- A predicate has a null-safe operator if its comparison is null-safe. -/
theorem spelled_predicate (p : Predicate) :
    spelled p.pieces = List.replicate (if p.comparison = .nullSafe then 1 else 0) .nullSafeEquals := by
  unfold Predicate.pieces
  cases p.comparison <;> rfl

theorem spelled_predicates (ps : List Predicate) :
    ps.flatMap (fun p => spelled p.pieces) =
      List.replicate (ps.countP fun p => p.comparison = .nullSafe) .nullSafeEquals := by
  induction ps with
  | nil => rfl
  | cons p ps ih =>
    rw [List.flatMap_cons, ih, spelled_predicate, List.replicate_append_replicate, List.countP_cons, Nat.add_comm]
    simp

theorem spelled_condition (c : Condition) : spelled c.pieces = c.predicates.flatMap fun p => spelled p.pieces := by
  cases c with
  | one p => simp [Condition.pieces, Condition.predicates]
  | anyOf ps => simp [Condition.pieces, Condition.predicates, List.flatMap_map]

theorem spelled_filter {f : Filter} (hraw : spelled f.raw = []) :
    spelled f.pieces = List.replicate ((f.conditions.flatMap (·.predicates)).countP fun p => p.comparison = .nullSafe)
      .nullSafeEquals := by
  have hconditions : spelled (separated " AND " (f.conditions.map Condition.pieces)) =
      (f.conditions.flatMap (·.predicates)).flatMap fun p => spelled p.pieces := by
    simp [List.flatMap_map, List.flatMap_assoc, spelled_condition]
  rw [← spelled_predicates, ← hconditions]
  unfold Filter.pieces
  split
  · next hc _ => simp [hc]
  · next hc hr => simp [hc, hraw]
  · next hr _ => simp
  · simp [hraw]

theorem spelled_rawPieces (raw : Raw) : spelled (rawPieces t op raw) = [] := by
  unfold rawPieces
  induction raw.segments with
  | nil => rfl
  | cons segment segments ih => cases segment <;> simpa using ih

theorem decide_nullSafe (p : Param) (column : Column) :
    decide (comparisonOf p column = .nullSafe) = (!p.ignoreCase && column.isNullable && p.isDefaultEquality) := by
  unfold comparisonOf
  cases p.ignoreCase <;> cases column.isNullable <;> cases p.isDefaultEquality <;> simp

theorem countP_nullSafe (params : List Param) :
    (((params.map (bound t)).flatMap conditionsOf).flatMap (·.predicates)).countP (fun p => p.comparison = .nullSafe) =
      (params.flatMap fun p => (targetsOf t p).filter fun target =>
        !p.ignoreCase && target.column.isNullable && p.isDefaultEquality).length := by
  rw [List.flatMap_assoc, List.flatMap_map, List.countP_flatMap, List.length_flatMap]
  refine congrArg List.sum (List.map_congr_left fun p _ => ?_)
  rw [Function.comp_apply, predicates_conditionsOf, List.countP_map, List.countP_eq_length_filter]
  exact congrArg List.length (List.filter_congr fun target _ => decide_nullSafe p target.column)

theorem spelled_filters {f : Filter} (hkind : op.kind.isInsert = false) (hraw : spelled f.raw = [])
    (hconditions : f.conditions = ((filtersOf op).map (bound t)).flatMap conditionsOf) :
    spelled f.pieces = List.replicate (nullSafeTargets t op).length .nullSafeEquals := by
  rw [spelled_filter hraw, hconditions, countP_nullSafe, nullSafeTargets, if_neg (by simp [hkind])]

theorem spelled_fullFilter (hkind : op.kind.isInsert = false) :
    spelled (fullFilter t op ((filtersOf op).map (bound t))).pieces =
      List.replicate (nullSafeTargets t op).length .nullSafeEquals := by
  refine spelled_filters hkind ?_ (conditions_fullFilter _)
  unfold fullFilter
  split
  · exact spelled_rawPieces _
  · rfl

theorem spelled_columns (names : List String) : spelled (Selection.columns names).pieces = [] := by
  simp [Selection.pieces, List.flatMap_map]

theorem spelled_orderPieces (keys : List (String × Direction)) : spelled (orderPieces keys) = [] := by
  cases keys with
  | nil => rfl
  | cons key keys => simp [orderPieces, List.flatMap_map]

theorem spelled_limitPieces (limit : Option UInt64) : spelled (limitPieces limit) = [] := by
  cases limit <;> rfl

theorem spelled_select {table : ObjectName} {selection : Selection} {filter : Filter}
    {order : List (String × Direction)} {limit : Option UInt64} (hselection : spelled selection.pieces = []) :
    spelled (Statement.select table selection filter order limit).pieces = .object table :: spelled filter.pieces := by
  simp [Statement.pieces, hselection, spelled_orderPieces, spelled_limitPieces]

/-- A statement names its table once, and has a null-safe operator for each target for which NULL is a value. -/
theorem Planned.spelled_eq {p : Plan} (h : Planned t op p) :
    spelled p.statement.pieces =
      .object t.objectName :: List.replicate (nullSafeTargets t op).length .nullSafeEquals := by
  cases h with
  | insert hkind =>
    rw [nullSafeTargets, if_pos hkind]
    cases (insertValues t (boundParams t op)).map fun target => (target.column.name, target.slot) with
    | nil => rfl
    | cons value values => simp [Statement.pieces, List.flatMap_map]
  | update hkind =>
    rw [filterParams_filtersOf hkind, Statement.pieces, spelled_append, spelled_append,
      spelled_fullFilter (by rw [hkind]; rfl)]
    simp [List.flatMap_map]
  | delete hkind =>
    rw [boundParams_filtersOf (by simp [hkind]), Statement.pieces, spelled_append,
      spelled_fullFilter (by rw [hkind]; rfl)]
    rfl
  | count hkind =>
    have hkinds : op.kind ≠ .update ∧ op.kind.isInsert = false := by
      rcases hkind with h | h <;> simp [h, OperationKind.isInsert]
    rw [boundParams_filtersOf hkinds.1, Statement.pieces, spelled_append, spelled_fullFilter hkinds.2]
    rfl
  | select hkind hselection =>
    have hkinds : op.kind ≠ .update ∧ op.kind.isInsert = false := by
      cases h : op.kind <;> simp_all [OperationKind.isSelect, OperationKind.isInsert]
    have hselected := selection_cases hselection
    rw [spelled_select, boundParams_filtersOf hkinds.1, spelled_fullFilter hkinds.2]
    obtain ⟨-, names, rfl, -⟩ | ⟨raw, -, rfl⟩ := hselected
    · exact spelled_columns names
    · exact spelled_rawPieces raw

theorem spelled_reselect (hkind : op.kind = .update) :
    spelled (reselect t (boundParams t op)).pieces =
      .object t.objectName :: List.replicate (nullSafeTargets t op).length .nullSafeEquals := by
  rw [reselect, filterParams_filtersOf hkind, spelled_select (spelled_columns _),
    spelled_filters (by rw [hkind]; rfl) rfl rfl]

theorem Planned.update_of_followUp {p : Plan} (h : Planned t op p) {s : Statement} (hs : p.followUp = some s) :
    op.kind = .update := by
  cases h with
  | update hkind => exact hkind
  | insert | delete | count | select => cases hs

/-- The raw predicate stands in its filter, with brackets or without. -/
theorem Filter.raw_at (f : Filter) : ∃ n, PiecesAt f.pieces n f.raw := by
  obtain ⟨conditions, conjunction, raw⟩ := f
  cases conditions with
  | nil =>
    cases raw with
    | nil => exact ⟨_, .refl []⟩
    | cons piece raw => exact ⟨_, (PiecesAt.refl _).append_left [.text " WHERE "]⟩
  | cons condition conditions =>
    cases raw with
    | nil => exact ⟨0, [], _, rfl, rfl⟩
    | cons piece raw =>
      have hplace := ((PiecesAt.refl (piece :: raw)).append_left (.text " WHERE " ::
        separated " AND " ((condition :: conditions).map Condition.pieces) ++
          [.text (" " ++ conjunction.sql ++ " (")])).append_right [.text ")"]
      exact ⟨_, by simpa [Filter.pieces] using hplace⟩

theorem kind_of_rawExpression {raw : Raw} (h : rawExpression? op = some raw) : op.kind = .selectRawExpression := by
  unfold rawExpression? at h
  split at h
  · assumption
  · cases h

theorem Planned.expression_at {p : Plan} (h : Planned t op p) {raw : Raw} (hraw : rawExpression? op = some raw) :
    ∃ n, PiecesAt p.statement.pieces n (rawPieces t op raw) := by
  have hexpression := kind_of_rawExpression hraw
  cases h with
  | select hkind hselection =>
    obtain ⟨hnone, -⟩ | ⟨raw', hraw', rfl⟩ := selection_cases hselection
    · rw [hnone] at hraw
      cases hraw
    · obtain rfl := Option.some.inj (hraw'.symm.trans hraw)
      rw [Statement.pieces, List.append_assoc, List.append_assoc, List.append_assoc]
      exact ⟨_, ((PiecesAt.refl (rawPieces t op raw')).append_left [.text "SELECT "]).append_right _⟩
  | insert hkind => simp [hexpression, OperationKind.isInsert] at hkind
  | update hkind | delete hkind | count hkind => simp [hexpression] at hkind

/-- The raw fragments stand in the statement. -/
theorem Planned.raw_at {p : Plan} (h : Planned t op p) {raw : Raw} (hraw : raw ∈ rawsOf op) :
    ∃ n, PiecesAt p.statement.pieces n (rawPieces t op raw) := by
  unfold rawsOf at hraw
  split at hraw
  · cases hraw
  · next hkind =>
    rw [Bool.not_eq_true] at hkind
    obtain hexpression | hpredicate := List.mem_append.1 hraw
    · exact h.expression_at (Option.mem_toList.1 hexpression)
    · obtain ⟨q, hq, rfl⟩ := Option.map_eq_some_iff.1 (Option.mem_toList.1 hpredicate)
      obtain ⟨n, hplace⟩ := (fullFilter t op ((filtersOf op).map (bound t))).raw_at
      have hfilter := h.filter_at hkind
      rw [fullFilter_of_raw _ hq] at hplace hfilter
      exact ⟨_, hfilter.trans hplace⟩

theorem sameStatement {s : Statement} {nullSafes : ℕ} {raws : List Raw} {bindings : List Binding}
    (hbindings : bindings.length = s.slots.length)
    (hspelled : spelled s.pieces = .object t.objectName :: List.replicate nullSafes .nullSafeEquals)
    (hraws : ∀ raw ∈ raws, ∃ n, PiecesAt s.pieces n (rawPieces t op raw)) :
    SameStatement t nullSafes raws ⟨s.sql .postgres, bindings⟩ ⟨s.sql .sqlite, bindings⟩ where
  bindings := rfl
  texts := by
    refine ⟨partsFrom 1 s.pieces, renderFrom_postgres 1 _, renderFrom_sqlite 1 _, ?_, ?_, fun raw hraw => ?_⟩
    · rw [numbers_partsFrom, hbindings]
      rfl
    · rw [filter_partsFrom, hspelled, partsFrom, partsFrom_replicate]
    · obtain ⟨n, head, tail, hpieces, -⟩ := hraws raw hraw
      rw [hpieces, partsFrom_append, partsFrom_append, partsFrom_rawPieces]
      exact ⟨_, _, _, rfl⟩

/-- An operation fails in both dialects with the same error, or it has one contract in both, and its statements differ
in the marks of placeholders, the null-safe operators and the name of the table only. -/
theorem compile_dialects (t : Table) (op : Operation) :
    (∃ e, op.compile .postgres t = .error e ∧ op.compile .sqlite t = .error e) ∨
      ∃ x y, op.compile .postgres t = .ok x ∧ op.compile .sqlite t = .ok y ∧ SameContract t op x y := by
  rw [Operation.compile_eq, Operation.compile_eq]
  cases hplan : plan t op with
  | error e => exact .inl ⟨e, rfl, rfl⟩
  | ok p =>
    have hplanned := planned_of_plan hplan
    refine .inr ⟨p.compile .postgres op, p.compile .sqlite op, rfl, rfl, ?_⟩
    exact {
      name := rfl
      kind := rfl
      returns := rfl
      prelude := rfl
      batch := rfl
      result := rfl
      row := rfl
      statement := sameStatement (length_bindAll _) hplanned.spelled_eq fun raw hraw => hplanned.raw_at hraw
      followUp := by
        unfold Plan.compile
        cases hlater : p.followUp with
        | none => exact .none
        | some later =>
          have hspelled := spelled_reselect (t := t) (hplanned.update_of_followUp hlater)
          rw [← hplanned.followUp_eq hlater] at hspelled
          have hraws : ∀ raw ∈ ([] : List Raw), ∃ n, PiecesAt later.pieces n (rawPieces t op raw) :=
            fun raw hraw => absurd hraw List.not_mem_nil
          exact .some (sameStatement (length_bindAll _) hspelled hraws) }

end EntitySql.Query
