import EntitySql.Proofs.Query.Planned
import EntitySql.Proofs.Text.Runs

/-! The pieces of a statement of an operation. Besides the name of the table, names of its columns and slots there is
only text without double quotes, and text that the operation gives itself. -/
namespace EntitySql.Query
open Fragment (Raw)
variable {t : Table} {op : Operation}

/-- A text that an operation gives: a part of its raw SQL, or the operator of a parameter. -/
inductive Given (op : Operation) : String → Prop where
  | raw {raw : Raw} {sql : String} (hraw : rawExpression? op = some raw ∨ rawPredicate? op = some raw)
      (hsql : .text sql ∈ raw.segments) : Given op sql
  | operator {p : Param} (hp : p ∈ op.params) : Given op p.comparison

/-- A text whose double quotes all stand in parts of a kind. -/
inductive QuotesOnly (own : String → Prop) : String → Prop where
  | plain {sql : String} (h : '"' ∉ sql.toList) : QuotesOnly own sql
  | part {sql : String} (h : own sql) : QuotesOnly own sql
  | append {a b : String} (ha : QuotesOnly own a) (hb : QuotesOnly own b) : QuotesOnly own (a ++ b)

theorem QuotesOnly.around {own : String → Prop} {before sql after : String} (h : own sql)
    (hbefore : '"' ∉ before.toList) (hafter : '"' ∉ after.toList) : QuotesOnly own (before ++ sql ++ after) :=
  .append (.append (.plain hbefore) (.part h)) (.plain hafter)

/-- A piece that names no table but a given one, no columns but its, and quotes nothing else by itself. -/
def Piece.On (t : Table) (op : Operation) : Piece → Prop
  | name column => column ∈ columnNames t
  | object table => table = t.objectName
  | text sql => QuotesOnly (Given op) sql
  | nullSafeEquals => True
  | slot _ => True

@[simp]
theorem Piece.on_name {column : String} : (name column).On t op ↔ column ∈ columnNames t :=
  Iff.rfl

@[simp]
theorem Piece.on_object {table : ObjectName} : (object table).On t op ↔ table = t.objectName :=
  Iff.rfl

@[simp]
theorem Piece.on_slot {s : Slot} : (slot s).On t op :=
  trivial

@[simp]
theorem Piece.on_text {sql : String} (h : '"' ∉ sql.toList) : (text sql).On t op :=
  .plain h

/-- All pieces are on a table. -/
def AllOn (t : Table) (op : Operation) (pieces : List Piece) : Prop :=
  ∀ piece ∈ pieces, piece.On t op

@[simp]
theorem allOn_nil : AllOn t op [] := by
  simp [AllOn]

@[simp]
theorem allOn_cons {piece : Piece} {rest : List Piece} :
    AllOn t op (piece :: rest) ↔ piece.On t op ∧ AllOn t op rest := by
  simp [AllOn]

@[simp]
theorem allOn_append {a b : List Piece} : AllOn t op (a ++ b) ↔ AllOn t op a ∧ AllOn t op b := by
  simp [AllOn, or_imp, forall_and]

theorem mem_separated {p : Piece} {separator : String} {groups : List (List Piece)}
    (h : p ∈ separated separator groups) : p = .text separator ∨ ∃ group ∈ groups, p ∈ group := by
  unfold separated at h
  induction groups with
  | nil => cases h
  | cons group groups ih =>
    cases groups with
    | nil => exact .inr ⟨group, List.mem_cons_self, by simpa using h⟩
    | cons next rest =>
      rw [List.intercalate_cons_cons, List.append_assoc, List.mem_append, List.singleton_append, List.mem_cons] at h
      obtain hgroup | hseparator | hrest := h
      · exact .inr ⟨group, List.mem_cons_self, hgroup⟩
      · exact .inl hseparator
      · obtain heq | ⟨g, hg, hp⟩ := ih hrest
        · exact .inl heq
        · exact .inr ⟨g, List.mem_cons_of_mem _ hg, hp⟩

theorem allOn_separated {α : Type} {separator : String} (hseparator : '"' ∉ separator.toList) {group : α → List Piece}
    {xs : List α} (h : ∀ x ∈ xs, AllOn t op (group x)) : AllOn t op (separated separator (xs.map group)) := by
  intro piece hpiece
  obtain rfl | ⟨pieces, hpieces, hmem⟩ := mem_separated hpiece
  · exact Piece.on_text hseparator
  · obtain ⟨x, hx, rfl⟩ := List.mem_map.1 hpieces
    exact h x hx piece hmem

/-- A predicate on a column of a table, by the operator of a parameter. -/
structure Predicate.On (t : Table) (op : Operation) (p : Predicate) : Prop where
  column : p.column ∈ columnNames t
  operator : ∀ operator, p.comparison = .folded operator ∨ p.comparison = .plain operator → Given op operator

theorem allOn_predicate {p : Predicate} (h : p.On t op) : AllOn t op p.pieces := by
  unfold Predicate.pieces
  cases hcomparison : p.comparison with
  | folded operator =>
    have htext : (Piece.text (") " ++ operator ++ " LOWER(")).On t op :=
      .around (h.operator operator (.inl hcomparison)) (by simp) (by simp)
    simp [h.column, htext]
  | nullSafe => simp [h.column, Piece.On, QuotesOnly.plain]
  | plain operator =>
    have htext : (Piece.text (" " ++ operator ++ " ")).On t op :=
      .around (h.operator operator (.inr hcomparison)) (by simp) (by simp)
    simp [h.column, htext]

theorem allOn_condition {c : Condition} (h : ∀ p ∈ c.predicates, p.On t op) : AllOn t op c.pieces := by
  cases c with
  | one p => exact allOn_predicate (h p (List.mem_singleton_self p))
  | anyOf ps =>
    have halternatives : AllOn t op (separated " OR " (ps.map Predicate.pieces)) :=
      allOn_separated (by simp) fun p hp => allOn_predicate (h p hp)
    simp [Condition.pieces, halternatives]

theorem allOn_filter {f : Filter} (hconditions : ∀ c ∈ f.conditions, ∀ p ∈ c.predicates, p.On t op)
    (hraw : AllOn t op f.raw) : AllOn t op f.pieces := by
  have hjoined : AllOn t op (separated " AND " (f.conditions.map Condition.pieces)) :=
    allOn_separated (by simp) fun c hc => allOn_condition (hconditions c hc)
  have hconjunction : (Piece.text (" " ++ f.conjunction.sql ++ " (")).On t op :=
    Piece.on_text (by cases f.conjunction <;> decide)
  unfold Filter.pieces
  split
  · simp
  · simpa using hraw
  · simpa using hjoined
  · simp [hconjunction, hjoined, hraw]

theorem allOn_raw {raw : Raw} (h : rawExpression? op = some raw ∨ rawPredicate? op = some raw) :
    AllOn t op (rawPieces t op raw) := by
  intro piece hpiece
  obtain ⟨segment, hsegment, rfl⟩ := List.mem_map.1 hpiece
  cases segment with
  | text sql => exact .part (.raw h hsegment)
  | placeholder name path => trivial

/-- Conditions compare columns of the table only, by the operators of parameters. -/
theorem on_of_condition {params : List Param} (hparams : ∀ p ∈ params, p ∈ op.params) :
    ∀ c ∈ (params.map (bound t)).flatMap conditionsOf, ∀ p ∈ c.predicates, p.On t op := by
  intro c hc p hp
  obtain ⟨b, hb, hc⟩ := List.mem_flatMap.1 hc
  obtain ⟨q, hq, rfl⟩ := List.mem_map.1 hb
  have hmem : p ∈ (conditionsOf (bound t q)).flatMap (·.predicates) := List.mem_flatMap.2 ⟨c, hc, hp⟩
  rw [predicates_conditionsOf] at hmem
  obtain ⟨target, htarget, rfl⟩ := List.mem_map.1 hmem
  refine ⟨List.mem_map_of_mem (mem_targetsOf htarget).1, fun operator hoperator => ?_⟩
  have hgiven : operator = q.comparison := by
    unfold predicateOf comparisonOf at hoperator
    dsimp only at hoperator
    split at hoperator
    · simpa [bound, eq_comm] using hoperator
    · split at hoperator
      · simp at hoperator
      · simpa [bound, eq_comm] using hoperator
  exact hgiven ▸ .operator (hparams q hq)

section
variable {params : List Param} (hparams : ∀ p ∈ params, p ∈ op.params)
include hparams

theorem allOn_paramFilter : AllOn t op (paramFilter (params.map (bound t))).pieces :=
  allOn_filter (on_of_condition hparams) allOn_nil

theorem allOn_fullFilter : AllOn t op (fullFilter t op (params.map (bound t))).pieces := by
  unfold fullFilter
  split
  · next hraw => exact allOn_filter (on_of_condition hparams) (allOn_raw (.inr hraw))
  · exact allOn_paramFilter hparams

end

theorem allOn_columns {columns : List String} (h : ∀ name ∈ columns, name ∈ columnNames t) :
    AllOn t op (Selection.columns columns).pieces :=
  allOn_separated (by simp) fun name hname => by simp [h name hname]

theorem allOn_selection {selection : Selection} {row : RowShape} (h : selectionOf t op = .ok (selection, row)) :
    AllOn t op selection.pieces := by
  obtain ⟨-, columns, rfl, hcolumns⟩ | ⟨raw, hraw, rfl⟩ := selection_cases h
  · exact allOn_columns hcolumns
  · exact allOn_raw (.inl hraw)

theorem allOn_order : AllOn t op (orderPieces (orderColumns t op)) := by
  have hkeys : ∀ key ∈ orderColumns t op, key.1 ∈ columnNames t := by
    intro key hkey
    obtain ⟨sort, -, hmap⟩ := List.mem_filterMap.1 hkey
    obtain ⟨column, hcolumn, rfl⟩ := Option.map_eq_some_iff.1 hmap
    exact List.mem_map_of_mem (List.mem_of_find?_eq_some hcolumn)
  unfold orderPieces
  split
  · exact allOn_nil
  · have hdirection : ∀ direction : Direction, (Piece.text (" " ++ direction.sql)).On t op := by
      intro direction
      cases direction <;> exact Piece.on_text (by decide)
    refine allOn_cons.2 ⟨Piece.on_text (by simp), allOn_separated (by simp) fun key hkey => ?_⟩
    simp [hkeys key hkey, hdirection]

theorem quote_notMem_toString (n : ℕ) : '"' ∉ (toString n).toList := fun hquote => by
  cases Text.isDigit_of_mem_toString hquote

theorem allOn_limit (limit : Option UInt64) : AllOn t op (limitPieces limit) := by
  cases limit with
  | none => exact allOn_nil
  | some n =>
    have htext : (Piece.text (" " ++ Dialect.limit n)).On t op :=
      Piece.on_text (by simpa [Dialect.limit] using quote_notMem_toString n.toNat)
    simp [limitPieces, htext]

theorem allOn_insert {values : List (String × Slot)} (h : ∀ value ∈ values, value.1 ∈ columnNames t) :
    AllOn t op (Statement.insert t.objectName values).pieces := by
  have hnames : AllOn t op (separated ", " (values.map fun value => [.name value.1])) :=
    allOn_separated (by simp) fun value hvalue => by simp [h value hvalue]
  have hslots : AllOn t op (separated ", " (values.map fun value => [.slot value.2])) :=
    allOn_separated (by simp) fun value _ => by simp
  cases values with
  | nil => simp [Statement.pieces]
  | cons value values =>
    simp only [Statement.pieces, allOn_append, hnames, hslots]
    simp

theorem allOn_update {assignments : List (String × Slot)} {filter : Filter}
    (h : ∀ assignment ∈ assignments, assignment.1 ∈ columnNames t) (hfilter : AllOn t op filter.pieces) :
    AllOn t op (Statement.update t.objectName assignments filter).pieces := by
  have hassigned : AllOn t op
      (separated ", " (assignments.map fun assignment => [.name assignment.1, .text " = ", .slot assignment.2])) :=
    allOn_separated (by simp) fun assignment hassignment => by simp [h assignment hassignment]
  simp only [Statement.pieces, allOn_append, hassigned, hfilter]
  simp

theorem allOn_select {selection : Selection} {filter : Filter} {order : List (String × Direction)}
    {limit : Option UInt64} (hselection : AllOn t op selection.pieces) (hfilter : AllOn t op filter.pieces)
    (horder : AllOn t op (orderPieces order)) :
    AllOn t op (Statement.select t.objectName selection filter order limit).pieces := by
  simp [Statement.pieces, hselection, hfilter, horder, allOn_limit]

theorem mem_insertValues {params : List BoundParam} {target : Target} (h : target ∈ insertValues t params) :
    target.column ∈ t.columns.toList := by
  obtain ⟨⟨column, i⟩, hmem, hvalue⟩ := List.mem_filterMap.1 h
  obtain ⟨value, -, rfl⟩ := Option.map_eq_some_iff.1 hvalue
  exact List.fst_mem_of_mem_zipIdx hmem

theorem mem_assignedTargets {target : Target} (h : target ∈ assignedTargets (valueParams (boundParams t op))) :
    target.column ∈ t.columns.toList := by
  obtain ⟨b, hb, htarget⟩ := List.mem_flatMap.1 h
  obtain ⟨p, -, rfl⟩ := List.mem_map.1 (List.mem_filter.1 hb).1
  exact (mem_targetsOf (List.mem_filter.1 htarget).1).1

/-- The statements of an operation name no table but its own, and no columns but those of the table. -/
theorem Planned.allOn {p : Plan} (h : Planned t op p) {s : Statement} (hs : s = p.statement ∨ p.followUp = some s) :
    AllOn t op s.pieces := by
  have hfiltering : ∀ p ∈ op.params.filter fun p => p.role = .whereFilter, p ∈ op.params :=
    fun _ hp => (List.mem_filter.1 hp).1
  obtain rfl | hfollow := hs
  · cases h with
    | insert =>
      refine allOn_insert (List.forall_mem_map.2 fun target htarget => ?_)
      exact List.mem_map_of_mem (mem_insertValues htarget)
    | update =>
      refine allOn_update (List.forall_mem_map.2 fun target htarget => ?_) ?_
      · exact List.mem_map_of_mem (mem_assignedTargets htarget)
      · rw [filterParams_boundParams]
        exact allOn_fullFilter hfiltering
    | delete | count => simpa [Statement.pieces, boundParams] using allOn_fullFilter fun _ hp => hp
    | select _ hselection =>
      exact allOn_select (allOn_selection hselection) (allOn_fullFilter fun _ hp => hp) allOn_order
  · rw [h.followUp_eq hfollow, reselect, filterParams_boundParams]
    exact allOn_select (allOn_columns fun _ hname => hname) (allOn_paramFilter hfiltering) allOn_nil

/-- The table of a statement. -/
def Statement.table : Statement → ObjectName
  | insert table _ => table
  | update table _ _ => table
  | delete table _ => table
  | count table _ => table
  | select table _ _ _ _ => table

theorem Statement.object_mem (s : Statement) : .object s.table ∈ s.pieces := by
  cases s with
  | insert table values => cases values <;> simp [Statement.pieces, Statement.table]
  | update | delete | count | select => simp [Statement.pieces, Statement.table]

/-- The statements of an operation name one table, that of the operation. -/
theorem Planned.object_mem_iff {p : Plan} (h : Planned t op p) {s : Statement}
    (hs : s = p.statement ∨ p.followUp = some s) {name : ObjectName} :
    .object name ∈ s.pieces ↔ name = t.objectName := by
  have hon := h.allOn hs
  refine ⟨fun hname => hon _ hname, ?_⟩
  rintro rfl
  have htable : s.table = t.objectName := hon _ s.object_mem
  exact htable ▸ s.object_mem

end EntitySql.Query
