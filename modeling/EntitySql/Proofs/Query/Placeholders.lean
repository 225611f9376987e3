import EntitySql.Proofs.Query.Bindings
import EntitySql.Proofs.Query.Pieces
import EntitySql.Proofs.Query.Readable

/-! The placeholders of a compiled statement: read from left to right they are numbered from one, and there is one
for each binding. The parts of a statement are built apart from each other; what makes it true is that none ends in
a number which the next one continues. -/
namespace EntitySql.Query
open Fragment (Raw Segment)
variable {mark : Char} {d : Dialect} {t : Table} {op : Operation} {a b : List Piece}

/-- Pieces that can follow any other: they begin with no digit. -/
structure Clause (mark : Char) (ps : List Piece) : Prop where
  readable : Readable mark ps
  first : ∀ p ∈ ps.head?, p.NoDigitFirst

theorem Clause.nil : Clause mark [] :=
  ⟨.nil, by simp⟩

theorem Readable.append (ha : Readable mark a) (hb : Clause mark b) : Readable mark (a ++ b) := by
  induction ha with
  | nil => exact hb.readable
  | text hmark _ ih => exact .text hmark ih
  | name hmark _ ih => exact .name hmark ih
  | object hns hmark _ ih => exact .object hns hmark ih
  | nullSafeEquals _ ih => exact .nullSafeEquals ih
  | @slot slot rest hnext _ ih =>
    refine .slot ?_ ih
    cases rest with
    | nil => exact hb.first
    | cons p rest => exact hnext

theorem Clause.append (ha : Clause mark a) (hb : Clause mark b) : Clause mark (a ++ b) := by
  refine ⟨ha.readable.append hb, ?_⟩
  cases a with
  | nil => exact hb.first
  | cons p a => exact ha.first

theorem Clause.text {sql : String} {rest : List Piece} (hmark : mark ∉ sql.toList)
    (hfirst : Fragment.NoDigitFirst sql.toList) (hrest : Readable mark rest) : Clause mark (.text sql :: rest) :=
  ⟨.text hmark hrest, fun p hp => by cases hp; exact hfirst⟩

theorem notMem_fixed {sql : String} (h : '$' ∉ sql.toList ∧ '?' ∉ sql.toList) :
    d.placeholderMark ∉ sql.toList := by
  cases d with
  | postgres => exact h.1
  | sqlite => exact h.2

theorem Readable.fixed {sql : String} {rest : List Piece} (h : '$' ∉ sql.toList ∧ '?' ∉ sql.toList)
    (hrest : Readable d.placeholderMark rest) : Readable d.placeholderMark (.text sql :: rest) :=
  .text (notMem_fixed h) hrest

theorem Clause.fixed {sql : String} {rest : List Piece} (h : '$' ∉ sql.toList ∧ '?' ∉ sql.toList)
    (hfirst : Fragment.NoDigitFirst sql.toList) (hrest : Readable d.placeholderMark rest) :
    Clause d.placeholderMark (.text sql :: rest) :=
  .text (notMem_fixed h) hfirst hrest

theorem Clause.separated {separator : String} {groups : List (List Piece)}
    (hfixed : '$' ∉ separator.toList ∧ '?' ∉ separator.toList) (hfirst : Fragment.NoDigitFirst separator.toList)
    (h : ∀ group ∈ groups, Clause d.placeholderMark group) :
    Clause d.placeholderMark (separated separator groups) := by
  unfold Query.separated
  induction groups with
  | nil => exact .nil
  | cons group groups ih =>
    obtain ⟨hgroup, hgroups⟩ := List.forall_mem_cons.1 h
    cases groups with
    | nil => simpa using hgroup
    | cons next rest =>
      rw [List.intercalate_cons_cons, List.append_assoc]
      exact hgroup.append (.fixed hfixed hfirst (ih hgroups).readable)

/-- The mark occurs in nothing that the table and the operation bring into a statement. -/
structure MarkFree (mark : Char) (t : Table) (op : Operation) : Prop where
  ns : ∀ ns ∈ t.ns, mark ∉ ns.toList
  table : mark ∉ t.name.toList
  columns : ∀ column ∈ t.columns.toList, mark ∉ column.name.toList
  operators : ∀ p ∈ op.params, mark ∉ p.operator.toList
  predicate : ∀ predicate ∈ op.rawPredicate, mark ∉ predicate.sql.toList
  expression : ∀ sql ∈ op.returnExpression, mark ∉ sql.toList

theorem readable_segments {ss : List Segment} (hchain : ss.IsChain Segment.Apart)
    (hmark : ∀ s ∈ ss, mark ∉ s.chars) : Readable mark (rawPieces t op ⟨ss⟩) := by
  induction ss with
  | nil => exact .nil
  | cons s ss ih =>
    obtain ⟨hnext, hss⟩ := List.isChain_cons.1 hchain
    obtain ⟨hs, hrest⟩ := List.forall_mem_cons.1 hmark
    cases s with
    | text sql => exact .text hs (ih hss hrest)
    | placeholder name path =>
      refine .slot ?_ (ih hss hrest)
      intro p hp
      cases ss with
      | nil => cases hp
      | cons next ss =>
        have happart := hnext next rfl
        cases hp
        cases next with
        | text sql => exact happart
        | placeholder name path => trivial

theorem readable_rawPieces {sql : String} (h : d.placeholderMark ∉ sql.toList) :
    Readable d.placeholderMark (rawPieces t op (Raw.ofSql sql)) := by
  refine readable_segments (Fragment.isChain_ofSql sql) fun s hs hmem => ?_
  obtain hmem | hspace := Fragment.mem_chars_ofSql hs hmem
  · exact h hmem
  · cases d <;> cases hspace

theorem notMem_trim {s : String} (h : mark ∉ s.toList) : mark ∉ (Text.trim s).toList := by
  rw [Text.trim, String.toList_ofList]
  exact fun hmem => h (Fragment.mem_of_mem_trimChars hmem)

theorem clause_predicate {p : Param} {target : Target} (hoperator : d.placeholderMark ∉ p.operator.toList)
    (hcolumn : d.placeholderMark ∉ target.column.name.toList) :
    Clause d.placeholderMark (predicateOf p target).pieces := by
  have hcomparison : d.placeholderMark ∉ p.comparison.toList := notMem_trim hoperator
  have hspace : d.placeholderMark ∉ " ".toList := notMem_fixed (by decide)
  unfold predicateOf comparisonOf
  split
  · have hlower : d.placeholderMark ∉ "LOWER(".toList := notMem_fixed (by decide)
    have hclose : d.placeholderMark ∉ ")".toList := notMem_fixed (by decide)
    have hmiddle : d.placeholderMark ∉ (") " ++ p.comparison ++ " LOWER(").toList := by
      have hleft : d.placeholderMark ∉ ") ".toList := notMem_fixed (by decide)
      have hright : d.placeholderMark ∉ " LOWER(".toList := notMem_fixed (by decide)
      simp only [String.toList_append, List.mem_append, not_or]
      exact ⟨⟨hleft, hcomparison⟩, hright⟩
    refine .text hlower ⟨'L', rfl, rfl⟩ (.name hcolumn (.text hmiddle (.slot ?_ (.text hclose .nil))))
    intro q hq
    cases hq
    exact ⟨')', rfl, rfl⟩
  · split
    · exact ⟨.name hcolumn (.text hspace (.nullSafeEquals (.text hspace (.slot (by simp) .nil)))),
        fun q hq => by cases hq; trivial⟩
    · have hmiddle : d.placeholderMark ∉ (" " ++ p.comparison ++ " ").toList := by
        simp only [String.toList_append, List.mem_append, not_or]
        exact ⟨⟨hspace, hcomparison⟩, hspace⟩
      exact ⟨.name hcolumn (.text hmiddle (.slot (by simp) .nil)), fun q hq => by cases hq; trivial⟩

theorem clause_closing : Clause d.placeholderMark [.text ")"] :=
  .fixed (by decide) ⟨')', rfl, rfl⟩ .nil

theorem clause_condition {c : Condition} (h : ∀ q ∈ c.predicates, Clause d.placeholderMark q.pieces) :
    Clause d.placeholderMark c.pieces := by
  cases c with
  | one q => exact h q (by simp [Condition.predicates])
  | anyOf qs =>
    have halternatives : Clause d.placeholderMark (separated " OR " (qs.map Predicate.pieces)) := by
      refine .separated (by decide) ⟨' ', rfl, rfl⟩ ?_
      intro group hgroup
      obtain ⟨q, hq, rfl⟩ := List.mem_map.1 hgroup
      exact h q hq
    exact (Clause.fixed (by decide) ⟨'(', rfl, rfl⟩ halternatives.readable).append clause_closing

theorem clause_filter {f : Filter} (hconditions : ∀ c ∈ f.conditions, Clause d.placeholderMark c.pieces)
    (hraw : Readable d.placeholderMark f.raw) : Clause d.placeholderMark f.pieces := by
  have hwhere : ∀ {ps : List Piece}, Readable d.placeholderMark ps →
      Clause d.placeholderMark (.text " WHERE " :: ps) :=
    fun hps => .fixed (by decide) ⟨' ', rfl, rfl⟩ hps
  have hjoined : Clause d.placeholderMark (separated " AND " (f.conditions.map Condition.pieces)) := by
    refine .separated (by decide) ⟨' ', rfl, rfl⟩ ?_
    intro group hgroup
    obtain ⟨c, hc, rfl⟩ := List.mem_map.1 hgroup
    exact hconditions c hc
  unfold Filter.pieces
  split
  · exact .nil
  · exact hwhere hraw
  · exact hwhere hjoined.readable
  · refine ((hwhere hjoined.readable).append (.text ?_ ⟨' ', by simp, rfl⟩ hraw)).append clause_closing
    cases f.conjunction <;> exact notMem_fixed (by decide)

theorem MarkFree.clause_predicate (hfree : MarkFree d.placeholderMark t op) {p : Param} (hp : p ∈ op.params)
    {target : Target} (htarget : target ∈ targetsOf t p) :
    Clause d.placeholderMark (predicateOf p target).pieces :=
  Query.clause_predicate (hfree.operators p hp) (hfree.columns _ (mem_targetsOf htarget).1)

theorem MarkFree.clause_conditions (hfree : MarkFree d.placeholderMark t op) {params : List Param}
    (hparams : params ⊆ op.params) :
    ∀ c ∈ (params.map (bound t)).flatMap conditionsOf, Clause d.placeholderMark c.pieces := by
  intro c hc
  obtain ⟨b, hb, hc⟩ := List.mem_flatMap.1 hc
  obtain ⟨p, hp, rfl⟩ := List.mem_map.1 hb
  refine clause_condition fun q hq => ?_
  have hmem := List.mem_flatMap.2 ⟨c, hc, hq⟩
  rw [predicates_conditionsOf] at hmem
  obtain ⟨target, htarget, rfl⟩ := List.mem_map.1 hmem
  exact hfree.clause_predicate (hparams hp) htarget

theorem MarkFree.clause_paramFilter (hfree : MarkFree d.placeholderMark t op) {params : List Param}
    (hparams : params ⊆ op.params) : Clause d.placeholderMark (paramFilter (params.map (bound t))).pieces :=
  clause_filter (hfree.clause_conditions hparams) .nil

theorem MarkFree.clause_fullFilter (hfree : MarkFree d.placeholderMark t op) {params : List Param}
    (hparams : params ⊆ op.params) : Clause d.placeholderMark (fullFilter t op (params.map (bound t))).pieces := by
  unfold fullFilter
  cases hpredicate : op.rawPredicate with
  | none => exact hfree.clause_paramFilter hparams
  | some predicate =>
    rw [rawPredicate?, hpredicate, Option.map_some]
    exact clause_filter (hfree.clause_conditions hparams) (readable_rawPieces (hfree.predicate _ hpredicate))

theorem MarkFree.clause_object (hfree : MarkFree d.placeholderMark t op) {sql : String} {rest : List Piece}
    (hfixed : '$' ∉ sql.toList ∧ '?' ∉ sql.toList) (hfirst : Fragment.NoDigitFirst sql.toList)
    (hrest : Readable d.placeholderMark rest) :
    Clause d.placeholderMark (.text sql :: .object t.objectName :: rest) :=
  .fixed hfixed hfirst (.object hfree.ns hfree.table hrest)

theorem MarkFree.notMem_name (hfree : MarkFree mark t op) {name : String} (h : name ∈ columnNames t) :
    mark ∉ name.toList := by
  obtain ⟨column, hcolumn, rfl⟩ := List.mem_map.1 h
  exact hfree.columns column hcolumn

theorem MarkFree.clause_names (hfree : MarkFree d.placeholderMark t op) {names : List String}
    (hnames : ∀ name ∈ names, name ∈ columnNames t) :
    Clause d.placeholderMark (separated ", " (names.map fun name => [.name name])) := by
  refine .separated (by decide) ⟨',', rfl, rfl⟩ ?_
  intro group hgroup
  obtain ⟨name, hname, rfl⟩ := List.mem_map.1 hgroup
  exact ⟨.name (hfree.notMem_name (hnames name hname)) .nil, fun p hp => by cases hp; trivial⟩

theorem MarkFree.readable_selection (hfree : MarkFree d.placeholderMark t op) {selection : Selection}
    {row : RowShape} (h : selectionOf t op = .ok (selection, row)) :
    Readable d.placeholderMark selection.pieces := by
  obtain ⟨-, names, rfl, hnames⟩ | ⟨raw, hraw, rfl⟩ := selection_cases h
  · exact (hfree.clause_names hnames).readable
  · unfold rawExpression? at hraw
    split at hraw
    · obtain ⟨sql, hsql, rfl⟩ := Option.map_eq_some_iff.1 hraw
      exact readable_rawPieces (hfree.expression sql hsql)
    · cases hraw

theorem MarkFree.clause_order (hfree : MarkFree d.placeholderMark t op) :
    Clause d.placeholderMark (orderPieces (orderColumns t op)) := by
  have hkeys : ∀ key ∈ orderColumns t op, d.placeholderMark ∉ key.1.toList := by
    intro key hkey
    obtain ⟨sort, -, hmap⟩ := List.mem_filterMap.1 hkey
    obtain ⟨column, hcolumn, rfl⟩ := Option.map_eq_some_iff.1 hmap
    exact hfree.columns column (List.mem_of_find?_eq_some hcolumn)
  unfold orderPieces
  split
  · exact .nil
  · refine .fixed (by decide) ⟨' ', rfl, rfl⟩ (Clause.readable (.separated (by decide) ⟨',', rfl, rfl⟩ ?_))
    intro group hgroup
    obtain ⟨⟨name, direction⟩, hkey, rfl⟩ := List.mem_map.1 hgroup
    refine ⟨.name (hkeys _ hkey) (.text ?_ .nil), fun p hp => by cases hp; trivial⟩
    cases direction <;> exact notMem_fixed (by decide)

theorem clause_limit (limit : Option UInt64) : Clause d.placeholderMark (limitPieces limit) := by
  cases limit with
  | none => exact .nil
  | some n =>
    refine .text ?_ ⟨' ', by simp, rfl⟩ .nil
    have hspace : d.placeholderMark ∉ " ".toList := notMem_fixed (by decide)
    have hlimit : d.placeholderMark ∉ "LIMIT ".toList := notMem_fixed (by decide)
    simp only [Dialect.limit, String.toList_append, List.mem_append, not_or]
    exact ⟨hspace, hlimit, notMem_toString n.toNat⟩

theorem MarkFree.readable_select (hfree : MarkFree d.placeholderMark t op) {selection : Selection}
    {filter : Filter} {order : List (String × Direction)} {limit : Option UInt64}
    (hselection : Readable d.placeholderMark selection.pieces) (hfilter : Clause d.placeholderMark filter.pieces)
    (horder : Clause d.placeholderMark (orderPieces order)) :
    Readable d.placeholderMark (Statement.select t.objectName selection filter order limit).pieces := by
  have htable : Clause d.placeholderMark [.text " FROM ", .object t.objectName] :=
    hfree.clause_object (by decide) ⟨' ', rfl, rfl⟩ .nil
  have hhead : Readable d.placeholderMark (.text "SELECT " :: selection.pieces) :=
    .fixed (by decide) hselection
  exact (((hhead.append htable).append hfilter).append horder).append (clause_limit limit)

theorem MarkFree.readable_insert (hfree : MarkFree d.placeholderMark t op) {values : List (String × Slot)}
    (hnames : ∀ value ∈ values, value.1 ∈ columnNames t) :
    Readable d.placeholderMark (Statement.insert t.objectName values).pieces := by
  have hstart : ∀ {rest : List Piece}, Readable d.placeholderMark rest →
      Readable d.placeholderMark (.text "INSERT INTO " :: .object t.objectName :: rest) :=
    fun hrest => .fixed (by decide) (.object hfree.ns hfree.table hrest)
  unfold Statement.pieces
  split
  case h_1 heq =>
    cases heq
    exact hstart (.fixed (by decide) .nil)
  case h_2 heq =>
    cases heq
    have hopen : Readable d.placeholderMark [.text "INSERT INTO ", .object t.objectName, .text " ("] :=
      hstart (.fixed (by decide) .nil)
    have hcolumns : Clause d.placeholderMark (separated ", " (values.map fun value => [.name value.1])) := by
      have hclause := @MarkFree.clause_names d t op hfree (values.map Prod.fst) (by simpa using hnames)
      rwa [List.map_map] at hclause
    have hbetween : Clause d.placeholderMark [.text ") VALUES ("] := .fixed (by decide) ⟨')', rfl, rfl⟩ .nil
    have hslots : Clause d.placeholderMark (separated ", " (values.map fun value => [.slot value.2])) := by
      refine .separated (by decide) ⟨',', rfl, rfl⟩ ?_
      intro group hgroup
      obtain ⟨value, -, rfl⟩ := List.mem_map.1 hgroup
      exact ⟨.slot (by simp) .nil, fun p hp => by cases hp; trivial⟩
    exact (((hopen.append hcolumns).append hbetween).append hslots).append clause_closing
  all_goals next heq => cases heq

theorem MarkFree.readable_update (hfree : MarkFree d.placeholderMark t op) {assignments : List (String × Slot)}
    {filter : Filter} (hnames : ∀ assignment ∈ assignments, assignment.1 ∈ columnNames t)
    (hfilter : Clause d.placeholderMark filter.pieces) :
    Readable d.placeholderMark (Statement.update t.objectName assignments filter).pieces := by
  have hassigned : Clause d.placeholderMark
      (separated ", " (assignments.map fun assignment => [.name assignment.1, .text " = ", .slot assignment.2])) := by
    refine .separated (by decide) ⟨',', rfl, rfl⟩ ?_
    intro group hgroup
    obtain ⟨assignment, hassignment, rfl⟩ := List.mem_map.1 hgroup
    exact ⟨.name (hfree.notMem_name (hnames assignment hassignment)) (.fixed (by decide) (.slot (by simp) .nil)),
      fun p hp => by cases hp; trivial⟩
  have hhead : Clause d.placeholderMark [.text "UPDATE ", .object t.objectName, .text " SET "] :=
    hfree.clause_object (by decide) ⟨'U', rfl, rfl⟩ (.fixed (by decide) .nil)
  exact (hhead.readable.append hassigned).append hfilter

theorem Planned.readable {p : Plan} (h : Planned t op p) (hfree : MarkFree d.placeholderMark t op) :
    Readable d.placeholderMark p.statement.pieces := by
  cases h with
  | insert =>
    refine hfree.readable_insert fun value hvalue => ?_
    obtain ⟨target, htarget, rfl⟩ := List.mem_map.1 hvalue
    exact List.mem_map_of_mem (mem_insertValues htarget)
  | update =>
    refine hfree.readable_update (fun value hvalue => ?_) ?_
    · obtain ⟨target, htarget, rfl⟩ := List.mem_map.1 hvalue
      exact List.mem_map_of_mem (mem_assignedTargets htarget)
    · rw [filterParams_boundParams]
      exact hfree.clause_fullFilter (List.filter_subset_self _)
  | delete =>
    have hhead : Clause d.placeholderMark [.text "DELETE FROM ", .object t.objectName] :=
      hfree.clause_object (by decide) ⟨'D', rfl, rfl⟩ .nil
    exact hhead.readable.append (hfree.clause_fullFilter (List.Subset.refl _))
  | count =>
    have hhead : Clause d.placeholderMark [.text "SELECT COUNT(*) FROM ", .object t.objectName] :=
      hfree.clause_object (by decide) ⟨'S', rfl, rfl⟩ .nil
    exact hhead.readable.append (hfree.clause_fullFilter (List.Subset.refl _))
  | select _ hselection =>
    exact hfree.readable_select (hfree.readable_selection hselection)
      (hfree.clause_fullFilter (List.Subset.refl _)) hfree.clause_order

theorem MarkFree.readable_reselect (hfree : MarkFree d.placeholderMark t op) :
    Readable d.placeholderMark (reselect t (boundParams t op)).pieces := by
  have hcolumns : Readable d.placeholderMark (Selection.columns (columnNames t)).pieces :=
    (hfree.clause_names fun _ h => h).readable
  have hfilter : Clause d.placeholderMark (paramFilter (filterParams (boundParams t op))).pieces := by
    rw [filterParams_boundParams]
    exact hfree.clause_paramFilter (List.filter_subset_self _)
  exact hfree.readable_select hcolumns hfilter .nil

theorem scan_sql {s : Statement} (h : Readable d.placeholderMark s.pieces) :
    scanPlaceholders d.placeholderMark (s.sql d).toList = (List.range' 1 s.slots.length).map toString :=
  scan_renderFrom h 1

/-- The placeholders of a statement and of its follow-up, read from left to right, are the numbers from one up to
the number of bindings. -/
theorem placeholders_numbered {compiled : CompiledOperation} (h : op.compile d t = .ok compiled)
    (hfree : MarkFree d.placeholderMark t op) :
    ∀ s ∈ compiled.statement :: compiled.followUp.toList,
      scanPlaceholders d.placeholderMark s.sql.toList = (List.range' 1 s.bindings.length).map toString := by
  obtain ⟨p, hplan, rfl⟩ := compile_eq_ok.1 h
  have hplanned := planned_of_plan hplan
  intro s hs
  obtain rfl | hs := List.mem_cons.1 hs
  · simp only [Plan.compile]
    rw [scan_sql (hplanned.readable hfree), length_bindAll]
  · obtain ⟨later, hlater, rfl⟩ := Option.map_eq_some_iff.1 (Option.mem_toList.1 hs)
    have hreadable : Readable d.placeholderMark later.pieces :=
      hplanned.followUp_eq hlater ▸ hfree.readable_reselect
    simp only [hlater, Option.map_some, Option.getD_some]
    rw [scan_sql hreadable, length_bindAll]

theorem award_markFree : MarkFree Dialect.postgres.placeholderMark badges award where
  ns := by decide
  table := by decide
  columns := by decide
  operators := by decide
  predicate := by decide
  expression := by decide

set_option maxRecDepth 4000 in
/-- Five values are bound by the update, and one by the select of the row after it. -/
theorem award_numbered : MarkFree Dialect.postgres.placeholderMark badges award ∧
    ∃ compiled, Operation.compile .postgres badges award = .ok compiled ∧
    scanPlaceholders '$' compiled.statement.sql.toList = ["1", "2", "3", "4", "5"] ∧
    compiled.followUp.map (scanPlaceholders '$' ·.sql.toList) = some ["1"] := by
  have hlengths : (Operation.compile .postgres badges award).toOption.map (fun compiled =>
      (compiled.statement.bindings.length, compiled.followUp.map (·.bindings.length))) = some (5, some 1) := by
    rw [Operation.compile_eq]
    cbv
  obtain ⟨compiled, h⟩ := award_compiles
  have hnumbered := placeholders_numbered h award_markFree
  rw [h, Except.toOption, Option.map_some, Option.some.injEq, Prod.mk.injEq] at hlengths
  obtain ⟨hstatement, hlater⟩ := hlengths
  obtain ⟨later, hfollow, hlater⟩ := Option.map_eq_some_iff.1 hlater
  refine ⟨award_markFree, compiled, h, ?_, ?_⟩
  · have hscan := hnumbered compiled.statement List.mem_cons_self
    rw [hstatement] at hscan
    exact hscan
  · have hscan := hnumbered later (by simp [hfollow])
    rw [hlater] at hscan
    rw [hfollow, Option.map_some]
    exact congrArg some hscan

end EntitySql.Query
