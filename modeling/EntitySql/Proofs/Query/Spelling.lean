import EntitySql.Proofs.Query.Placeholders
import EntitySql.Proofs.Query.Respelled

/-! The statements of tables that are spelled differently. Part by part they differ in their names only, so they have
the same tokens, with the quoted names of the one table in place of those of the other: no name, whatever it holds,
changes what stands around it. -/
namespace EntitySql
open Query
open Fragment (isPlain)

/-- An operation without raw SQL, whose operators hold no quotes and no colons. -/
structure Operation.Generated (op : Operation) : Prop where
  predicate : op.rawPredicate = none
  expression : op.returnExpression = none
  operators : ∀ p ∈ op.params, ∀ c ∈ p.operator.toList, isPlain c

namespace Query
variable {t t' : Table} {op : Operation} {p : Param} {R : String → String → Prop}

theorem plain_of_all {sql : String} (h : sql.toList.all isPlain = true) : ∀ c ∈ sql.toList, isPlain c :=
  List.all_eq_true.1 h

theorem plain_append {a b : String} (ha : ∀ c ∈ a.toList, isPlain c) (hb : ∀ c ∈ b.toList, isPlain c) :
    ∀ c ∈ (a ++ b).toList, isPlain c := by
  intro c hc
  rw [String.toList_append, List.mem_append] at hc
  exact hc.elim (ha c) (hb c)

theorem plain_comparison (h : ∀ c ∈ p.operator.toList, isPlain c) : ∀ c ∈ p.comparison.toList, isPlain c := by
  intro c hc
  rw [Param.comparison, Text.trim, String.toList_ofList] at hc
  exact h c (Fragment.mem_of_mem_trimChars hc)

theorem alike_where {cs cs' : List Condition} (h : List.Forall₂ (fun c c' => Alike R c.pieces c'.pieces) cs cs') :
    Alike R (Filter.pieces ⟨cs, .and, []⟩) (Filter.pieces ⟨cs', .and, []⟩) := by
  have hjoined : Alike R (separated " AND " (cs.map Condition.pieces)) (separated " AND " (cs'.map Condition.pieces)) :=
    alike_separated_map (plain_of_all rfl) (by decide) h
  cases h with
  | nil => exact .nil
  | cons => exact .text (plain_of_all rfl) hjoined

theorem Filter.opensPlain (f : Filter) : ∀ p ∈ f.pieces.head?, p.OpensPlain := by
  have hwhere : Piece.OpensPlain (.text " WHERE ") := by simp [Piece.OpensPlain]
  unfold Filter.pieces
  split <;> simp [hwhere]

theorem opensPlain_order (keys : List (String × Direction)) : ∀ p ∈ (orderPieces keys).head?, p.OpensPlain := by
  cases keys with
  | nil => simp [orderPieces]
  | cons key keys => simp [orderPieces, Piece.OpensPlain]

theorem opensPlain_limit (limit : Option UInt64) : ∀ p ∈ (limitPieces limit).head?, p.OpensPlain := by
  cases limit <;> simp [limitPieces, Piece.OpensPlain]

theorem alike_order {keys keys' : List (String × Direction)}
    (h : List.Forall₂ (fun k k' => R k.1 k'.1 ∧ k.2 = k'.2) keys keys') :
    Alike R (orderPieces keys) (orderPieces keys') := by
  have hdirection : ∀ direction : Direction, ∀ c ∈ direction.sql.toList, isPlain c := by
    intro direction
    cases direction <;> exact plain_of_all rfl
  have hkey : ∀ k k' : String × Direction, R k.1 k'.1 ∧ k.2 = k'.2 →
      Alike R [.name k.1, .text (" " ++ k.2.sql)] [.name k'.1, .text (" " ++ k'.2.sql)] := by
    intro k k' hk
    rw [← hk.2]
    exact .name hk.1 (by simp [Piece.OpensPlain]) (.text (plain_append (plain_of_all rfl) (hdirection _)) .nil)
  have hjoined : Alike R (separated ", " (keys.map fun k => [.name k.1, .text (" " ++ k.2.sql)]))
      (separated ", " (keys'.map fun k => [.name k.1, .text (" " ++ k.2.sql)])) :=
    alike_separated_map (plain_of_all rfl) (by decide) (h.imp hkey)
  cases h with
  | nil => exact .nil
  | cons => exact .text (plain_of_all rfl) hjoined

theorem alike_limit (limit : Option UInt64) : Alike R (limitPieces limit) (limitPieces limit) := by
  cases limit with
  | none => exact .nil
  | some n =>
    have hdigits : ∀ c ∈ (toString n.toNat).toList, isPlain c :=
      fun c hc => isPlain_of_isDigit (Text.isDigit_of_mem_toString hc)
    exact .text (plain_append (plain_of_all rfl) (plain_append (plain_of_all rfl) hdigits)) .nil

section
variable {o o' : ObjectName} {f f' : Filter} (hobject : ObjectAlike R o o')
include hobject

/-- The table after the word that introduces it, and what follows it. -/
theorem alike_table (sql : String) {a b : List Piece} (hplain : ∀ c ∈ sql.toList, isPlain c)
    (hopens : ∀ p ∈ a.head?, p.OpensPlain) (h : Alike R a b) :
    Alike R (.text sql :: .object o :: a) (.text sql :: .object o' :: b) :=
  .text hplain (.object hobject hopens h)

theorem alike_select {selection selection' : Selection} {keys keys' : List (String × Direction)}
    (limit : Option UInt64) (hselection : Alike R selection.pieces selection'.pieces)
    (hfilter : Alike R f.pieces f'.pieces) (horder : Alike R (orderPieces keys) (orderPieces keys')) :
    Alike R (Statement.select o selection f keys limit).pieces
      (Statement.select o' selection' f' keys' limit).pieces := by
  have hfrom : Alike R [.text " FROM ", .object o] [.text " FROM ", .object o'] :=
    alike_table hobject " FROM " (plain_of_all rfl) (by simp) .nil
  have hhead : Alike R (.text "SELECT " :: selection.pieces) (.text "SELECT " :: selection'.pieces) :=
    .text (plain_of_all rfl) hselection
  have hsource := hhead.append hfrom (by simp [Piece.OpensPlain])
  have hrows := hsource.append hfilter f.opensPlain
  exact (hrows.append horder (opensPlain_order keys)).append (alike_limit limit) (opensPlain_limit limit)

theorem alike_insert {values values' : List (String × Slot)}
    (h : List.Forall₂ (fun v v' => R v.1 v'.1) values values') :
    Alike R (Statement.insert o values).pieces (Statement.insert o' values').pieces := by
  have hnames : Alike R (separated ", " (values.map fun v => [.name v.1]))
      (separated ", " (values'.map fun v => [.name v.1])) :=
    alike_separated_map (plain_of_all rfl) (by decide) (h.imp fun _ _ hname => .name hname (by simp) .nil)
  have hslots : Alike R (separated ", " (values.map fun v => [.slot v.2]))
      (separated ", " (values'.map fun v => [.slot v.2])) :=
    alike_separated_map (plain_of_all rfl) (by decide) (h.imp fun _ _ _ => .slot .nil)
  cases h with
  | nil =>
    exact alike_table hobject "INSERT INTO " (plain_of_all rfl) (by simp [Piece.OpensPlain])
      (.text (plain_of_all rfl) .nil)
  | cons =>
    have hclosing : Alike R [.text ")"] [.text ")"] := .text (plain_of_all rfl) .nil
    have hvalues := hslots.append hclosing (by simp [Piece.OpensPlain])
    have hcolumns := hnames.append_text ") VALUES (" (plain_of_all rfl) (by decide) hvalues
    have hlist := Alike.text (@plain_of_all " (" rfl) hcolumns
    have hinsert := alike_table hobject "INSERT INTO " (plain_of_all rfl) (by simp [Piece.OpensPlain]) hlist
    simpa only [Statement.pieces, List.append_assoc, List.cons_append, List.nil_append] using hinsert

theorem alike_update {assignments assignments' : List (String × Slot)} {f f' : Filter}
    (h : List.Forall₂ (fun v v' => R v.1 v'.1) assignments assignments') (hfilter : Alike R f.pieces f'.pieces) :
    Alike R (Statement.update o assignments f).pieces (Statement.update o' assignments' f').pieces := by
  have hassigned : Alike R (separated ", " (assignments.map fun v => [.name v.1, .text " = ", .slot v.2]))
      (separated ", " (assignments'.map fun v => [.name v.1, .text " = ", .slot v.2])) :=
    alike_separated_map (plain_of_all rfl) (by decide) (h.imp fun _ _ hname =>
      .name hname (by simp [Piece.OpensPlain]) (.text (plain_of_all rfl) (.slot .nil)))
  have hrest := hassigned.append hfilter f.opensPlain
  exact alike_table hobject "UPDATE " (plain_of_all rfl) (by simp [Piece.OpensPlain]) (.text (plain_of_all rfl) hrest)

end

/-- The conditions of predicates that must all hold, or of which any may hold. -/
def conditionsFrom (all : Bool) (qs : List Predicate) : List Condition :=
  if all then qs.map .one
  else match qs with
    | [] => []
    | [q] => [.one q]
    | _ => [.anyOf qs]

theorem conditionsOf_eq (b : BoundParam) :
    conditionsOf b = conditionsFrom b.param.isComposite (b.targets.map (predicateOf b.param)) :=
  rfl

theorem alike_conditionsFrom (all : Bool) {qs qs' : List Predicate}
    (h : List.Forall₂ (fun q q' => Alike R q.pieces q'.pieces) qs qs') :
    List.Forall₂ (fun c c' => Alike R c.pieces c'.pieces) (conditionsFrom all qs) (conditionsFrom all qs') := by
  unfold conditionsFrom
  split
  · rw [List.forall₂_map_left_iff, List.forall₂_map_right_iff]
    exact h
  · have halternatives : Alike R (separated " OR " (qs.map Predicate.pieces))
        (separated " OR " (qs'.map Predicate.pieces)) := alike_separated_map (plain_of_all rfl) (by decide) h
    cases h with
    | nil => exact .nil
    | cons hq hqs =>
      cases hqs with
      | nil => exact .cons hq .nil
      | cons =>
        have hclosing : Alike R [.text ")"] [.text ")"] := .text (plain_of_all rfl) .nil
        have hclosed := halternatives.append hclosing (by simp [Piece.OpensPlain])
        exact .cons (.text (plain_of_all rfl) hclosed) .nil

/-- Parameters whose targets are columns of the table, with operators that hold no quotes and no colons. -/
structure Sound (t : Table) (b : BoundParam) : Prop where
  operator : ∀ c ∈ b.param.operator.toList, isPlain c
  columns : ∀ target ∈ b.targets, target.column ∈ t.columns.toList

theorem sound_boundParams (hop : op.Generated) : ∀ b ∈ boundParams t op, Sound t b := by
  intro b hb
  obtain ⟨p, hp, rfl⟩ := List.mem_map.1 hb
  exact ⟨hop.operators p hp, fun target htarget => (mem_targetsOf htarget).1⟩

theorem fullFilter_eq (hop : op.Generated) (params : List BoundParam) :
    fullFilter t op params = paramFilter params := by
  rw [fullFilter, hop.predicate]

section
variable (h : t.Respelled t')
include h

theorem objectAlike_respelled : ObjectAlike (t.SameName t') t.objectName t'.objectName := by
  have hname : t.SameName t' t.name t'.name := .table
  have hsome := h.ns
  unfold Table.objectName
  cases hns : t.ns with
  | none =>
    cases hns' : t'.ns with
    | none => exact .bare hname
    | some b => simp [hns, hns'] at hsome
  | some a =>
    cases hns' : t'.ns with
    | none => simp [hns, hns'] at hsome
    | some b => exact .qualified (.ns hns hns') hname

theorem alike_predicate {target : Target} (hoperator : ∀ c ∈ p.operator.toList, isPlain c)
    (htarget : target.column ∈ t.columns.toList) :
    Alike (t.SameName t') (predicateOf p target).pieces (predicateOf p (target.respelled t')).pieces := by
  have hname := h.sameName_column htarget
  have hcomparison := plain_comparison hoperator
  have hsame : comparisonOf p (target.respelled t').column = comparisonOf p target.column := by
    simp [comparisonOf, Target.respelled]
  have hclosed : Alike (t.SameName t') [.slot target.slot, .text ")"] [.slot (target.respelled t').slot, .text ")"] :=
    .slot (.text (plain_of_all rfl) .nil)
  unfold predicateOf
  rw [hsame]
  unfold comparisonOf
  split
  · have hmiddle : ∀ c ∈ (") " ++ p.comparison ++ " LOWER(").toList, isPlain c :=
      plain_append (plain_append (plain_of_all rfl) hcomparison) (plain_of_all rfl)
    exact .text (plain_of_all rfl) (.name hname (by simp [Piece.OpensPlain]) (.text hmiddle hclosed))
  · split
    · exact .name hname (by simp [Piece.OpensPlain])
        (.text (plain_of_all rfl) (.nullSafeEquals (.text (plain_of_all rfl) (.slot .nil))))
    · have hmiddle : ∀ c ∈ (" " ++ p.comparison ++ " ").toList, isPlain c :=
        plain_append (plain_append (plain_of_all rfl) hcomparison) (plain_of_all rfl)
      exact .name hname (by simp [Piece.OpensPlain]) (.text hmiddle (.slot .nil))

theorem alike_conditions {b : BoundParam} (hb : Sound t b) :
    List.Forall₂ (fun c c' => Alike (t.SameName t') c.pieces c'.pieces) (conditionsOf b)
      (conditionsOf (b.respelled t')) := by
  rw [conditionsOf_eq, conditionsOf_eq]
  apply alike_conditionsFrom
  rw [BoundParam.respelled, List.map_map, List.forall₂_map_left_iff, List.forall₂_map_right_iff, List.forall₂_same]
  exact fun target htarget => alike_predicate h hb.operator (hb.columns target htarget)

theorem alike_paramFilter {params : List BoundParam} (hparams : ∀ b ∈ params, Sound t b) :
    Alike (t.SameName t') (paramFilter params).pieces (paramFilter (params.map (BoundParam.respelled t'))).pieces := by
  apply alike_where
  rw [List.flatMap_map]
  induction params with
  | nil => exact .nil
  | cons b params ih =>
    obtain ⟨hb, hparams⟩ := List.forall_mem_cons.1 hparams
    rw [List.flatMap_cons, List.flatMap_cons]
    exact List.rel_append (alike_conditions h hb) (ih hparams)

theorem alike_fullFilter (hop : op.Generated) :
    Alike (t.SameName t') (fullFilter t op (boundParams t op)).pieces
      (fullFilter t' op (boundParams t' op)).pieces := by
  rw [fullFilter_eq hop, fullFilter_eq hop, boundParams_respelled h]
  exact alike_paramFilter h (sound_boundParams hop)

theorem alike_rowFilter (hop : op.Generated) :
    Alike (t.SameName t') (paramFilter (filterParams (boundParams t op))).pieces
      (paramFilter (filterParams (boundParams t' op))).pieces := by
  rw [filterParams_respelled h]
  exact alike_paramFilter h fun b hb => sound_boundParams hop b (List.mem_filter.1 hb).1

theorem alike_orderColumns :
    Alike (t.SameName t') (orderPieces (orderColumns t op)) (orderPieces (orderColumns t' op)) := by
  apply alike_order
  unfold orderColumns
  induction op.orderBy with
  | nil => exact .nil
  | cons key keys ih =>
    rw [List.filterMap_cons, List.filterMap_cons, h.column?_eq]
    cases hcolumn : t.column? key.field with
    | none => exact ih
    | some column => exact .cons ⟨h.sameName_column (List.mem_of_find?_eq_some hcolumn), rfl⟩ ih

theorem alike_columns :
    Alike (t.SameName t') (Selection.columns (columnNames t)).pieces (Selection.columns (columnNames t')).pieces := by
  apply alike_separated_map (plain_of_all rfl) (by decide)
  rw [columnNames, columnNames, h.columns_eq, List.map_map, List.forall₂_map_left_iff, List.forall₂_map_right_iff,
    List.forall₂_same]
  exact fun column hcolumn => .name (h.sameName_column hcolumn) (by simp) .nil

theorem alike_selection (hop : op.Generated) {selection selection' : Selection} {row row' : RowShape}
    (hselection : selectionOf t op = .ok (selection, row)) (hselection' : selectionOf t' op = .ok (selection', row')) :
    Alike (t.SameName t') selection.pieces selection'.pieces := by
  unfold selectionOf at hselection hselection'
  cases hkind : op.kind with
  | selectColumn =>
    simp only [hkind] at hselection hselection'
    cases hfield : op.returnColumn with
    | none =>
      rw [hfield] at hselection
      exact absurd hselection throw_ne_ok
    | some field =>
      simp only [hfield, h.column?_eq] at hselection hselection'
      cases hcolumn : t.column? field with
      | none =>
        rw [hcolumn] at hselection
        exact absurd hselection throw_ne_ok
      | some column =>
        simp only [hcolumn] at hselection hselection'
        cases hselection
        cases hselection'
        exact .name (h.sameName_column (List.mem_of_find?_eq_some hcolumn)) (by simp) .nil
  | selectRawExpression =>
    have hnone : rawExpression? op = none := by simp [rawExpression?, hop.expression]
    simp only [hkind, hnone] at hselection
    exact absurd hselection throw_ne_ok
  | selectEntity | insert | batchInsert | update | delete | count | «exists» =>
    simp only [hkind] at hselection hselection'
    cases hselection
    cases hselection'
    exact alike_columns h

theorem alike_statement (hop : op.Generated) {plan plan' : Plan} (hplan : Planned t op plan)
    (hplan' : Planned t' op plan') : Alike (t.SameName t') plan.statement.pieces plan'.statement.pieces := by
  have hobject := objectAlike_respelled h
  have hfilter := alike_fullFilter h hop
  have hvalues : ∀ targets : List Target, (∀ target ∈ targets, target.column ∈ t.columns.toList) →
      List.Forall₂ (fun v v' => t.SameName t' v.1 v'.1)
        (targets.map fun target => (target.column.name, target.slot))
        ((targets.map (Target.respelled t')).map fun target => (target.column.name, target.slot)) := by
    intro targets htargets
    rw [List.map_map, List.forall₂_map_left_iff, List.forall₂_map_right_iff, List.forall₂_same]
    exact fun target htarget => h.sameName_column (htargets target htarget)
  cases hplan <;> cases hplan'
  case insert.insert =>
    rw [insertValues_respelled h]
    exact alike_insert hobject (hvalues _ fun _ => mem_insertValues)
  case update.update =>
    rw [fullFilter_eq hop, fullFilter_eq hop, valueParams_respelled h, assignedTargets_respelled]
    exact alike_update hobject (hvalues _ fun _ => mem_assignedTargets) (alike_rowFilter h hop)
  case delete.delete => exact alike_table hobject "DELETE FROM " (plain_of_all rfl) (Filter.opensPlain _) hfilter
  case count.count => exact alike_table hobject "SELECT COUNT(*) FROM " (plain_of_all rfl) (Filter.opensPlain _) hfilter
  case select.select hselection _ _ _ _ hselection' =>
    exact alike_select hobject op.limit (alike_selection h hop hselection hselection') hfilter (alike_orderColumns h)
  -- the kind of an operation tells which of the forms its plan has
  all_goals
    exfalso
    clear hvalues hfilter
    cases hkind : op.kind <;> simp_all [OperationKind.isInsert, OperationKind.isSelect]

omit h in
theorem Planned.followUp_eq_ite {plan : Plan} (hplan : Planned t op plan) :
    plan.followUp = if op.kind = .update ∧ op.returns = .one then some (reselect t (boundParams t op)) else none := by
  cases hplan with
  | update hkind _ _ hresult =>
    rw [followUp_of_updateResult hresult]
    simp [hkind]
  | insert hkind | select hkind =>
    rw [if_neg]
    rintro ⟨hupdate, -⟩
    rw [hupdate] at hkind
    cases hkind
  | delete hkind => simp [hkind]
  | count hkind => obtain hkind | hkind := hkind <;> simp [hkind]

theorem alike_followUp (hop : op.Generated) {plan plan' : Plan} (hplan : Planned t op plan)
    (hplan' : Planned t' op plan') :
    Option.Rel (fun s s' => Alike (t.SameName t') s.pieces s'.pieces) plan.followUp plan'.followUp := by
  have hreselect : Alike (t.SameName t') (reselect t (boundParams t op)).pieces
      (reselect t' (boundParams t' op)).pieces :=
    alike_select (objectAlike_respelled h) none (alike_columns h) (alike_rowFilter h hop) .nil
  rw [hplan.followUp_eq_ite, hplan'.followUp_eq_ite]
  split
  · exact .some hreselect
  · exact .none

/-- Tables that are spelled differently have the same operations, with statements of the same tokens: but for the quoted
names, which are those that stand in the same place of the two tables, the tokens have the same texts. -/
theorem tokens_respelled (hop : op.Generated) (d : Dialect) :
    ((∃ compiled, op.compile d t = .ok compiled) ↔ ∃ compiled, op.compile d t' = .ok compiled) ∧
    ∀ x y, op.compile d t = .ok x → op.compile d t' = .ok y →
      List.Forall₂ (Fragment.Token.Alike (t.SameName t'))
        (Fragment.tokenize x.statement.sql) (Fragment.tokenize y.statement.sql) ∧
      Option.Rel (fun s s' => List.Forall₂ (Fragment.Token.Alike (t.SameName t'))
        (Fragment.tokenize s.sql) (Fragment.tokenize s'.sql)) x.followUp y.followUp := by
  have hcompiles : ∀ u : Table, (∃ compiled, op.compile d u = .ok compiled) ↔ ∃ plan, Query.plan u op = .ok plan := by
    intro u
    simp [compile_eq_ok]
  refine ⟨?_, fun x y hx hy => ?_⟩
  · rw [hcompiles, hcompiles]
    exact ⟨exists_plan_respelled h, exists_plan_respelled h.symm⟩
  · obtain ⟨plan, hplan, rfl⟩ := compile_eq_ok.1 hx
    obtain ⟨plan', hplan', rfl⟩ := compile_eq_ok.1 hy
    have hplanned := planned_of_plan hplan
    have hplanned' := planned_of_plan hplan'
    have hlater := alike_followUp h hop hplanned hplanned'
    refine ⟨(alike_statement h hop hplanned hplanned').tokens, ?_⟩
    cases hs : plan.followUp with
    | none =>
      cases hs' : plan'.followUp with
      | none =>
        simp only [Plan.compile, hs, hs']
        exact .none
      | some s' =>
        rw [hs, hs'] at hlater
        cases hlater
    | some s =>
      cases hs' : plan'.followUp with
      | none =>
        rw [hs, hs'] at hlater
        cases hlater
      | some s' =>
        rw [hs, hs'] at hlater
        cases hlater with
        | some hsame =>
          simp only [Plan.compile, hs, hs']
          exact .some hsame.tokens

end

/-- The table of users, spelled to break out of quotes. -/
def scrawled : Table :=
  ((Table.ofName "\"; DROP TABLE USERS; --").addColumn
      { field := "id", name := ":id::", kind := .long, primaryKey := true, generator := some "snowflake" }
    |>.addColumn { field := "badges", name := "\"\"", kind := .enum, isArray := true }
    |>.addColumn { field := "name", name := "'\n'", kind := .string })

/-- An update that returns its row. -/
def renameUser : Operation where
  name := "rename"
  kind := .update
  returns := .one
  params := [{ Param.scalar "name" .string with role := .updateValue }, Param.scalar "id" .long]

set_option maxRecDepth 4000 in
theorem scrawled_tokens : badges.Respelled scrawled ∧ renameUser.Generated ∧
    ∃ x y, renameUser.compile .postgres badges = .ok x ∧ renameUser.compile .postgres scrawled = .ok y ∧
      List.Forall₂ (Fragment.Token.Alike (badges.SameName scrawled))
        (Fragment.tokenize x.statement.sql) (Fragment.tokenize y.statement.sql) := by
  have hrespelled : badges.Respelled scrawled := by
    refine ⟨rfl, ?_, by decide, by decide⟩
    refine .cons ⟨":id::", _, rfl⟩ (.cons ⟨"\"\"", _, rfl⟩ (.cons ⟨"'\n'", _, rfl⟩ .nil))
  have hgenerated : renameUser.Generated := ⟨rfl, rfl, by simp [renameUser, Param.scalar, isPlain]⟩
  have hok : (renameUser.compile .postgres badges).toBool = true := by cbv
  obtain ⟨x, hx⟩ := exists_ok_of_toBool hok
  obtain ⟨hcompiles, htokens⟩ := tokens_respelled hrespelled hgenerated .postgres
  obtain ⟨y, hy⟩ := hcompiles.1 ⟨x, hx⟩
  exact ⟨hrespelled, hgenerated, x, y, hx, hy, (htokens x y hx hy).1⟩

end Query
end EntitySql
