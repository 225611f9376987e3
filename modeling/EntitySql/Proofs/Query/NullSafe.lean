import EntitySql.Proofs.Query.Locals
import EntitySql.Proofs.Query.Where
import EntitySql.Proofs.Sql.Nulls

/-! Filters on columns that can be NULL. Every target of a filter has a predicate in the text, whose placeholder has the
number of its binding. Main statement: with the default equality the predicate takes a stored NULL and a NULL argument
for equal exactly if the column can be NULL and case is not ignored, and it never takes a value and NULL for equal. -/
namespace EntitySql.Query
open Sql
variable {d : Dialect} {t : Table} {op : Operation}

section
variable {folded : Bool} {name : List Char} {relation : Relation} {number : ℕ} {rest : List Sign}

theorem number?_toDigits (number : ℕ) : number? (Nat.toDigits 10 number) = some number := by
  have hdigits : ∀ c ∈ Nat.toDigits 10 number, c.isDigit :=
    fun c hc => Nat.isDigit_of_mem_toDigits (by decide) (by decide) hc
  rw [number?, if_pos ⟨Nat.toDigits_ne_nil, hdigits⟩, Nat.ofDigitChars_ten_toDigits]

theorem term?_placeholder (d : Dialect) (number : ℕ) (rest : List Sign) :
    term? d (placeholderSigns d number ++ rest) = some (.argument number, rest) := by
  cases d with
  | postgres => simp [placeholderSigns, term?, placeholder?, number?_toDigits]
  | sqlite => simp [placeholderSigns, term?, placeholder?, number?_toDigits]

theorem term?_foldedSigns {ss : List Sign} {term : Term}
    (h : ∀ rest, term? d (ss ++ rest) = some (term, rest)) (rest : List Sign) :
    term? d (foldedSigns ss ++ rest) = some (.lower term, rest) := by
  have hword : foldedSigns ss ++ rest =
      .word ['L', 'O', 'W', 'E', 'R'] :: .opening :: (ss ++ .closing :: rest) := by
    simp [foldedSigns]
  rw [hword, term?, h]

theorem relation?_signs (d : Dialect) (relation : Relation) (rest : List Sign) :
    relation? d (relation.signs d ++ rest) = some (relation, rest) := by
  cases relation with
  | equal => simp [relation?, Relation.signs]
  | nullSafe =>
    cases d with
    | postgres => simp [relation?, Relation.signs]
    | sqlite => simp [relation?, Relation.signs]

/-- A comparison of a name with a placeholder is read as such. -/
theorem equation?_comparisonSigns :
    equation? d (comparisonSigns folded name (relation.signs d) (placeholderSigns d number)) =
      some (.ofColumn folded relation (String.ofList name) number) := by
  have hname : ∀ rest, term? d ([.quoted '"' name] ++ rest) = some (.column (String.ofList name), rest) := by
    intro rest
    rw [List.singleton_append, term?]
  have hplaceholder := term?_placeholder d number
  have hrelation := relation?_signs d relation
  cases folded with
  | true =>
    have hend := term?_foldedSigns hplaceholder []
    rw [List.append_nil] at hend
    rw [comparisonSigns, if_pos rfl, List.append_assoc, equation?, term?_foldedSigns hname]
    simp [hrelation, hend, Equation.ofColumn, Term.lowerIf]
  | false =>
    have hend := hplaceholder []
    rw [List.append_nil] at hend
    rw [comparisonSigns, if_neg (by simp), List.append_assoc, equation?, hname]
    simp [hrelation, hend, Equation.ofColumn, Term.lowerIf]

end

theorem signs_equal : signs ['='] = Relation.equal.signs d := by
  have hbare : Bare '=' [] := ⟨by decide, by decide, by decide, by decide, by decide⟩
  have hread := hbare.signs_symbol (by decide)
  rw [hread, signs_nil]
  cases d <;> rfl

theorem signs_nullSafeEquals (d : Dialect) : signs d.nullSafeEquals.toList = Relation.nullSafe.signs d := by
  have hword : ∀ {word : String} {rest : List Char}, (word.toList.all isWordChar && word.toList ≠ []) = true →
      wordSign word.toList = .word word.toList → Breaks rest →
        signs (word.toList ++ rest) = .word word.toList :: signs rest := by
    intro word rest hall hsign hbreaks
    simp only [Bool.and_eq_true, List.all_eq_true, decide_eq_true_eq] at hall
    rw [signs_word_append hall.1 hall.2 hbreaks, hsign]
  cases d with
  | postgres =>
    have htext : Dialect.postgres.nullSafeEquals.toList = "IS".toList ++ ' ' :: ("NOT".toList ++
        ' ' :: ("DISTINCT".toList ++ ' ' :: ("FROM".toList ++ []))) := by decide
    rw [htext, hword (by decide) (by decide) breaks_blank, signs_space, hword (by decide) (by decide) breaks_blank,
      signs_space, hword (by decide) (by decide) breaks_blank, signs_space,
      hword (by decide) (by decide) breaks_nil, signs_nil]
    rfl
  | sqlite =>
    have htext : Dialect.sqlite.nullSafeEquals.toList = "IS".toList ++ [] := by decide
    rw [htext, hword (by decide) (by decide) breaks_nil, signs_nil]
    rfl

/-- The text of the predicate of a target whose placeholder has a number. -/
def predicateText (d : Dialect) (number : ℕ) (p : Param) (target : Target) : String :=
  renderFrom d number (predicateOf p target).pieces

/-- The relation of a predicate with the default equality. -/
def relationOf (p : Param) (column : Column) : Relation :=
  if column.isNullable && !p.ignoreCase then .nullSafe else .equal

/-- The predicate of a target with the default equality is read as a comparison of its column with its argument. -/
theorem equation?_predicateText {p : Param} (h : p.isDefaultEquality = true) (number : ℕ) (target : Target) :
    equation? d (signs (predicateText d number p target).toList) =
      some (.ofColumn p.ignoreCase (relationOf p target.column) target.column.name number) := by
  have hoperator : p.comparison = "=" := by simpa [Param.isDefaultEquality] using h
  have hplain : IsPlain p.comparison.toList := by
    rw [hoperator]
    exact ⟨by decide, by decide, by decide, by decide⟩
  have hread := signs_predicate (d := d) number (p := predicateOf p target) (isPlain_comparisonOf hplain target.column)
  have hcomparison : (predicateOf p target).comparison.isFolded = p.ignoreCase ∧
      signs ((predicateOf p target).comparison.operator d).toList = (relationOf p target.column).signs d := by
    unfold predicateOf comparisonOf relationOf
    cases hcase : p.ignoreCase with
    | true => simpa [Comparison.isFolded, Comparison.operator, hoperator] using signs_equal
    | false =>
      cases hnullable : target.column.isNullable with
      | true => simpa [h, Comparison.isFolded, Comparison.operator] using signs_nullSafeEquals d
      | false => simpa [Comparison.isFolded, Comparison.operator, hoperator] using signs_equal
  rw [predicateText, hread, hcomparison.1, hcomparison.2, signs_placeholder, equation?_comparisonSigns]
  simp [predicateOf]

/-- Pieces stand in others, after so many slots. -/
def PiecesAt (pieces : List Piece) (n : ℕ) (part : List Piece) : Prop :=
  ∃ head tail, pieces = head ++ part ++ tail ∧ (slots head).length = n

namespace PiecesAt
variable {a b pieces part : List Piece} {m n : ℕ}

theorem refl (pieces : List Piece) : PiecesAt pieces 0 pieces :=
  ⟨[], [], by simp, rfl⟩

theorem trans (ha : PiecesAt pieces m a) (hb : PiecesAt a n b) : PiecesAt pieces (m + n) b := by
  obtain ⟨head, tail, rfl, rfl⟩ := ha
  obtain ⟨head', tail', rfl, rfl⟩ := hb
  exact ⟨head ++ head', tail' ++ tail, by simp, by simp⟩

theorem append_left (h : PiecesAt a n part) (pieces : List Piece) :
    PiecesAt (pieces ++ a) ((slots pieces).length + n) part := by
  obtain ⟨head, tail, rfl, rfl⟩ := h
  exact ⟨pieces ++ head, tail, by simp, by simp⟩

theorem append_right (h : PiecesAt a n part) (pieces : List Piece) : PiecesAt (a ++ pieces) n part := by
  obtain ⟨head, tail, rfl, rfl⟩ := h
  exact ⟨head, tail ++ pieces, by simp, rfl⟩

theorem separated (separator : String) (part : List Piece) (before after : List (List Piece)) :
    PiecesAt (separated separator (before ++ part :: after)) (before.flatMap slots).length part := by
  unfold Query.separated
  induction before with
  | nil =>
    cases after with
    | nil => simpa using refl part
    | cons next after =>
      rw [List.nil_append, List.intercalate_cons_cons, List.append_assoc]
      exact (refl part).append_right _
  | cons first before ih =>
    cases hrest : before ++ part :: after with
    | nil => simp at hrest
    | cons next rest =>
      rw [hrest] at ih
      rw [List.cons_append, hrest, List.intercalate_cons_cons, List.flatMap_cons, List.length_append]
      have hplace := ih.append_left (first ++ [.text separator])
      rwa [slots_append, slots_text, slots_nil, List.append_nil] at hplace

/-- The slots of a part are numbered from the place of the part. -/
theorem exists_render (h : PiecesAt pieces n part) (d : Dialect) :
    ∃ before after, render d pieces = before ++ renderFrom d (n + 1) part ++ after := by
  obtain ⟨head, tail, rfl, rfl⟩ := h
  refine ⟨renderFrom d 1 head, renderFrom d (1 + (slots (head ++ part)).length) tail, ?_⟩
  rw [render, renderFrom_append, renderFrom_append, Nat.add_comm 1 (slots head).length]

theorem getElem?_slots (h : PiecesAt pieces n part) {s : Slot} (hs : (slots part).head? = some s) :
    (slots pieces)[n]? = some s := by
  obtain ⟨head, tail, rfl, rfl⟩ := h
  obtain ⟨rest, hrest⟩ := List.head?_eq_some_iff.1 hs
  simp [hrest]

end PiecesAt

section
variable {p : Param} {target : Target} {first rest : List Target}

/-- The predicate of a target stands in a condition of its parameter, after those of the targets before it. -/
theorem exists_condition {b : BoundParam} (h : b.targets = first ++ target :: rest) :
    ∃ before condition after n, conditionsOf b = before ++ condition :: after ∧
      PiecesAt condition.pieces n (predicateOf b.param target).pieces ∧
      (before.flatMap (·.predicates)).length + n = first.length := by
  have hpredicates : b.targets.map (predicateOf b.param) =
      first.map (predicateOf b.param) ++ predicateOf b.param target :: rest.map (predicateOf b.param) := by
    rw [h, List.map_append, List.map_cons]
  unfold conditionsOf
  dsimp only
  rw [hpredicates]
  split
  · refine ⟨(first.map (predicateOf b.param)).map .one, .one (predicateOf b.param target),
      (rest.map (predicateOf b.param)).map .one, 0, by simp, .refl _, ?_⟩
    simp [List.flatMap_map, Condition.predicates]
  · split
    · next hnil => simp at hnil
    · next predicate hone =>
      cases first with
      | cons head first => simp at hone
      | nil =>
        obtain ⟨rfl, -⟩ := List.cons.inj hone
        exact ⟨[], _, [], 0, rfl, .refl _, rfl⟩
    · refine ⟨[], .anyOf _, [], first.length, rfl, ?_, by simp⟩
      rw [Condition.pieces, List.map_append, List.map_cons]
      have hplace := PiecesAt.separated " OR " (predicateOf b.param target).pieces
        ((first.map (predicateOf b.param)).map Predicate.pieces) ((rest.map (predicateOf b.param)).map Predicate.pieces)
      have hcount : (((first.map (predicateOf b.param)).map Predicate.pieces).flatMap slots).length = first.length := by
        simp [List.flatMap_map]
      rw [hcount] at hplace
      simpa using (hplace.append_right [.text ")"]).append_left [.text "("]

theorem length_predicates (params : List BoundParam) :
    ((params.flatMap conditionsOf).flatMap (·.predicates)).length = (params.flatMap (·.targets)).length := by
  have hslots := congrArg List.length (slots_conditions params)
  rwa [List.length_map, List.length_map] at hslots

/-- The predicate of a target stands in the WHERE clause, after those of the targets before it. -/
theorem predicate_at_filter {f : Filter} {before after : List BoundParam} {b : BoundParam}
    (hfilter : f.conditions = (before ++ b :: after).flatMap conditionsOf) (h : b.targets = first ++ target :: rest) :
    PiecesAt f.pieces ((before.flatMap (·.targets)).length + first.length) (predicateOf b.param target).pieces := by
  obtain ⟨head, condition, tail, n, hconditions, hplace, hcount⟩ := exists_condition h
  have hsplit : f.conditions =
      before.flatMap conditionsOf ++ head ++ condition :: (tail ++ after.flatMap conditionsOf) := by
    rw [hfilter, List.flatMap_append, List.flatMap_cons, hconditions]
    simp
  have hclause : PiecesAt f.pieces (((before.flatMap conditionsOf ++ head).map Condition.pieces).flatMap slots).length
      condition.pieces := by
    have hjoined := PiecesAt.separated " AND " condition.pieces
      ((before.flatMap conditionsOf ++ head).map Condition.pieces)
      ((tail ++ after.flatMap conditionsOf).map Condition.pieces)
    rw [← List.map_cons, ← List.map_append, ← hsplit] at hjoined
    have hne : f.conditions ≠ [] := by simp [hsplit]
    unfold Filter.pieces
    split
    · contradiction
    · contradiction
    · simpa using hjoined.append_left [.text " WHERE "]
    · simpa using (hjoined.append_left [.text " WHERE "]).append_right _
  have hlength : (((before.flatMap conditionsOf ++ head).map Condition.pieces).flatMap slots).length + n =
      (before.flatMap (·.targets)).length + first.length := by
    have hslots : (((before.flatMap conditionsOf ++ head).map Condition.pieces).flatMap slots).length =
        ((before.flatMap conditionsOf).flatMap (·.predicates)).length + (head.flatMap (·.predicates)).length := by
      simp [List.flatMap_map, List.length_flatMap]
    rw [hslots, length_predicates, Nat.add_assoc, hcount]
  rw [← hlength]
  exact hclause.trans hplace

end

/-- The parameters that filter rows: all of them, but of an update only some. -/
def filtersOf (op : Operation) : List Param :=
  op.params.filter fun p => op.kind ≠ .update || p.role = .whereFilter

theorem boundParams_filtersOf (h : op.kind ≠ .update) : boundParams t op = (filtersOf op).map (bound t) := by
  simp [boundParams, filtersOf, h]

theorem filterParams_filtersOf (h : op.kind = .update) :
    filterParams (boundParams t op) = (filtersOf op).map (bound t) := by
  simp [filterParams_boundParams, filtersOf, h]

theorem conditions_fullFilter (params : List BoundParam) :
    (fullFilter t op params).conditions = params.flatMap conditionsOf := by
  unfold fullFilter
  split <;> rfl

/-- How many placeholders a statement has before those of its filters. -/
def filterStart (t : Table) (op : Operation) : ℕ :=
  (expressionBounds op).length + (storedBounds t op).length

theorem filterStart_eq_zero (hexpression : op.kind ≠ .selectRawExpression) (hupdate : op.kind ≠ .update) :
    filterStart t op = 0 := by
  simp [filterStart, expressionBounds, storedBounds, hexpression, hupdate]

theorem Planned.filter_at {p : Plan} (h : Planned t op p) (hkind : op.kind.isInsert = false) :
    PiecesAt p.statement.pieces (filterStart t op) (fullFilter t op ((filtersOf op).map (bound t))).pieces := by
  cases h with
  | insert hinsert => simp [hkind] at hinsert
  | update hupdate =>
    have hstart : (slots ([.text "UPDATE ", .object t.objectName, .text " SET "] ++ separated ", "
        (((assignedTargets (valueParams (boundParams t op))).map fun target => (target.column.name, target.slot)).map
          fun assignment => [.name assignment.1, .text " = ", .slot assignment.2]))).length = filterStart t op := by
      have hexpression : op.kind ≠ .selectRawExpression := by simp [hupdate]
      rw [slots_append, slots_separated_map Prod.snd fun _ => rfl, filterStart, ← bounds_assigned hupdate,
        expressionBounds, if_neg hexpression]
      simp
    rw [filterParams_filtersOf hupdate, ← hstart]
    exact (PiecesAt.refl _).append_left _
  | delete hdelete =>
    rw [boundParams_filtersOf (by simp [hdelete]), filterStart_eq_zero (by simp [hdelete]) (by simp [hdelete])]
    exact (PiecesAt.refl _).append_left _
  | count hcount =>
    have hkinds : op.kind ≠ .selectRawExpression ∧ op.kind ≠ .update := by rcases hcount with h | h <;> simp [h]
    rw [boundParams_filtersOf hkinds.2, filterStart_eq_zero hkinds.1 hkinds.2]
    exact (PiecesAt.refl _).append_left _
  | @select hselect selection _ _ hselection =>
    have hupdate : op.kind ≠ .update := fun he => by simp [he, OperationKind.isSelect] at hselect
    have hcount : (expressionBounds op).length = (slots selection.pieces).length := by
      rw [← bounds_expression hselection, List.length_map]
    have hplace := (((PiecesAt.refl (fullFilter t op ((filtersOf op).map (bound t))).pieces).append_left
      (.text "SELECT " :: selection.pieces ++ [.text " FROM ", .object t.objectName])).append_right
        (orderPieces (orderColumns t op))).append_right (limitPieces op.limit)
    rw [boundParams_filtersOf hupdate]
    simpa [filterStart, storedBounds, hupdate, hcount, Statement.pieces] using hplace

theorem reselect_at (hkind : op.kind = .update) :
    PiecesAt (reselect t (boundParams t op)).pieces 0 (paramFilter ((filtersOf op).map (bound t))).pieces := by
  have hplace := (PiecesAt.refl (paramFilter ((filtersOf op).map (bound t))).pieces).append_left
    (.text "SELECT " :: (Selection.columns (columnNames t)).pieces ++ [.text " FROM ", .object t.objectName])
  rw [reselect, filterParams_filtersOf hkind]
  simpa [Statement.pieces, orderPieces, limitPieces, Selection.slots_columns] using hplace

section
variable {p : Plan} {s : Slot} {i : ℕ}

theorem Plan.exists_binding (d : Dialect) (op : Operation) (hs : p.statement.slots[i]? = some s) :
    ∃ b, (p.compile d op).statement.bindings[i]? = some b ∧ b.Encodes (p.compile d op).prelude s := by
  obtain ⟨b, hb, hencodes⟩ := encodes_bindAll (prefix_bindAll ((p.followUp.map Statement.slots).getD [])) hs
  exact ⟨b, hb, hencodes.mono fun _ hstep => List.mem_append_right _ hstep⟩

theorem Plan.exists_binding_later (d : Dialect) (op : Operation) {later : Statement} (hlater : p.followUp = some later)
    (hs : later.slots[i]? = some s) :
    ∃ b, (bindAll (bindAll [] p.statement.slots).1 later.slots).2[i]? = some b ∧
      b.Encodes (p.compile d op).prelude s := by
  have hfinal : (bindAll (bindAll [] p.statement.slots).1 later.slots).1 <+: _ := List.prefix_rfl
  obtain ⟨b, hb, hencodes⟩ := encodes_bindAll hfinal hs
  refine ⟨b, hb, hencodes.mono fun step hstep => ?_⟩
  rw [Plan.compile, hlater]
  exact List.mem_append_right _ hstep

end

/-- A statement compares the column of a target with the argument that is bound at an index. -/
structure Compares (d : Dialect) (steps : List PreludeStep) (s : CompiledStatement) (index : ℕ) (p : Param)
    (target : Target) : Prop where
  text : ∃ before after, s.sql = before ++ predicateText d (index + 1) p target ++ after
  bound : ∃ b, s.bindings[index]? = some b ∧ b.Encodes steps target.slot
  /-- NULL equals NULL exactly if the column can be NULL and case is not ignored. -/
  nullSafe_iff : NullSafe d (signs (predicateText d (index + 1) p target).toList) target.column.name (index + 1) ↔
    target.column.isNullable = true ∧ p.ignoreCase = false
  /-- A value and NULL are never equal. -/
  one : ∀ {V : Type} (row : Row V), ¬(row.column target.column.name = none ↔ row.argument (index + 1) = none) →
    ∃ truth, row.truth? d (signs (predicateText d (index + 1) p target).toList) = some truth ∧ truth ≠ .yes

theorem compares_of_piecesAt {s : Statement} {bindings : List Binding} {steps : List PreludeStep} {index : ℕ}
    {p : Param} {target : Target} (hequal : p.isDefaultEquality = true)
    (hplace : PiecesAt s.pieces index (predicateOf p target).pieces)
    (hbound : s.slots[index]? = some target.slot → ∃ b, bindings[index]? = some b ∧ b.Encodes steps target.slot) :
    Compares d steps ⟨s.sql d, bindings⟩ index p target := by
  have hread := equation?_predicateText (d := d) hequal (index + 1) target
  have hrelation : relationOf p target.column = .nullSafe ↔ target.column.isNullable = true ∧ p.ignoreCase = false := by
    unfold relationOf
    split <;> simp_all
  exact {
    text := hplace.exists_render d
    bound := hbound (hplace.getElem?_slots (by simp [predicateOf]))
    nullSafe_iff := (Sql.nullSafe_iff hread).trans hrelation
    one := fun row hone => truth?_ne_yes hread row hone }

/-- The predicates of filters with the default equality, in a statement and in its follow-up. -/
theorem compares_of_compile {compiled : CompiledOperation} (h : op.compile d t = .ok compiled)
    (hkind : op.kind.isInsert = false) {before after : List Param} {p : Param} {first rest : List Target}
    {target : Target} (hparams : filtersOf op = before ++ p :: after)
    (htargets : targetsOf t p = first ++ target :: rest) (hequal : p.isDefaultEquality = true) :
    Compares d compiled.prelude compiled.statement (filterStart t op + (before.flatMap (targetsOf t) ++ first).length)
        p target ∧
      ∀ s ∈ compiled.followUp,
        Compares d compiled.prelude s (before.flatMap (targetsOf t) ++ first).length p target := by
  obtain ⟨plan, hplan, rfl⟩ := compile_eq_ok.1 h
  have hp := planned_of_plan hplan
  have hfilter : ∀ {f : Filter}, f.conditions = ((filtersOf op).map (bound t)).flatMap conditionsOf →
      PiecesAt f.pieces (before.flatMap (targetsOf t) ++ first).length (predicateOf p target).pieces := by
    intro f hf
    rw [hparams, List.map_append, List.map_cons] at hf
    have hplace := predicate_at_filter hf htargets
    rwa [List.flatMap_map, ← List.length_append] at hplace
  constructor
  · refine compares_of_piecesAt hequal ((hp.filter_at hkind).trans (hfilter (conditions_fullFilter _))) ?_
    exact plan.exists_binding d op
  · intro s hs
    obtain ⟨later, hlater, rfl⟩ := Option.map_eq_some_iff.1 hs
    have hupdate : op.kind = .update := by
      cases hp with
      | update hupdate => exact hupdate
      | insert | delete | count | select => cases hlater
    have hplace := (reselect_at (t := t) hupdate).trans (hfilter rfl)
    rw [Nat.zero_add, ← hp.followUp_eq hlater] at hplace
    rw [hlater, Option.map_some, Option.getD_some]
    exact compares_of_piecesAt hequal hplace (plan.exists_binding_later d op hlater)

/-- Users, of whom some have a nick. -/
def nicks : Table :=
  (Table.ofName "USERS").addColumn { field := "id", kind := .long, primaryKey := true }
    |>.addColumn { field := "nick", kind := .string }

def nick : Column :=
  { field := "nick", name := "NICK", kind := .string, owner := "USERS" }

def oldNick : Param :=
  { Param.scalar "old" .string with targets := ["nick"], operator := " = " }

/-- A new nick for those who have an old one. -/
def renick : Operation where
  name := "renick"
  kind := .update
  returns := .one
  params := [{ Param.scalar "nick" .string with role := .updateValue }, oldNick]

set_option maxRecDepth 4000 in
/-- Who has no nick is found by NULL, in the update and in the select after it. -/
theorem renick_compares : renick.kind.isInsert = false ∧ filtersOf renick = [] ++ oldNick :: [] ∧
    targetsOf nicks oldNick = [] ++ ⟨nick, .param "old"⟩ :: [] ∧ oldNick.isDefaultEquality = true ∧
    ∃ compiled followUp, Operation.compile .sqlite nicks renick = .ok compiled ∧ compiled.followUp = some followUp ∧
      Compares .sqlite compiled.prelude compiled.statement 1 oldNick ⟨nick, .param "old"⟩ ∧
      Compares .sqlite compiled.prelude followUp 0 oldNick ⟨nick, .param "old"⟩ := by
  have hfollow : (Operation.compile .sqlite nicks renick).toOption.map (fun compiled => compiled.followUp.isSome) =
      some true := by
    cbv
  obtain ⟨compiled, h, hsome⟩ := exists_ok_of_toOption hfollow
  obtain ⟨followUp, hfollow⟩ := Option.isSome_iff_exists.1 hsome
  have hparams : filtersOf renick = [] ++ oldNick :: [] := rfl
  have htargets : targetsOf nicks oldNick = [] ++ ⟨nick, .param "old"⟩ :: [] := by decide
  have hequal : oldNick.isDefaultEquality = true := by decide
  obtain ⟨hstatement, hlater⟩ := compares_of_compile h rfl hparams htargets hequal
  exact ⟨rfl, hparams, htargets, hequal, compiled, followUp, h, hfollow, hstatement, hlater followUp hfollow⟩

def anyCaseNick : Param :=
  { Param.scalar "nick" .string with ignoreCase := true }

def findByNick : Operation where
  name := "findByNick"
  kind := .selectEntity
  returns := .many
  params := [anyCaseNick]

set_option maxRecDepth 4000 in
/-- If case is ignored, who has no nick is not found by NULL. -/
theorem findByNick_misses_null : nick.isNullable = true ∧ anyCaseNick.isDefaultEquality = true ∧
    findByNick.params = [anyCaseNick] ∧ targetsOf nicks anyCaseNick = [⟨nick, .param "nick"⟩] ∧
    ∃ compiled, Operation.compile .postgres nicks findByNick = .ok compiled ∧
      compiled.statement = ⟨"SELECT \"ID\", \"NICK\" FROM \"USERS\" WHERE " ++ "LOWER(\"NICK\") = LOWER($1)",
        [⟨.param "nick", some "NICK", .plain⟩]⟩ ∧
      ∀ row : Row String, row.column "NICK" = none → row.argument 1 = none →
        row.truth? .postgres (signs "LOWER(\"NICK\") = LOWER($1)".toList) = some .unknown := by
  have hstatement : (Operation.compile .postgres nicks findByNick).toOption.map CompiledOperation.statement =
      some ⟨"SELECT \"ID\", \"NICK\" FROM \"USERS\" WHERE " ++ "LOWER(\"NICK\") = LOWER($1)",
        [⟨.param "nick", some "NICK", .plain⟩]⟩ := by
    cbv
  obtain ⟨compiled, h, hstatement⟩ := exists_ok_of_toOption hstatement
  have hequal : anyCaseNick.isDefaultEquality = true := by decide
  have htext : predicateText .postgres 1 anyCaseNick ⟨nick, .param "nick"⟩ = "LOWER(\"NICK\") = LOWER($1)" := by cbv
  have hread := equation?_predicateText (d := .postgres) hequal 1 ⟨nick, .param "nick"⟩
  rw [htext] at hread
  refine ⟨by decide, hequal, rfl, by decide, compiled, h, hstatement, fun row hcolumn hargument => ?_⟩
  exact truth?_of_nulls hread hcolumn hargument

end EntitySql.Query
