import EntitySql.Proofs.Fragment.Segments
import EntitySql.Proofs.Query.Operands

/-! What a WHERE clause means. Its text is read with brackets first, then AND, then OR; its predicates and the raw
fragment are left open. Main statement: whatever they turn out to be, the clause is what the parameters ask for, joined to
the raw fragment. -/
namespace EntitySql.Query
open Sql
variable {d : Dialect} {σ : List Sign → Truth} {params : List BoundParam} {t : Table} {op : Operation} {c : Conjunction}

/-- What a parameter asks for: all its predicates if it is a composite or an entity, otherwise any of them. -/
def BoundParam.asks (σ : List Sign → Truth) (d : Dialect) (index : Nat) (p : BoundParam) : Option Truth :=
  match predicateTruths σ d index (p.targets.map (predicateOf p.param)) with
  | [] => none
  | truths => some (if p.param.isComposite then Truth.all truths else Truth.any truths)

/-- What parameters ask for, one after the other: all that any of them does. -/
def asked (σ : List Sign → Truth) (d : Dialect) : Nat → List BoundParam → Option Truth
  | _, [] => none
  | index, p :: params => Option.merge Truth.and (p.asks σ d index) (asked σ d (index + p.targets.length) params)

/-- All of some truth values, if there are any. -/
def allOf : List Truth → Option Truth
  | [] => none
  | truths => some (Truth.all truths)

theorem allOf_append (a b : List Truth) : allOf (a ++ b) = Option.merge Truth.and (allOf a) (allOf b) := by
  cases a with
  | nil => simp [allOf]
  | cons t a =>
    cases b with
    | nil => simp [allOf]
    | cons u b => exact congrArg some (Truth.all_append (t :: a) (u :: b))

section
variable (d)

/-- The texts of the conditions of parameters, their slots numbered from `index`. -/
def conditionTexts (index : Nat) (params : List BoundParam) : List String :=
  renderEach d index ((params.flatMap conditionsOf).map Condition.pieces)

theorem conditionTexts_cons (index : Nat) (p : BoundParam) (params : List BoundParam) :
    conditionTexts d index (p :: params) =
      conditionTexts d index [p] ++ conditionTexts d (index + p.targets.length) params := by
  have hlength : (((conditionsOf p).map Condition.pieces).flatMap slots).length = p.targets.length := by
    rw [slots_conditionsOf, List.length_map]
  rw [conditionTexts, List.flatMap_cons, List.map_append, renderEach_append, hlength, conditionTexts, conditionTexts,
    List.flatMap_singleton]

end

theorem isPlain_comparisonOf {p : Param} (h : IsPlain p.comparison.toList) (column : Column) :
    (comparisonOf p column).IsPlain := by
  unfold comparisonOf
  split
  · exact h
  · split
    · trivial
    · exact h

/-- The conditions of a parameter are operands that say what it asks for. -/
theorem operands_conditionsOf (index : Nat) {p : BoundParam} (h : IsPlain p.param.comparison.toList) :
    ∃ truths, List.Forall₂ (Operand σ) (signsOf (conditionTexts d index [p])) truths ∧
      allOf truths = p.asks σ d index := by
  have hplain : ∀ predicate ∈ p.targets.map (predicateOf p.param), predicate.comparison.IsPlain := by
    intro predicate hmem
    obtain ⟨target, -, rfl⟩ := List.mem_map.1 hmem
    exact isPlain_comparisonOf h target.column
  rw [conditionTexts, List.flatMap_singleton]
  unfold conditionsOf BoundParam.asks
  generalize p.targets.map (predicateOf p.param) = predicates at hplain
  have hoperands := operands_predicates (σ := σ) (d := d) index hplain
  dsimp only
  split
  · -- every predicate is a condition of its own
    refine ⟨predicateTruths σ d index predicates, ?_, ?_⟩
    · simpa [Function.comp_def, Condition.pieces] using hoperands
    · cases predicateTruths σ d index predicates <;> rfl
  · cases predicates with
    | nil => exact ⟨[], .nil, rfl⟩
    | cons first rest =>
      cases rest with
      | nil =>
        refine ⟨predicateTruths σ d index [first], hoperands, ?_⟩
        simp [predicateTruths, signsOf, renderEach, allOf]
      | cons second rest =>
        refine ⟨[Truth.any (predicateTruths σ d index (first :: second :: rest))], ?_, ?_⟩
        · exact .cons (operand_anyOf index (by simp) hplain) .nil
        · simp [allOf, predicateTruths, signsOf, renderEach]

theorem operands_params (index : Nat) (h : ∀ p ∈ params, IsPlain p.param.comparison.toList) :
    ∃ truths, List.Forall₂ (Operand σ) (signsOf (conditionTexts d index params)) truths ∧
      allOf truths = asked σ d index params := by
  induction params generalizing index with
  | nil => exact ⟨[], .nil, rfl⟩
  | cons p params ih =>
    obtain ⟨hp, hparams⟩ := List.forall_mem_cons.1 h
    obtain ⟨first, hfirst, hasks⟩ := operands_conditionsOf (σ := σ) (d := d) index hp
    obtain ⟨rest, hrest, hasked⟩ := ih (index + p.targets.length) hparams
    refine ⟨first ++ rest, ?_, ?_⟩
    · rw [conditionTexts_cons, signsOf, List.map_append]
      exact List.rel_append hfirst hrest
    · rw [allOf_append, hasks, hasked, asked]

/-- A text of blanks only. -/
def IsBlank (sql : String) : Prop :=
  ∀ c ∈ sql.toList, Text.isBlank c

theorem rawPieces_eq_nil {sql : String} : rawPieces t op (Fragment.Raw.ofSql sql) = [] ↔ IsBlank sql := by
  rw [rawPieces, List.map_eq_nil_iff, Fragment.segments_ofSql_eq_nil, IsBlank]

theorem fullFilter_of_raw (params : List BoundParam) {sql : String} (h : op.rawPredicate = some ⟨sql, c⟩) :
    fullFilter t op params = ⟨params.flatMap conditionsOf, c, rawPieces t op (Fragment.Raw.ofSql sql)⟩ := by
  simp [fullFilter, rawPredicate?, h]

theorem fullFilter_of_blank (t : Table) (params : List BoundParam) (h : ∀ p ∈ op.rawPredicate, IsBlank p.sql) :
    ∃ c, fullFilter t op params = ⟨params.flatMap conditionsOf, c, []⟩ := by
  cases hraw : op.rawPredicate with
  | none => exact ⟨.and, by simp [fullFilter, hraw, paramFilter]⟩
  | some p =>
    refine ⟨p.conjunction, ?_⟩
    rw [fullFilter_of_raw params hraw, rawPieces_eq_nil.2 (h p hraw)]

/-- The text of the WHERE clause of an operation, its slots numbered from `index`. -/
def whereText (d : Dialect) (index : Nat) (t : Table) (op : Operation) (params : List BoundParam) : String :=
  renderFrom d index (fullFilter t op params).pieces

/-- The text of a raw predicate after parameters whose slots are numbered from `index`. -/
def rawText (d : Dialect) (index : Nat) (t : Table) (op : Operation) (params : List BoundParam) (sql : String) :
    String :=
  renderFrom d (index + (params.flatMap (·.targets)).length) (rawPieces t op (Fragment.Raw.ofSql sql))

theorem text_alone (index : Nat) (hne : params.flatMap conditionsOf ≠ [])
    (hblank : ∀ p ∈ op.rawPredicate, IsBlank p.sql) :
    whereText d index t op params = " WHERE " ++ " AND ".intercalate (conditionTexts d index params) := by
  obtain ⟨c, hfilter⟩ := fullFilter_of_blank t params hblank
  have hpieces : (⟨params.flatMap conditionsOf, c, []⟩ : Filter).pieces =
      .text " WHERE " :: separated " AND " ((params.flatMap conditionsOf).map Condition.pieces) := by
    unfold Filter.pieces
    split <;> first | contradiction | rfl
  rw [whereText, hfilter, hpieces, renderFrom, renderFrom_separated, conditionTexts]

theorem text_raw (index : Nat) {sql : String} (hnil : params.flatMap conditionsOf = [])
    (hraw : op.rawPredicate = some ⟨sql, c⟩) (hsql : ¬IsBlank sql) :
    whereText d index t op params = " WHERE " ++ rawText d index t op params sql := by
  have hne : rawPieces t op (Fragment.Raw.ofSql sql) ≠ [] := fun hpieces => hsql (rawPieces_eq_nil.1 hpieces)
  have hpieces : (⟨[], c, rawPieces t op (Fragment.Raw.ofSql sql)⟩ : Filter).pieces =
      .text " WHERE " :: rawPieces t op (Fragment.Raw.ofSql sql) := by
    unfold Filter.pieces
    split <;> first | contradiction | rfl
  have htargets : params.flatMap (·.targets) = [] := List.flatMap_eq_nil_iff.2 (conditions_eq_nil.1 hnil)
  rw [whereText, fullFilter_of_raw params hraw, hnil, hpieces, renderFrom, rawText, htargets]
  simp

theorem text_joint (index : Nat) {sql : String} (hne : params.flatMap conditionsOf ≠ [])
    (hraw : op.rawPredicate = some ⟨sql, c⟩) (hsql : ¬IsBlank sql) :
    whereText d index t op params =
      " WHERE " ++ (" AND ".intercalate (conditionTexts d index params) ++ (" " ++ c.sql ++ " (")) ++
        rawText d index t op params sql ++ ")" := by
  have hpieces : (⟨params.flatMap conditionsOf, c, rawPieces t op (Fragment.Raw.ofSql sql)⟩ : Filter).pieces =
      .text " WHERE " :: separated " AND " ((params.flatMap conditionsOf).map Condition.pieces) ++
        .text (" " ++ c.sql ++ " (") :: rawPieces t op (Fragment.Raw.ofSql sql) ++ [.text ")"] := by
    have hne' : rawPieces t op (Fragment.Raw.ofSql sql) ≠ [] := fun hpieces => hsql (rawPieces_eq_nil.1 hpieces)
    unfold Filter.pieces
    split <;> first | contradiction | rfl
  have hslots : (slots (separated " AND " ((params.flatMap conditionsOf).map Condition.pieces))).length =
      (params.flatMap (·.targets)).length := by
    rw [slots_joined, List.length_map]
  rw [whereText, fullFilter_of_raw params hraw, hpieces]
  simp only [List.cons_append, renderFrom, renderFrom_append, renderFrom_separated, hslots]
  simp [conditionTexts, rawText, String.append_assoc]

theorem signsOf_ne_nil {index : Nat} (h : params.flatMap conditionsOf ≠ []) :
    signsOf (conditionTexts d index params) ≠ [] := by
  unfold signsOf conditionTexts
  cases hconditions : params.flatMap conditionsOf with
  | nil => exact absurd hconditions h
  | cons condition conditions => simp [renderEach]

/-- What parameters ask for if any of them has a target. -/
theorem asked_eq_some {index : Nat} {truths : List Truth} (hne : params.flatMap conditionsOf ≠ [])
    (hparts : List.Forall₂ (Operand σ) (signsOf (conditionTexts d index params)) truths)
    (hasked : allOf truths = asked σ d index params) : asked σ d index params = some (Truth.all truths) := by
  rw [← hasked]
  cases truths with
  | nil => exact absurd (List.forall₂_nil_right_iff.1 hparts) (signsOf_ne_nil hne)
  | cons truth truths => rfl

theorem signs_conditionTexts {index : Nat} {truths : List Truth}
    (h : List.Forall₂ (Operand σ) (signsOf (conditionTexts d index params)) truths) :
    signs (" AND ".intercalate (conditionTexts d index params)).toList =
      joined .and (signsOf (conditionTexts d index params)) :=
  signs_connected (c := .and) h

/-- The raw fragment in its brackets is joined to all conditions before it. -/
theorem evaluate_joint (index : Nat) (c : Conjunction) (h : ∀ p ∈ params, IsPlain p.param.comparison.toList)
    (hne : params.flatMap conditionsOf ≠ []) (σ : List Sign → Truth) :
    evaluate σ (signs (" AND ".intercalate (conditionTexts d index params) ++ (" " ++ c.sql ++ " (")).toList ++
        .fragment :: signs ")".toList) =
      Option.merge (Truth.join c) (asked σ d index params) (some (σ [.fragment])) := by
  obtain ⟨truths, hparts, hasked⟩ := operands_params (d := d) (σ := σ) index h
  have hbrackets : Operand σ (.opening :: [.fragment] ++ [.closing]) (σ [.fragment]) :=
    .bracketed (operand_fragment (σ := σ)).whole (by simp) (evaluate_operand operand_fragment)
  have hconditions := signs_conditionTexts hparts
  have hsound := broken_notMem_joined (c := .and) hparts
  rw [← hconditions] at hsound
  have hopening : (" " ++ c.sql ++ " (").toList = separator c ++ ['('] := by
    simp [separator]
  have hclosing : signs ")".toList = [.closing] := by
    have hread : signs (')' :: []) = .closing :: signs [] := signs_closing
    rwa [signs_nil] at hread
  rw [String.toList_append, hopening, signs_append hsound (breaks_separator c _), signs_separator, signs_opening,
    signs_nil, hconditions, hclosing, asked_eq_some hne hparts hasked]
  simpa using evaluate_join c (signsOf_ne_nil hne) hparts hbrackets

/-- The meaning of a WHERE clause. Its atoms are the predicates of the parameters and the raw fragment, and `σ` tells
what each of them is for a row. -/
structure WhereMeans (d : Dialect) (index : Nat) (params : List BoundParam) (c : Conjunction) : Prop where
  /-- A raw predicate, whatever it holds, is joined to what the parameters ask for; it stands alone if they ask for
  nothing. -/
  joint : ∃ before after : String,
    (∀ (t : Table) (op : Operation) (sql : String), op.rawPredicate = some ⟨sql, c⟩ → ¬IsBlank sql →
      whereText d index t op params = " WHERE " ++ before ++ rawText d index t op params sql ++ after) ∧
    ((∀ p ∈ params, p.targets = []) → before = "" ∧ after = "") ∧
    ∀ σ, evaluate σ (signs before.toList ++ .fragment :: signs after.toList) =
      Option.merge (Truth.join c) (asked σ d index params) (some (σ [.fragment]))
  /-- Without a raw predicate, or with a blank one, the clause is what the parameters ask for. -/
  alone : (∃ p ∈ params, p.targets ≠ []) → ∃ clause : String,
    (∀ (t : Table) (op : Operation), (∀ p ∈ op.rawPredicate, IsBlank p.sql) →
      whereText d index t op params = " WHERE " ++ clause) ∧
    ∀ σ, ∃ truth, asked σ d index params = some truth ∧ evaluate σ (signs clause.toList) = some truth
  /-- There is none if nothing is asked for. -/
  absent : (∀ p ∈ params, p.targets = []) → ∀ (t : Table) (op : Operation),
    (∀ p ∈ op.rawPredicate, IsBlank p.sql) → whereText d index t op params = ""

/-- A WHERE clause means what its parameters and its raw predicate ask for. -/
theorem where_means (d : Dialect) {params : List BoundParam} (h : ∀ p ∈ params, IsPlain p.param.comparison.toList)
    (index : Nat) (c : Conjunction) : WhereMeans d index params c where
  joint := by
    by_cases hnil : params.flatMap conditionsOf = []
    · refine ⟨"", "", ?_, fun _ => ⟨rfl, rfl⟩, fun σ => ?_⟩
      · intro t op sql hraw hsql
        rw [text_raw index hnil hraw hsql]
        simp
      · obtain ⟨truths, hparts, hasked⟩ := operands_params (d := d) (σ := σ) index h
        have hnone : asked σ d index params = none := by
          simp only [conditionTexts, hnil, List.map_nil, renderEach, signsOf, List.forall₂_nil_left_iff] at hparts
          rw [← hasked, hparts, allOf]
        simpa [hnone] using evaluate_operand (σ := σ) operand_fragment
    · refine ⟨" AND ".intercalate (conditionTexts d index params) ++ (" " ++ c.sql ++ " ("), ")", ?_, ?_, ?_⟩
      · intro t op sql hraw hsql
        exact text_joint index hnil hraw hsql
      · intro hempty
        exact absurd (conditions_eq_nil.2 hempty) hnil
      · exact evaluate_joint index c h hnil
  alone := by
    rintro ⟨p, hp, htargets⟩
    have hne : params.flatMap conditionsOf ≠ [] := fun hnil => htargets (conditions_eq_nil.1 hnil p hp)
    refine ⟨_, fun t op hblank => text_alone index hne hblank, fun σ => ?_⟩
    obtain ⟨truths, hparts, hasked⟩ := operands_params (d := d) (σ := σ) index h
    refine ⟨Truth.all truths, asked_eq_some hne hparts hasked, ?_⟩
    rw [signs_conditionTexts hparts]
    exact evaluate_all (signsOf_ne_nil hne) hparts
  absent := by
    intro hempty t op hblank
    obtain ⟨c, hfilter⟩ := fullFilter_of_blank t params hblank
    rw [whereText, hfilter, conditions_eq_nil.2 hempty]
    rfl

def textColumn (name : String) : Column :=
  { field := name, name, kind := .string }

/-- Words that are sought in two columns, a parameter that only a raw predicate reads, and a place of two fields. -/
def sought : List BoundParam := [
  ⟨Param.scalar "words" .string, [⟨textColumn "title", .param "words"⟩, ⟨textColumn "summary", .param "words"⟩]⟩,
  ⟨Param.scalar "limit" .int, []⟩,
  ⟨Param.composite "place" [], [⟨textColumn "room", .field "place" "room"⟩, ⟨textColumn "row", .field "place" "row"⟩]⟩]

theorem sought_plain : ∀ p ∈ sought, IsPlain p.param.comparison.toList := by
  have hequal : ∀ p ∈ sought, p.param.comparison.toList = ['='] := by decide
  intro p hp
  rw [hequal p hp]
  exact ⟨by decide, by decide, by decide, by decide⟩

/-- The comparison of a column with a numbered placeholder in which null equals null. -/
def matched (column : String) (number : Char) : List Sign :=
  [.quoted '"' column.toList, .word "IS".toList, .symbol '?', .word [number]]

theorem asked_sought (σ : List Sign → Truth) :
    asked σ .sqlite 1 sought =
      some ((Truth.any [σ (matched "title" '1'), σ (matched "summary" '2')]).and
        (Truth.all [σ (matched "room" '3'), σ (matched "row" '4')])) := by
  cbv

/-- A row is found by its words and its place, or else by the raw predicate. -/
theorem sought_means : (∀ p ∈ sought, IsPlain p.param.comparison.toList) ∧ ∃ before after : String,
    (∀ (t : Table) (op : Operation) (sql : String), op.rawPredicate = some ⟨sql, .or⟩ → ¬IsBlank sql →
      whereText .sqlite 1 t op sought = " WHERE " ++ before ++ rawText .sqlite 1 t op sought sql ++ after) ∧
    ∀ σ, evaluate σ (signs before.toList ++ .fragment :: signs after.toList) =
      some (((Truth.any [σ (matched "title" '1'), σ (matched "summary" '2')]).and
        (Truth.all [σ (matched "room" '3'), σ (matched "row" '4')])).or (σ [.fragment])) := by
  obtain ⟨before, after, htext, -, hmeans⟩ := (where_means .sqlite sought_plain 1 .or).joint
  refine ⟨sought_plain, before, after, htext, fun σ => ?_⟩
  rw [hmeans σ, asked_sought]
  rfl

end EntitySql.Query
