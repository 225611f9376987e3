import EntitySql.Proofs.Query.Inserted
import EntitySql.Proofs.Query.Readable
import EntitySql.Proofs.Sql.Reading

/-! Predicates as they are read. With a plain operator the text of a predicate is one comparison, whatever the name of
its column holds, and alternatives in brackets are one operand. -/
namespace EntitySql.Query
open Sql
variable {d : Dialect} {σ : List Sign → Truth}

theorem plain_nullSafeEquals (d : Dialect) : IsPlain d.nullSafeEquals.toList := by
  cases d with
  | postgres => exact ⟨by decide, by decide, by decide, by decide⟩
  | sqlite => exact ⟨by decide, by decide, by decide, by decide⟩

/-- The signs of a placeholder. -/
def placeholderSigns : Dialect → Nat → List Sign
  | .postgres, index => [.word ('$' :: (toString index).toList)]
  | .sqlite, index => [.symbol '?', .word (toString index).toList]

theorem signs_placeholder (d : Dialect) (index : Nat) :
    signs (d.placeholder index).toList = placeholderSigns d index := by
  have hnumber := signs_digits index
  have hdigits : ∀ c ∈ (toString index).toList, isWordChar c :=
    fun c hc => isWordChar_of_isDigit (Text.isDigit_of_mem_toString hc)
  rw [placeholder_toList]
  cases d with
  | postgres =>
    -- the mark is part of the word
    have hnone : connective? ('$' :: (toString index).toList) = none := connective?_eq_none (by simp)
    have hword : ∀ c ∈ '$' :: (toString index).toList, isWordChar c := List.forall_mem_cons.2 ⟨by decide, hdigits⟩
    have hread := signs_word_append hword (by simp) breaks_nil
    rw [List.append_nil, signs_nil, wordSign, hnone] at hread
    exact hread
  | sqlite =>
    have hbare : Bare '?' (toString index).toList :=
      ⟨by decide, by decide, by decide, by decide, by simp [startsComment]⟩
    rw [Dialect.placeholderMark, hbare.signs_symbol (by decide), hnumber, placeholderSigns]

theorem isPlain_of_mem_placeholder (d : Dialect) (index : Nat) :
    ∀ s ∈ signs (d.placeholder index).toList, s.isPlain := by
  rw [signs_placeholder]
  cases d with
  | postgres => simp [placeholderSigns, Sign.isPlain]
  | sqlite => simp [placeholderSigns, Sign.isPlain]

theorem whole_of_isPlain {ss : List Sign} (h : ∀ s ∈ ss, s.isPlain) : Whole Sign.NotConnective ss := by
  induction ss with
  | nil => exact .nil
  | cons s ss ih =>
    obtain ⟨hs, hss⟩ := List.forall_mem_cons.1 h
    have hfirst : Whole Sign.NotConnective [s] := by
      cases s with
      | word | symbol => exact .sign (by simp [Sign.NotConnective]) (by simp) (by simp)
      | connective | opening | closing | quoted | fragment | broken => cases hs
    exact hfirst.append (ih hss)

theorem sound_of_isPlain {ss : List Sign} (h : ∀ s ∈ ss, s.isPlain) : .broken ∉ ss :=
  fun hmem => by cases h _ hmem

/-- The operator of a comparison in a dialect. -/
def Comparison.operator (d : Dialect) : Comparison → String
  | folded operator => operator
  | nullSafe => d.nullSafeEquals
  | plain operator => operator

def Comparison.isFolded : Comparison → Bool
  | folded _ => true
  | _ => false

/-- A comparison with a plain operator. -/
def Comparison.IsPlain : Comparison → Prop
  | folded operator => Sql.IsPlain operator.toList
  | nullSafe => True
  | plain operator => Sql.IsPlain operator.toList

theorem Comparison.IsPlain.operator {c : Comparison} (h : c.IsPlain) (d : Dialect) :
    Sql.IsPlain (c.operator d).toList := by
  cases c with
  | folded operator | plain operator => exact h
  | nullSafe => exact plain_nullSafeEquals d

/-- The signs of an expression whose case is folded. -/
def foldedSigns (ss : List Sign) : List Sign :=
  .word "LOWER".toList :: (.opening :: ss ++ [.closing])

theorem whole_foldedSigns {ss : List Sign} (h : Whole Sign.NotConnective ss) :
    Whole Sign.NotConnective (foldedSigns ss) := by
  have hword : Whole Sign.NotConnective [.word "LOWER".toList] :=
    .sign (by simp [Sign.NotConnective]) (by simp) (by simp)
  exact hword.append h.bracketed

theorem whole_name (name : List Char) : Whole Sign.NotConnective [.quoted '"' name] :=
  .sign (by simp [Sign.NotConnective]) (by simp) (by simp)

section
variable {name : List Char} {operator slot : List Sign}

/-- The signs of a comparison, both sides folded or none. -/
def comparisonSigns (folded : Bool) (name : List Char) (operator slot : List Sign) : List Sign :=
  if folded then foldedSigns [.quoted '"' name] ++ operator ++ foldedSigns slot
  else [.quoted '"' name] ++ operator ++ slot

theorem operand_comparisonSigns (folded : Bool) (hoperator : ∀ s ∈ operator, s.isPlain)
    (hslot : ∀ s ∈ slot, s.isPlain) :
    Operand σ (comparisonSigns folded name operator slot) (σ (comparisonSigns folded name operator slot)) := by
  have hwhole := whole_of_isPlain hoperator
  have hsound := sound_of_isPlain hoperator
  have hsound' := sound_of_isPlain hslot
  cases folded with
  | true =>
    refine .comparison ?_ ?_ ⟨.word "LOWER".toList, rfl, by simp⟩
    · exact ((whole_foldedSigns (whole_name name)).append hwhole).append (whole_foldedSigns (whole_of_isPlain hslot))
    · simp [comparisonSigns, foldedSigns, hsound, hsound']
  | false =>
    refine .comparison ?_ ?_ ⟨.quoted '"' name, rfl, by simp⟩
    · exact ((whole_name name).append hwhole).append (whole_of_isPlain hslot)
    · simp [comparisonSigns, hsound, hsound']

end

theorem signs_lower (rest : List Char) :
    signs ("LOWER(".toList ++ rest) = .word "LOWER".toList :: .opening :: signs rest := by
  have hword : ∀ c ∈ "LOWER".toList, isWordChar c := List.all_eq_true.1 (by decide)
  have hsign : wordSign "LOWER".toList = .word "LOWER".toList := by decide
  have hread := signs_word_append (b := '(' :: rest) hword (by decide) breaks_opening
  rw [hsign, signs_opening] at hread
  exact hread

theorem signs_quoteName {rest : List Char} (name : String) (h : Breaks rest) :
    signs ((quoteName name).toList ++ rest) = .quoted '"' name.toList :: signs rest := by
  rw [toList_quoteName, signs_quotedChars_append (by decide) _ h]

theorem signs_operator {operator : List Char} (h : IsPlain operator) (rest : List Char) :
    signs (' ' :: (operator ++ ' ' :: rest)) = signs operator ++ signs rest := by
  rw [signs_space, signs_append (sound_of_isPlain h.isPlain_of_mem_signs) breaks_blank, signs_space]

/-- A name, an operator between blanks and a placeholder. -/
theorem signs_unfolded (name : String) {operator : List Char} (h : IsPlain operator) (placeholder : List Char) :
    signs ((quoteName name).toList ++ ' ' :: (operator ++ ' ' :: placeholder)) =
      comparisonSigns false name.toList (signs operator) (signs placeholder) := by
  rw [signs_quoteName name breaks_blank, signs_operator h]
  rfl

/-- The text of a predicate is read as a comparison of a name with a placeholder. -/
theorem signs_predicate (index : Nat) {p : Predicate} (h : p.comparison.IsPlain) :
    signs (renderFrom d index p.pieces).toList = comparisonSigns p.comparison.isFolded p.column.toList
      (signs (p.comparison.operator d).toList) (signs (d.placeholder index).toList) := by
  have hoperator := h.operator d
  cases hcomparison : p.comparison with
  | folded operator =>
    have hslot := sound_of_isPlain (isPlain_of_mem_placeholder d index)
    have htext : (renderFrom d index p.pieces).toList = "LOWER(".toList ++ ((quoteName p.column).toList ++
        ')' :: ' ' :: (operator.toList ++ ' ' :: ("LOWER(".toList ++ ((d.placeholder index).toList ++ [')'])))) := by
      simp [Predicate.pieces, hcomparison, renderFrom]
    rw [hcomparison, Comparison.operator] at hoperator
    rw [htext, signs_lower, signs_quoteName p.column breaks_closing, signs_closing, signs_operator hoperator,
      signs_lower, signs_append hslot breaks_closing, signs_closing, signs_nil]
    simp [comparisonSigns, foldedSigns, Comparison.isFolded, Comparison.operator]
  | nullSafe =>
    have htext : (renderFrom d index p.pieces).toList = (quoteName p.column).toList ++
        ' ' :: (d.nullSafeEquals.toList ++ ' ' :: (d.placeholder index).toList) := by
      simp [Predicate.pieces, hcomparison, renderFrom]
    rw [hcomparison] at hoperator
    rw [htext]
    exact signs_unfolded p.column hoperator _
  | plain operator =>
    have htext : (renderFrom d index p.pieces).toList = (quoteName p.column).toList ++
        ' ' :: (operator.toList ++ ' ' :: (d.placeholder index).toList) := by
      simp [Predicate.pieces, hcomparison, renderFrom]
    rw [hcomparison] at hoperator
    rw [htext]
    exact signs_unfolded p.column hoperator _

/-- The text of a predicate is read as one comparison. -/
theorem operand_predicate (index : Nat) {p : Predicate} (h : p.comparison.IsPlain) :
    Operand σ (signs (renderFrom d index p.pieces).toList) (σ (signs (renderFrom d index p.pieces).toList)) := by
  rw [signs_predicate index h]
  exact operand_comparisonSigns _ (h.operator d).isPlain_of_mem_signs (isPlain_of_mem_placeholder d index)

/-- The signs of texts. -/
def signsOf (texts : List String) : List (List Sign) :=
  texts.map fun text => signs text.toList

/-- What predicates say, their slots numbered from `index`. -/
def predicateTruths (σ : List Sign → Truth) (d : Dialect) (index : Nat) (predicates : List Predicate) : List Truth :=
  (signsOf (renderEach d index (predicates.map Predicate.pieces))).map σ

theorem operands_predicates (index : Nat) {predicates : List Predicate} (h : ∀ p ∈ predicates, p.comparison.IsPlain) :
    List.Forall₂ (Operand σ) (signsOf (renderEach d index (predicates.map Predicate.pieces)))
      (predicateTruths σ d index predicates) := by
  induction predicates generalizing index with
  | nil => exact .nil
  | cons p predicates ih =>
    obtain ⟨hp, hpredicates⟩ := List.forall_mem_cons.1 h
    exact .cons (operand_predicate index hp) (ih _ hpredicates)

theorem signs_connected {c : Conjunction} {texts : List String} {truths : List Truth}
    (h : List.Forall₂ (Operand σ) (signsOf texts) truths) :
    signs ((" " ++ c.sql ++ " ").intercalate texts).toList = joined c (signsOf texts) := by
  have hsound : ∀ text ∈ texts.map String.toList, .broken ∉ signs text := by
    intro text hmem
    obtain ⟨text, htext, rfl⟩ := List.mem_map.1 hmem
    obtain ⟨_, -, hread⟩ := exists_of_forall₂ h (List.mem_map_of_mem htext)
    exact hread.sound
  have hseparator : (" " ++ c.sql ++ " ").toList = separator c := by
    simp [separator]
  rw [String.toList_intercalate, hseparator, signs_intercalate hsound, List.map_map]
  rfl

/-- The text of alternatives is read as one operand. -/
theorem operand_anyOf (index : Nat) {predicates : List Predicate} (hne : predicates ≠ [])
    (h : ∀ p ∈ predicates, p.comparison.IsPlain) :
    Operand σ (signs (renderFrom d index (Condition.anyOf predicates).pieces).toList)
      (Truth.any (predicateTruths σ d index predicates)) := by
  have hoperands := operands_predicates (σ := σ) (d := d) index h
  have hparts : signsOf (renderEach d index (predicates.map Predicate.pieces)) ≠ [] := by
    cases predicates with
    | nil => exact absurd rfl hne
    | cons p predicates => simp [signsOf, renderEach]
  have htext : (renderFrom d index (Condition.anyOf predicates).pieces).toList =
      '(' :: ((" OR ".intercalate (renderEach d index (predicates.map Predicate.pieces))).toList ++ [')']) := by
    rw [Condition.pieces, List.cons_append, renderFrom, renderFrom_append, renderFrom_separated]
    simp [renderFrom]
  have hinner : signs (" OR ".intercalate (renderEach d index (predicates.map Predicate.pieces))).toList =
      joined .or (signsOf (renderEach d index (predicates.map Predicate.pieces))) :=
    signs_connected (c := .or) hoperands
  have hsound := broken_notMem_joined (c := .or) hoperands
  rw [← hinner] at hsound
  rw [htext, signs_opening, signs_append hsound breaks_closing, signs_closing, signs_nil, hinner]
  exact .any hparts hoperands

end EntitySql.Query
