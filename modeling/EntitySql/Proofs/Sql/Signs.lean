import EntitySql.Operation.Basic
import EntitySql.Proofs.Text.Quoted
import EntitySql.Proofs.Text.Runs

/-! The signs of a condition: words, names and literals in quotes, brackets, connectives and single symbols. Texts are
read one after the other if each next one begins with a blank or a bracket. Main statement: a text without quotes,
brackets, comments and connectives is read as words and symbols. -/
namespace EntitySql.Sql
open Text

/-- A sign of a condition. -/
inductive Sign where
  | connective (c : Conjunction)
  | opening
  | closing
  | word (chars : List Char)
  /-- A name or a literal between two marks, with its content. -/
  | quoted (mark : Char) (content : List Char)
  | symbol (c : Char)
  /-- A raw fragment, whatever it holds. -/
  | fragment
  /-- A quote that is never closed or the beginning of a comment, with all that follows. -/
  | broken
  deriving DecidableEq, Repr, Inhabited

/-- A character of a word: a letter, a digit, and any character beyond ASCII that is no blank. -/
def isWordChar (c : Char) : Bool :=
  !isBlank c && (c.isAlphanum || c = '_' || c = '$' || 128 ≤ c.toNat)

/-- The connective that a word spells, in any case. -/
def connective? (word : List Char) : Option Conjunction :=
  if word.map Char.toUpper = ['A', 'N', 'D'] then some .and
  else if word.map Char.toUpper = ['O', 'R'] then some .or
  else none

def wordSign (word : List Char) : Sign :=
  (connective? word).elim (.word word) .connective

/-- A mark that opens and closes quotes. -/
def isMark (c : Char) : Bool :=
  c = '\'' || c = '"'

/-- Two characters that begin a comment. -/
def startsComment (c : Char) (next : Option Char) : Bool :=
  (c = '-' && next = some '-') || (c = '/' && next = some '*')

/-- The signs of a text. -/
def signs : List Char → List Sign
  | [] => []
  | c :: cs =>
    if isBlank c then signs cs
    else if c = '(' then .opening :: signs cs
    else if c = ')' then .closing :: signs cs
    else if isMark c then
      match _h : closeQuoted c cs with
      | some (content, rest) => .quoted c content :: signs rest
      | none => [.broken]
    else if startsComment c cs.head? then [.broken]
    else if isWordChar c then wordSign (c :: cs.takeWhile isWordChar) :: signs (cs.dropWhile isWordChar)
    else .symbol c :: signs cs
termination_by cs => cs.length
decreasing_by
  · simp
  · simp
  · simp
  · have hcs := eq_of_closeQuoted _h
    simp only [hcs, List.length_append, List.length_cons]
    omega
  · have := (List.dropWhile_sublist (l := cs) isWordChar).length_le
    simp only [List.length_cons]
    omega
  · simp

/-- A text that begins with a blank or a bracket, or not at all. -/
def Breaks (cs : List Char) : Prop :=
  ∀ c ∈ cs.head?, c = ' ' ∨ c = '(' ∨ c = ')'

section
variable {c : Char} {a b cs : List Char}

@[simp]
theorem signs_nil : signs [] = [] := by
  rw [signs]

theorem signs_blank (h : isBlank c) : signs (c :: cs) = signs cs := by
  rw [signs, if_pos h]

@[simp]
theorem signs_space : signs (' ' :: cs) = signs cs :=
  signs_blank (by decide)

@[simp]
theorem signs_opening : signs ('(' :: cs) = .opening :: signs cs := by
  rw [signs, if_neg (by decide), if_pos rfl]

@[simp]
theorem signs_closing : signs (')' :: cs) = .closing :: signs cs := by
  rw [signs, if_neg (by decide), if_neg (by decide), if_pos rfl]

theorem isMark_iff : isMark c ↔ c = '\'' ∨ c = '"' := by
  simp [isMark]

theorem signs_quoted {content rest : List Char} (hmark : isMark c) (h : closeQuoted c cs = some (content, rest)) :
    signs (c :: cs) = .quoted c content :: signs rest := by
  have hblank : isBlank c = false ∧ c ≠ '(' ∧ c ≠ ')' := by
    obtain rfl | rfl := isMark_iff.1 hmark
    · decide
    · decide
  rw [signs, if_neg (by simp [hblank.1]), if_neg hblank.2.1, if_neg hblank.2.2, if_pos hmark]
  split
  · next h' =>
    rw [h] at h'
    cases h'
    rfl
  · next h' =>
    rw [h] at h'
    cases h'

theorem breaks_nil : Breaks [] := by
  simp [Breaks]

theorem breaks_blank : Breaks (' ' :: cs) := by
  simp [Breaks]

theorem breaks_opening : Breaks ('(' :: cs) := by
  simp [Breaks]

theorem breaks_closing : Breaks (')' :: cs) := by
  simp [Breaks]

theorem Breaks.not_isWordChar (h : Breaks b) : ∀ c ∈ b.head?, isWordChar c = false := by
  intro c hc
  obtain rfl | rfl | rfl := h c hc
  · decide
  · decide
  · decide

theorem Breaks.startsComment_append (h : Breaks b) (c : Char) :
    startsComment c (cs ++ b).head? = startsComment c cs.head? := by
  cases cs with
  | cons d cs => rfl
  | nil =>
    cases b with
    | nil => rfl
    | cons d b =>
      obtain rfl | rfl | rfl := h d rfl
      · simp [startsComment]
      · simp [startsComment]
      · simp [startsComment]

theorem Breaks.notMem_head? (h : Breaks b) {mark : Char} (hmark : isMark mark) : mark ∉ b.head? := by
  intro hmem
  obtain rfl | rfl := isMark_iff.1 hmark
  · simpa using h _ hmem
  · simpa using h _ hmem

/-- A character that begins neither a quoted text nor a comment, and is neither a blank nor a bracket. -/
structure Bare (c : Char) (cs : List Char) : Prop where
  blank : isBlank c = false
  opening : c ≠ '('
  closing : c ≠ ')'
  mark : isMark c = false
  comment : startsComment c cs.head? = false

theorem Bare.signs_word (h : Bare c cs) (hword : isWordChar c) :
    signs (c :: cs) = wordSign (c :: cs.takeWhile isWordChar) :: signs (cs.dropWhile isWordChar) := by
  rw [signs, if_neg (by simp [h.blank]), if_neg h.opening, if_neg h.closing, if_neg (by simp [h.mark]),
    if_neg (by simp [h.comment]), if_pos hword]

theorem Bare.signs_symbol (h : Bare c cs) (hword : isWordChar c = false) : signs (c :: cs) = .symbol c :: signs cs := by
  rw [signs, if_neg (by simp [h.blank]), if_neg h.opening, if_neg h.closing, if_neg (by simp [h.mark]),
    if_neg (by simp [h.comment]), if_neg (by simp [hword])]

theorem Bare.append (h : Bare c cs) (hb : Breaks b) : Bare c (cs ++ b) :=
  { h with comment := by rw [hb.startsComment_append, h.comment] }

/-- Texts are read one after the other if the second one does not run on from the first. -/
theorem signs_append (ha : .broken ∉ signs a) (hb : Breaks b) : signs (a ++ b) = signs a ++ signs b := by
  fun_induction signs a with
  | case1 => simp
  | case2 c cs hblank ih => rw [List.cons_append, signs_blank hblank, ih ha]
  | case3 cs hblank ih => rw [List.cons_append, signs_opening, ih (by simpa using ha), List.cons_append]
  | case4 cs hblank hopening ih => rw [List.cons_append, signs_closing, ih (by simpa using ha), List.cons_append]
  | case5 c cs hblank hopening hclosing hmark content rest hclose ih =>
    have hclose' := closeQuoted_append hclose (hb.notMem_head? hmark)
    rw [List.cons_append, signs_quoted hmark hclose', ih (by simpa using ha), List.cons_append]
  | case6 c cs hblank hopening hclosing hmark hclose => simp at ha
  | case7 c cs hblank hopening hclosing hmark hcomment => simp at ha
  | case8 c cs hblank hopening hclosing hmark hcomment hword ih =>
    have hbare : Bare c cs := ⟨by simpa using hblank, hopening, hclosing, by simpa using hmark, by simpa using hcomment⟩
    -- a blank or a bracket ends the word
    have hrest : .broken ∉ signs (cs.dropWhile isWordChar) := fun h => ha (List.mem_cons_of_mem _ h)
    rw [List.cons_append, (hbare.append hb).signs_word hword, takeWhile_append_of_head hb.not_isWordChar,
      dropWhile_append_of_head hb.not_isWordChar, ih hrest, List.cons_append]
  | case9 c cs hblank hopening hclosing hmark hcomment hword ih =>
    have hbare : Bare c cs := ⟨by simpa using hblank, hopening, hclosing, by simpa using hmark, by simpa using hcomment⟩
    rw [List.cons_append, (hbare.append hb).signs_symbol (by simpa using hword), ih (by simpa using ha),
      List.cons_append]

theorem Bare.of_isWordChar (h : isWordChar c) : Bare c cs := by
  have hne : ∀ e, isWordChar e = false → c ≠ e := by
    rintro e he rfl
    rw [h] at he
    cases he
  refine ⟨?_, hne _ (by decide), hne _ (by decide), ?_, ?_⟩
  · simp only [isWordChar, Bool.and_eq_true, Bool.not_eq_true'] at h
    exact h.1
  · simp [isMark, hne '\'' (by decide), hne '"' (by decide)]
  · simp [startsComment, hne '-' (by decide), hne '/' (by decide)]

theorem signs_word_append {word : List Char} (hword : ∀ c ∈ word, isWordChar c) (hne : word ≠ []) (hb : Breaks b) :
    signs (word ++ b) = wordSign word :: signs b := by
  cases word with
  | nil => exact absurd rfl hne
  | cons c word =>
    obtain ⟨hc, hrest⟩ := List.forall_mem_cons.1 hword
    have hdrop : word.dropWhile isWordChar = [] := List.dropWhile_eq_nil_iff.2 hrest
    rw [List.cons_append, (Bare.of_isWordChar hc).signs_word hc, takeWhile_append_of_head hb.not_isWordChar,
      dropWhile_append_of_head hb.not_isWordChar, List.takeWhile_eq_self_iff.2 hrest, hdrop, List.nil_append]

/-- A quoted text is one sign. -/
theorem signs_quotedChars_append {mark : Char} (hmark : isMark mark) (content : List Char) (hb : Breaks b) :
    signs (quotedChars mark content ++ b) = .quoted mark content :: signs b := by
  have hclose := closeQuoted_doubled content (hb.notMem_head? hmark)
  rw [quotedChars, List.cons_append, List.cons_append, List.append_assoc, List.singleton_append,
    signs_quoted hmark hclose]

theorem toUpper_of_isDigit (h : c.isDigit) : c.toUpper = c := by
  rw [Char.toUpper, dif_neg]
  rintro ⟨hlow, -⟩
  simp only [Char.isDigit, Bool.and_eq_true, decide_eq_true_eq] at h
  exact absurd (UInt32.le_trans hlow h.2) (by decide)

theorem connective?_eq_none {word : List Char} (h : ∀ c ∈ word.head?, c.toUpper ≠ 'A' ∧ c.toUpper ≠ 'O') :
    connective? word = none := by
  cases word with
  | nil => rfl
  | cons c word =>
    obtain ⟨hA, hO⟩ := h c rfl
    simp [connective?, hA, hO]

theorem isWordChar_of_isDigit (h : c.isDigit) : isWordChar c := by
  have hblank : isBlank c = false := by
    simp only [Char.isDigit, Bool.and_eq_true, decide_eq_true_eq, UInt32.le_iff_toNat_le] at h
    have hlow : 48 ≤ c.toNat := h.1
    have hhigh : c.toNat ≤ 57 := h.2
    simp only [isBlank, Bool.or_eq_false_iff, Bool.and_eq_false_iff, decide_eq_false_iff_not, beq_eq_false_iff_ne]
    omega
  simp [isWordChar, hblank, Char.isAlphanum, h]

theorem signs_digits (n : Nat) : signs (toString n).toList = [.word (toString n).toList] := by
  have hnone : connective? (toString n).toList = none := by
    refine connective?_eq_none fun c hc => ?_
    have hdigit := isDigit_of_mem_toString (List.mem_of_mem_head? hc)
    rw [toUpper_of_isDigit hdigit]
    exact ⟨ne_of_isDigit hdigit rfl, ne_of_isDigit hdigit rfl⟩
  have hword : ∀ c ∈ (toString n).toList, isWordChar c := fun c hc => isWordChar_of_isDigit (isDigit_of_mem_toString hc)
  have hne : (toString n).toList ≠ [] := by
    rw [Nat.toString_eq_repr, Nat.toList_repr]
    exact Nat.toDigits_ne_nil
  have hread := signs_word_append hword hne breaks_nil
  rw [List.append_nil, signs_nil, wordSign, hnone] at hread
  exact hread

/-- The words of a text, with nothing between two characters that belong to no word. -/
def words (cs : List Char) : List (List Char) :=
  cs.splitOnP (!isWordChar ·)

theorem words_cons (hc : isWordChar c = false) : words (c :: cs) = [] :: words cs := by
  have hfirst := List.splitOnP_append_cons [] cs (p := (!isWordChar ·)) (by simpa using hc)
  simpa [words] using hfirst

theorem head_dropWhile_isWordChar {rest : List Char} (h : cs.dropWhile isWordChar = c :: rest) :
    isWordChar c = false := by
  simpa [h] using List.head?_dropWhile_not isWordChar cs

theorem takeWhile_dropWhile_isWordChar (cs : List Char) : (cs.dropWhile isWordChar).takeWhile isWordChar = [] := by
  cases hrest : cs.dropWhile isWordChar with
  | nil => rfl
  | cons d rest => simp [head_dropWhile_isWordChar hrest]

/-- The first word of a text ends where its characters do. -/
theorem words_takeWhile (cs : List Char) :
    words cs = cs.takeWhile isWordChar :: (words (cs.dropWhile isWordChar)).tail := by
  have hword : ∀ c ∈ cs.takeWhile isWordChar, (!isWordChar c) = false := by
    intro c hc
    simpa using List.mem_takeWhile_imp hc
  cases hrest : cs.dropWhile isWordChar with
  | nil =>
    have hall : cs.takeWhile isWordChar = cs := by
      simpa [hrest] using List.takeWhile_append_dropWhile (p := isWordChar) (l := cs)
    rw [hall] at hword ⊢
    simpa [words] using List.splitOnP_eq_singleton hword
  | cons d rest =>
    have hd := head_dropWhile_isWordChar hrest
    have hsplit : cs = cs.takeWhile isWordChar ++ d :: rest := by
      rw [← hrest, List.takeWhile_append_dropWhile]
    have hfirst := List.splitOnP_append_cons_of_forall_mem hword d (by simpa using hd) rest
    rw [← hsplit] at hfirst
    rw [words_cons hd]
    exact hfirst

/-- A text without quotes, brackets, comments and connectives. -/
structure IsPlain (cs : List Char) : Prop where
  unquoted : '\'' ∉ cs ∧ '"' ∉ cs
  unbracketed : '(' ∉ cs ∧ ')' ∉ cs
  uncommented : ¬['-', '-'] <:+: cs ∧ ¬['/', '*'] <:+: cs
  unconnected : ∀ word ∈ words cs, connective? word = none

def Sign.isPlain : Sign → Bool
  | word _ => true
  | symbol _ => true
  | _ => false

theorem IsPlain.bare (h : IsPlain (c :: cs)) (hblank : isBlank c = false) : Bare c cs where
  blank := hblank
  opening := fun hc => h.unbracketed.1 (by simp [hc])
  closing := fun hc => h.unbracketed.2 (by simp [hc])
  mark := by
    have hquote := h.unquoted.1
    have hdouble := h.unquoted.2
    simp only [List.mem_cons, not_or] at hquote hdouble
    simp [isMark, Ne.symm hquote.1, Ne.symm hdouble.1]
  comment := by
    cases cs with
    | nil => simp [startsComment]
    | cons d cs =>
      by_contra hstarts
      simp only [startsComment, List.head?_cons, Option.some.injEq, Bool.not_eq_false, Bool.or_eq_true,
        Bool.and_eq_true, decide_eq_true_eq] at hstarts
      obtain ⟨rfl, rfl⟩ | ⟨rfl, rfl⟩ := hstarts
      · exact h.uncommented.1 ⟨[], cs, rfl⟩
      · exact h.uncommented.2 ⟨[], cs, rfl⟩

theorem IsPlain.of_suffix {tail : List Char} (h : IsPlain cs) (hsuffix : tail <:+ cs)
    (hwords : ∀ word ∈ words tail, word ∈ words cs ∨ word = []) : IsPlain tail where
  unquoted := ⟨fun hc => h.unquoted.1 (hsuffix.mem hc), fun hc => h.unquoted.2 (hsuffix.mem hc)⟩
  unbracketed := ⟨fun hc => h.unbracketed.1 (hsuffix.mem hc), fun hc => h.unbracketed.2 (hsuffix.mem hc)⟩
  uncommented :=
    ⟨fun hc => h.uncommented.1 (hc.trans hsuffix.isInfix), fun hc => h.uncommented.2 (hc.trans hsuffix.isInfix)⟩
  unconnected := by
    intro word hword
    obtain hword | rfl := hwords word hword
    · exact h.unconnected word hword
    · rfl

theorem IsPlain.tail (h : IsPlain (c :: cs)) (hc : isWordChar c = false) : IsPlain cs := by
  refine h.of_suffix (List.suffix_cons c cs) fun word hword => .inl ?_
  rw [words_cons hc]
  exact List.mem_cons_of_mem _ hword

theorem IsPlain.dropWhile (h : IsPlain cs) : IsPlain (cs.dropWhile isWordChar) := by
  refine h.of_suffix (List.dropWhile_suffix isWordChar) fun word hword => ?_
  rw [words_takeWhile, takeWhile_dropWhile_isWordChar] at hword
  rw [words_takeWhile cs]
  obtain rfl | hword := List.mem_cons.1 hword
  · exact .inr rfl
  · rw [List.dropWhile_idempotent] at hword
    exact .inl (List.mem_cons_of_mem _ hword)

/-- A plain text is read as words and symbols. -/
theorem IsPlain.isPlain_of_mem_signs (h : IsPlain cs) : ∀ s ∈ signs cs, s.isPlain := by
  fun_induction signs cs with
  | case1 => simp
  | case2 c cs hblank ih =>
    have hc : isWordChar c = false := by simp [isWordChar, hblank]
    exact ih (h.tail hc)
  | case3 cs => exact absurd List.mem_cons_self h.unbracketed.1
  | case4 cs => exact absurd List.mem_cons_self h.unbracketed.2
  | case5 c cs hblank _ _ hmark =>
    rw [(h.bare (by simpa using hblank)).mark] at hmark
    cases hmark
  | case6 c cs hblank _ _ hmark =>
    rw [(h.bare (by simpa using hblank)).mark] at hmark
    cases hmark
  | case7 c cs hblank _ _ _ hcomment =>
    rw [(h.bare (by simpa using hblank)).comment] at hcomment
    cases hcomment
  | case8 c cs hblank hopening hclosing hmark hcomment hword ih =>
    have hfirst : connective? (c :: cs.takeWhile isWordChar) = none := by
      refine h.unconnected _ ?_
      rw [words_takeWhile, List.takeWhile_cons_of_pos hword]
      exact List.mem_cons_self
    have hrest : IsPlain (cs.dropWhile isWordChar) := by
      have hdrop := h.dropWhile
      rwa [List.dropWhile_cons_of_pos hword] at hdrop
    intro s hs
    obtain rfl | hs := List.mem_cons.1 hs
    · simp [wordSign, hfirst, Sign.isPlain]
    · exact ih hrest s hs
  | case9 c cs hblank hopening hclosing hmark hcomment hword ih =>
    intro s hs
    obtain rfl | hs := List.mem_cons.1 hs
    · rfl
    · exact ih (h.tail (by simpa using hword)) s hs

end

end EntitySql.Sql
