import EntitySql.Fragment.Raw
import Mathlib

/-! The texts of a raw fragment. They hold nothing but characters of the source and spaces, and none that follows a
placeholder begins with a digit: a digit would have been read as part of the name. -/
namespace EntitySql.Fragment
open Text
variable {c : Char} {cs : List Char}

theorem mem_of_mem_trimChars (h : c ∈ trimChars cs) : c ∈ cs := by
  have hinner := (List.dropWhile_sublist isBlank).subset (List.mem_reverse.1 h)
  exact (List.dropWhile_sublist isBlank).subset (List.mem_reverse.1 hinner)

theorem trimChars_eq_nil : trimChars cs = [] ↔ ∀ c ∈ cs, isBlank c := by
  unfold trimChars
  constructor
  · intro h
    rw [List.reverse_eq_nil_iff, List.dropWhile_eq_nil_iff] at h
    cases hrest : cs.dropWhile isBlank with
    | nil => exact List.dropWhile_eq_nil_iff.1 hrest
    | cons d rest =>
      -- what is left after the first blanks begins with no blank
      have hd : isBlank d = false := by simpa [hrest] using List.head?_dropWhile_not isBlank cs
      rw [h d (by simp [hrest])] at hd
      cases hd
  · intro h
    simp [List.dropWhile_eq_nil_iff.2 h]

/-- A fragment without segments is one of blanks only. -/
theorem segments_ofSql_eq_nil {sql : String} : (Raw.ofSql sql).segments = [] ↔ ∀ c ∈ sql.toList, isBlank c := by
  have hattach : ∀ (x : Segment) (xs : List Segment), x.attach xs ≠ [] := by
    intro x xs
    unfold Segment.attach
    split <;> simp
  rw [← trimChars_eq_nil, Raw.ofSql]
  cases htrim : trimChars sql.toList with
  | nil => simp [lexemes]
  | cons c cs =>
    rw [lexemes, List.map_cons, List.foldr_cons]
    simp [hattach]

theorem mem_collapsedRun {run : List Char} (h : c ∈ collapsedRun run) : c ∈ run ∨ c = ' ' := by
  unfold collapsedRun at h
  split at h
  · exact .inr (List.mem_singleton.1 h)
  · exact .inl h

theorem mem_collapseAfter {run : List Char} (h : c ∈ collapseAfter run cs) : c ∈ run ++ cs ∨ c = ' ' := by
  induction cs generalizing run with
  | nil => simpa using mem_collapsedRun h
  | cons d cs ih =>
    rw [collapseAfter] at h
    split at h
    · simpa using ih h
    · obtain h | h := List.mem_append.1 h
      · obtain h | h := mem_collapsedRun h
        · exact .inl (List.mem_append_left _ h)
        · exact .inr h
      · obtain rfl | h := List.mem_cons.1 h
        · exact .inl (by simp)
        · obtain h | h := ih h
          · exact .inl (List.mem_append_right _ (List.mem_cons_of_mem _ h))
          · exact .inr h

theorem head_collapsedRun {run : List Char} :
    (collapsedRun run).head? = run.head? ∨ (collapsedRun run).head? = some ' ' := by
  unfold collapsedRun
  split
  · exact .inr rfl
  · exact .inl rfl

theorem head_collapseAfter {run : List Char} :
    (collapseAfter run cs).head? = (run ++ cs).head? ∨ (collapseAfter run cs).head? = some ' ' := by
  induction cs generalizing run with
  | nil =>
    rw [collapseAfter, List.append_nil]
    exact head_collapsedRun
  | cons d cs ih =>
    rw [collapseAfter]
    split
    · simpa using @ih (run ++ [d])
    · rw [List.head?_append, List.head?_append]
      obtain h | h := @head_collapsedRun run
      · exact .inl (by rw [h]; rfl)
      · exact .inr (by rw [h]; rfl)

/-- A text that no number before it can run on into. -/
def NoDigitFirst (cs : List Char) : Prop :=
  ∃ c ∈ cs.head?, c.isDigit = false

theorem noDigitFirst_append {a : List Char} (h : NoDigitFirst a) (b : List Char) : NoDigitFirst (a ++ b) := by
  obtain ⟨c, hc, hdigit⟩ := h
  exact ⟨c, by simp [List.head?_append, Option.mem_def.1 hc], hdigit⟩

theorem noDigitFirst_collapse (h : NoDigitFirst cs) : NoDigitFirst (collapseLineBreaks cs) := by
  obtain ⟨c, hc, hdigit⟩ := h
  obtain hhead | hhead := @head_collapseAfter cs []
  · exact ⟨c, hhead.trans hc, hdigit⟩
  · exact ⟨' ', hhead, rfl⟩

theorem isDigit_of_not_isNameChar (h : isNameChar c = false) : c.isDigit = false := by
  simp only [isNameChar, Bool.or_eq_false_iff, Bool.and_eq_false_iff, decide_eq_false_iff_not] at h
  simp only [Char.isDigit, Bool.and_eq_false_iff, decide_eq_false_iff_not]
  exact h.2

theorem head_dropWhile (p : Char → Bool) (cs : List Char) : ∀ d ∈ (cs.dropWhile p).head?, p d = false := by
  intro d hd
  have hfirst := List.head?_dropWhile_not p cs
  rw [Option.mem_def.1 hd] at hfirst
  exact hfirst

theorem head_readPath (h : ∀ d ∈ cs.head?, isNameChar d = false) :
    ∀ d ∈ (readPath cs).2.head?, isNameChar d = false := by
  fun_induction readPath cs with
  | case1 c cs hc deeper ih => exact ih (head_dropWhile isNameChar cs)
  | case2 c cs hc => exact h
  | case3 => exact h

theorem head_colonLexeme {name : List Char} {path : List (List Char)}
    (h : (colonLexeme cs).1 = .placeholder name path) :
    ∀ d ∈ (colonLexeme cs).2.head?, isNameChar d = false := by
  unfold colonLexeme at h ⊢
  cases cs with
  | nil => cases h
  | cons c cs =>
    dsimp only at h ⊢
    split at h
    · cases h
    · split at h
      · next hcolon hstart =>
        rw [if_neg hcolon, if_pos hstart]
        exact head_readPath (head_dropWhile isNameChar cs)
      · cases h

/-- What follows a placeholder would not have belonged to it. -/
theorem head_of_placeholder {name : List Char} {path : List (List Char)}
    (h : (firstLexeme c cs).1 = .placeholder name path) :
    ∀ d ∈ (firstLexeme c cs).2.head?, isNameChar d = false := by
  have hquoted : ∀ mark make, (∀ body, make body ≠ Lexeme.placeholder name path) →
      (quotedLexeme mark make cs).1 ≠ .placeholder name path := by
    intro mark make hmake
    unfold quotedLexeme
    split
    · exact hmake _
    · simp
  unfold firstLexeme at h ⊢
  split at h
  · exact absurd h (hquoted _ _ (by simp))
  · split at h
    · exact absurd h (hquoted _ _ (by simp))
    · split at h
      · next hliteral hname hcolon =>
        rw [if_neg hliteral, if_neg hname, if_pos hcolon]
        exact head_colonLexeme h
      · cases h

/-- What may follow a lexeme: anything, but after a placeholder no digit. -/
def Lexeme.Apart : Lexeme → Lexeme → Prop
  | .placeholder _ _, next => NoDigitFirst next.chars
  | _, _ => True

theorem head_lexemes (h : ∀ d ∈ cs.head?, isNameChar d = false) :
    ∀ x ∈ (lexemes cs).head?, NoDigitFirst x.chars := by
  intro x hx
  cases cs with
  | nil => simp [lexemes] at hx
  | cons c cs =>
    rw [lexemes] at hx
    cases hx
    have hne := chars_firstLexeme_ne_nil c cs
    have happend := congrArg List.head? (firstLexeme_append c cs)
    rw [List.head?_append_of_ne_nil _ hne] at happend
    exact ⟨c, happend, isDigit_of_not_isNameChar (h c rfl)⟩

theorem isChain_lexemes (cs : List Char) : (lexemes cs).IsChain Lexeme.Apart := by
  fun_induction lexemes cs with
  | case1 => exact .nil
  | case2 c cs ih =>
    refine List.isChain_cons.2 ⟨?_, ih⟩
    intro next hnext
    cases hfirst : (firstLexeme c cs).1 with
    | placeholder name path => exact head_lexemes (head_of_placeholder hfirst) next hnext
    | literal | quotedName | cast | colon | plain | unclosed => trivial

def Segment.NoDigitFirst : Segment → Prop
  | .text s => Fragment.NoDigitFirst s.toList
  | .placeholder _ _ => True

def Segment.Apart : Segment → Segment → Prop
  | .placeholder _ _, next => next.NoDigitFirst
  | .text _, _ => True

theorem Lexeme.noDigitFirst_segment {x : Lexeme} (h : Fragment.NoDigitFirst x.chars) : x.segment.NoDigitFirst := by
  cases x with
  | placeholder name path => trivial
  | plain run =>
    rw [segment, Segment.NoDigitFirst, String.toList_ofList]
    exact noDigitFirst_collapse h
  | literal | quotedName | cast | colon | unclosed => simpa [segment, Segment.NoDigitFirst] using h

theorem Lexeme.apart_segment {x y : Lexeme} (h : x.Apart y) : x.segment.Apart y.segment := by
  cases x with
  | placeholder name path => exact noDigitFirst_segment h
  | literal | quotedName | cast | colon | plain | unclosed => trivial

/-- Segments that stand apart still do when texts are joined, and the first one begins as before. -/
theorem isChain_attached {ss : List Segment} (h : ss.IsChain Segment.Apart) :
    (ss.foldr Segment.attach []).IsChain Segment.Apart ∧
      ((∀ s ∈ ss.head?, s.NoDigitFirst) → ∀ s ∈ (ss.foldr Segment.attach []).head?, s.NoDigitFirst) := by
  induction ss with
  | nil => exact ⟨.nil, fun h => h⟩
  | cons s ss ih =>
    obtain ⟨hnext, hss⟩ := List.isChain_cons.1 h
    obtain ⟨hchain, hhead⟩ := ih hss
    rw [List.foldr_cons]
    generalize ss.foldr Segment.attach [] = joined at hchain hhead ⊢
    unfold Segment.attach
    split
    · next a b rest =>
      refine ⟨List.isChain_cons.2 ⟨fun _ _ => trivial, (List.isChain_cons.1 hchain).2⟩, fun hfirst s hs => ?_⟩
      cases hs
      rw [Segment.NoDigitFirst, String.toList_append]
      exact noDigitFirst_append (hfirst _ rfl) _
    · refine ⟨List.isChain_cons.2 ⟨?_, hchain⟩, fun hfirst => hfirst⟩
      cases s with
      | text a => exact fun _ _ => trivial
      | placeholder name path => exact hhead hnext

/-- No text that follows a placeholder begins with a digit. -/
theorem isChain_ofSql (sql : String) : (Raw.ofSql sql).segments.IsChain Segment.Apart :=
  (isChain_attached
    (List.isChain_map_of_isChain Lexeme.segment (fun _ _ => Lexeme.apart_segment) (isChain_lexemes _))).1

def Segment.chars : Segment → List Char
  | .text s => s.toList
  | .placeholder _ _ => []

theorem Lexeme.mem_chars_segment {x : Lexeme} (h : c ∈ x.segment.chars) : c ∈ x.chars ∨ c = ' ' := by
  cases x with
  | placeholder name path => cases h
  | plain run =>
    rw [segment, Segment.chars, String.toList_ofList] at h
    exact mem_collapseAfter h
  | literal | quotedName | cast | colon | unclosed => exact .inl (by simpa [segment, Segment.chars] using h)

theorem chars_attached (ss : List Segment) :
    (ss.foldr Segment.attach []).flatMap Segment.chars = ss.flatMap Segment.chars := by
  induction ss with
  | nil => rfl
  | cons s ss ih =>
    rw [List.foldr_cons, List.flatMap_cons, ← ih]
    generalize ss.foldr Segment.attach [] = joined
    unfold Segment.attach
    split
    · simp [Segment.chars]
    · rfl

/-- The texts of a fragment hold characters of its source and spaces. -/
theorem mem_chars_ofSql {sql : String} {s : Segment} (hs : s ∈ (Raw.ofSql sql).segments) (h : c ∈ s.chars) :
    c ∈ sql.toList ∨ c = ' ' := by
  have hall := List.mem_flatMap.2 ⟨s, hs, h⟩
  rw [Raw.ofSql, chars_attached, List.flatMap_map] at hall
  obtain ⟨x, hx, hc⟩ := List.mem_flatMap.1 hall
  obtain hc | hc := Lexeme.mem_chars_segment hc
  · have hsource := List.mem_flatMap.2 ⟨x, hx, hc⟩
    rw [flatMap_chars_lexemes] at hsource
    exact .inl (mem_of_mem_trimChars hsource)
  · exact .inr hc

end EntitySql.Fragment
