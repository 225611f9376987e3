import EntitySql.Text.Quoted

/-!
Lexemes of a raw fragment. A fragment is opaque apart from its placeholders, so the lexer tells apart only what
is needed to find them: quoted texts, double colons, placeholders, lone colons and the text between them. Main
statement: the lexemes concatenate to the source.
-/
namespace EntitySql.Fragment
open Text

def isNameStart (c : Char) : Bool :=
  ('A' ≤ c && c ≤ 'Z') || ('a' ≤ c && c ≤ 'z') || c = '_'

/-- A later character of a parameter's name, or any character of a path part. -/
def isNameChar (c : Char) : Bool :=
  isNameStart c || ('0' ≤ c && c ≤ '9')

/-- A character of plain text: neither a quote nor a colon. -/
def isPlain (c : Char) : Bool :=
  c ≠ '\'' && c ≠ '"' && c ≠ ':'

/-- A lexeme with what it holds. -/
inductive Lexeme where
  /-- A string literal, with its content. -/
  | literal (content : List Char)
  /-- A quoted identifier, with its content. -/
  | quotedName (content : List Char)
  /-- Two colons. -/
  | cast
  /-- A colon with a parameter's name and the parts of a path into it. -/
  | placeholder (name : List Char) (path : List (List Char))
  /-- A colon that starts nothing. -/
  | colon
  /-- A run without quotes and colons. -/
  | plain (run : List Char)
  /-- All that follows a quote that is never closed, the quote included. -/
  | unclosed (rest : List Char)
  deriving DecidableEq, Repr, Inhabited

/-- The text of a path: every part after a dot. -/
def pathChars (path : List (List Char)) : List Char :=
  path.flatMap ('.' :: ·)

def Lexeme.chars : Lexeme → List Char
  | literal content => quotedChars '\'' content
  | quotedName content => quotedChars '"' content
  | cast => [':', ':']
  | placeholder name path => ':' :: name ++ pathChars path
  | colon => [':']
  | plain run => run
  | unclosed rest => rest

/-- The parts of a path: a dot counts only before a name character. -/
def readPath : List Char → List (List Char) × List Char
  | '.' :: c :: cs =>
    if isNameChar c then
      let deeper := readPath (cs.dropWhile isNameChar)
      ((c :: cs.takeWhile isNameChar) :: deeper.1, deeper.2)
    else ([], '.' :: c :: cs)
  | cs => ([], cs)
termination_by cs => cs.length
decreasing_by
  have := (List.dropWhile_sublist (l := cs) isNameChar).length_le
  simp only [List.length_cons]
  omega

/-- A quoted text, or all that is left if the quote is never closed. -/
def quotedLexeme (mark : Char) (make : List Char → Lexeme) (cs : List Char) : Lexeme × List Char :=
  match closeQuoted mark cs with
  | some (content, rest) => (make content, rest)
  | none => (.unclosed (mark :: cs), [])

def colonLexeme : List Char → Lexeme × List Char
  | [] => (.colon, [])
  | c :: cs =>
    if c = ':' then (.cast, cs)
    else if isNameStart c then
      let path := readPath (cs.dropWhile isNameChar)
      (.placeholder (c :: cs.takeWhile isNameChar) path.1, path.2)
    else (.colon, c :: cs)

/-- The first lexeme of `c :: cs` and what follows it. -/
def firstLexeme (c : Char) (cs : List Char) : Lexeme × List Char :=
  if c = '\'' then quotedLexeme '\'' .literal cs
  else if c = '"' then quotedLexeme '"' .quotedName cs
  else if c = ':' then colonLexeme cs
  else (.plain (c :: cs.takeWhile isPlain), cs.dropWhile isPlain)

theorem readPath_append (cs : List Char) : pathChars (readPath cs).1 ++ (readPath cs).2 = cs := by
  fun_induction readPath cs with
  | case1 c cs hc deeper ih =>
    simp only [pathChars, List.flatMap_cons] at ih ⊢
    rw [List.append_assoc, ih]
    simp [List.takeWhile_append_dropWhile]
  | case2 => simp [pathChars]
  | case3 => simp [pathChars]

theorem quotedLexeme_append {mark : Char} {make : List Char → Lexeme} {cs : List Char}
    (hmake : ∀ body, (make body).chars = quotedChars mark body) :
    (quotedLexeme mark make cs).1.chars ++ (quotedLexeme mark make cs).2 = mark :: cs := by
  unfold quotedLexeme
  split
  · next h => simp [hmake, quotedChars, eq_of_closeQuoted h]
  · simp [Lexeme.chars]

theorem colonLexeme_append (cs : List Char) :
    (colonLexeme cs).1.chars ++ (colonLexeme cs).2 = ':' :: cs := by
  unfold colonLexeme
  split
  · rfl
  · split
    · simp_all [Lexeme.chars]
    · split
      · simp [Lexeme.chars, readPath_append, List.takeWhile_append_dropWhile]
      · simp [Lexeme.chars]

/-- The first lexeme and the rest make up the source. -/
theorem firstLexeme_append (c : Char) (cs : List Char) :
    (firstLexeme c cs).1.chars ++ (firstLexeme c cs).2 = c :: cs := by
  unfold firstLexeme
  split
  · next h => rw [h]; exact quotedLexeme_append fun _ => rfl
  · split
    · next h => rw [h]; exact quotedLexeme_append fun _ => rfl
    · split
      · next h => rw [h]; exact colonLexeme_append cs
      · simp [Lexeme.chars, List.takeWhile_append_dropWhile]

theorem chars_firstLexeme_ne_nil (c : Char) (cs : List Char) : (firstLexeme c cs).1.chars ≠ [] := by
  unfold firstLexeme quotedLexeme colonLexeme
  repeat' split
  all_goals simp [Lexeme.chars, quotedChars]

theorem length_firstLexeme_lt (c : Char) (cs : List Char) :
    (firstLexeme c cs).2.length < (c :: cs).length := by
  have happ := congrArg List.length (firstLexeme_append c cs)
  have hpos := List.length_pos_iff.2 (chars_firstLexeme_ne_nil c cs)
  simp only [List.length_append, List.length_cons] at happ ⊢
  omega

/-- All lexemes of a source, each as long as it can be. -/
def lexemes : List Char → List Lexeme
  | [] => []
  | c :: cs => (firstLexeme c cs).1 :: lexemes (firstLexeme c cs).2
termination_by cs => cs.length
decreasing_by exact length_firstLexeme_lt c cs

theorem flatMap_chars_lexemes (cs : List Char) : (lexemes cs).flatMap Lexeme.chars = cs := by
  fun_induction lexemes cs with
  | case1 => rfl
  | case2 c cs ih => simp [ih, firstLexeme_append]

end EntitySql.Fragment
