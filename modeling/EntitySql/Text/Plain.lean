/-!
Plain text: what is left of a text where no terminal reads it. Control characters that are no blanks are left out,
and with an escape character the whole sequence it opens.
-/
namespace EntitySql.Text

/-- The place in a text with escape sequences. -/
inductive EscapeState where
  /-- Outside of a sequence. -/
  | outside
  /-- After an escape character. -/
  | opened
  /-- After a character that goes between an escape character and the end of a short sequence. -/
  | selecting
  /-- In a sequence of parameters. -/
  | parameters
  /-- In a string for the terminal, which a bell ends if so marked. -/
  | string (bell : Bool)
  deriving DecidableEq, Repr, Inhabited

/-- Controls that lay text out: tab, line feed, form feed and return. -/
def isLayout (c : Char) : Bool :=
  c = '\t' || c = '\n' || c = '\x0c' || c = '\r'

def isControl (c : Char) : Bool :=
  c.toNat < 32 || c.toNat = 127

/-- Whether a character is left out, and the place after it. -/
def EscapeState.next (s : EscapeState) (c : Char) : Bool × EscapeState :=
  if c = '\x1b' then (true, opened)
  else if c = '\x18' || c = '\x1a' then (true, outside)
  else match s with
    | outside => (isControl c && !isLayout c, outside)
    | string bell => (true, if bell && c = '\x07' then outside else s)
    | opened =>
      if isLayout c then (false, outside)
      else if c = '[' then (true, parameters)
      else if c = ']' then (true, string true)
      else if c ∈ ['P', 'X', '^', '_'] then (true, string false)
      else if ' ' ≤ c && c ≤ '/' then (true, selecting)
      else (true, if '0' ≤ c && c ≤ '~' then outside else opened)
    | selecting =>
      if isLayout c then (false, outside) else (true, if '0' ≤ c && c ≤ '~' then outside else selecting)
    | parameters =>
      if isLayout c then (false, outside) else (true, if '@' ≤ c && c ≤ '~' then outside else parameters)

/-- The text without controls and escape sequences, from a place on. -/
def plainFrom (s : EscapeState) : List Char → List Char
  | [] => []
  | c :: cs =>
    let (leftOut, after) := s.next c
    if leftOut then plainFrom after cs else c :: plainFrom after cs

def plain (text : String) : String :=
  String.ofList (plainFrom .outside text.toList)

end EntitySql.Text
