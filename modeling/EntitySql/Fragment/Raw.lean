import EntitySql.Text.Blank
import EntitySql.Fragment.Lexeme

/-!
Raw fragments: literal SQL split into text and placeholders. The source is trimmed, and line breaks outside quotes
collapse to one space; quoted texts stay as they are.
-/
namespace EntitySql.Fragment
open Text

/-- A piece of a raw fragment. -/
inductive Segment where
  | text (text : String)
  /-- A parameter, or what a path leads to in it. -/
  | placeholder (name : String) (path : List String)
  deriving DecidableEq, Repr, Inhabited

/-- A raw fragment. -/
structure Raw where
  segments : List Segment
  deriving DecidableEq, Repr, Inhabited

def Lexeme.segment : Lexeme → Segment
  | placeholder name path => .placeholder (String.ofList name) (path.map String.ofList)
  | plain run => .text (String.ofList (collapseLineBreaks run))
  | x => .text (String.ofList x.chars)

/-- Puts a segment in front; two texts become one. -/
def Segment.attach : Segment → List Segment → List Segment
  | .text a, .text b :: rest => .text (a ++ b) :: rest
  | x, rest => x :: rest

def Raw.ofSql (sql : String) : Raw :=
  ⟨((lexemes (trimChars sql.toList)).map Lexeme.segment).foldr Segment.attach []⟩

/-- The parameters a fragment names, in the order of its placeholders. -/
def Raw.parameterNames (raw : Raw) : List String :=
  raw.segments.filterMap fun
    | .placeholder name _ => some name
    | .text _ => none

def Raw.isEmpty (raw : Raw) : Bool :=
  raw.segments.isEmpty

end EntitySql.Fragment
