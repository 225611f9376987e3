import EntitySql.Toml.Scalar
import EntitySql.Toml.Text

/-!
TOML documents: keys with values, in tables under headers.
-/
namespace EntitySql.Toml
open Reader

/-- A key with its value: the parts before the last, the last, and the value. -/
abbrev Pair := List String × String × Item

/-- A comment, up to the end of its line. -/
def skipComment : Reader Unit := do
  let _ ← optional (word "#" *> run isLineChar)
  return ()

/-- Blanks, line breaks and comments. -/
def skipSpace : Nat → Reader Unit
  | 0 => return ()
  | steps + 1 => do
    skipBlanks
    skipComment
    match ← optional readNewline with
    | some _ => skipSpace steps
    | none => return ()

/-- The parts of a key before the last, and the last. -/
def splitKey : List String → Option (List String × String)
  | [] => none
  | parts => parts.getLast?.map fun last => (parts.dropLast, last)

/-- How many arrays and tables may lie in one another as values, and how many parts a key may have. -/
def maxNesting : Nat := 79

def readSplitKey : Reader (List String × String) := do
  let parts ← readKey ((← peek).length + 1)
  require (parts.length ≤ maxNesting)
  StateT.lift (splitKey parts)

mutual
/-- A value, in which others may lie `depth` deep. -/
def readValue (depth : Nat) : Nat → Reader Item
  | 0 => failure
  | steps + 1 =>
    (do return .string (← readText)) <|> readScalar <|>
      (do
        word "["
        require (0 < depth)
        return .array (← readItems (depth - 1) steps)) <|> do
          word "\x7b"
          require (0 < depth)
          skipBlanks
          let pairs ← (do word "\x7d"; return []) <|> readPairs (depth - 1) steps
          return .inlineTable (← StateT.lift (Entries.setAll pairs []))

/-- The items of an array up to its closing bracket; a comma may stand after the last. -/
def readItems (depth : Nat) : Nat → Reader (List Item)
  | 0 => failure
  | steps + 1 => do
    skipSpace ((← peek).length + 1)
    (do word "]"; return []) <|> do
      let item ← readValue depth steps
      skipSpace ((← peek).length + 1)
      (do word "]"; return [item]) <|> do
        word ","
        return item :: (← readItems depth steps)

/-- The pairs of a table written as a value, up to its closing bracket. -/
def readPairs (depth : Nat) : Nat → Reader (List Pair)
  | 0 => failure
  | steps + 1 => do
    let pair ← readPair depth steps
    skipBlanks
    (do word "\x7d"; return [pair]) <|> do
      word ","
      return pair :: (← readPairs depth steps)

/-- A key, an equals sign and a value. -/
def readPair (depth : Nat) : Nat → Reader Pair
  | 0 => failure
  | steps + 1 => do
    skipBlanks
    let (path, key) ← readSplitKey
    skipBlanks
    word "="
    skipBlanks
    return (path, key, ← readValue depth steps)
end

/-- A line of a document. -/
inductive Line where
  | blank
  | pair (pair : Pair)
  /-- The header of a table. -/
  | header (path : List String) (key : String)
  /-- The header of an element of an array of tables. -/
  | element (path : List String) (key : String)

def readLine : Reader Line :=
  (do
    word "[["
    skipBlanks
    let (path, key) ← readSplitKey
    skipBlanks
    word "]]"
    return .element path key) <|>
  (do
    word "["
    skipBlanks
    let (path, key) ← readSplitKey
    skipBlanks
    word "]"
    return .header path key) <|>
  (do return .pair (← readPair maxNesting ((← peek).length * 4 + 4))) <|>
  return .blank

/-- The lines of a document up to its end. -/
def readLines : Nat → Reader (List Line)
  | 0 => failure
  | steps + 1 => do
    skipBlanks
    let line ← readLine
    skipBlanks
    skipComment
    match ← optional readNewline with
    | some _ => return line :: (← readLines steps)
    | none =>
      require (← peek).isEmpty
      return [line]

/-- A header with the pairs under it. -/
structure Section where
  isElement : Bool
  path : List String
  key : String
  pairs : List Pair

/-- The pairs before the first header, and the sections. -/
def sections : List Line → List Pair × List Section
  | [] => ([], [])
  | line :: rest =>
    let (pairs, later) := sections rest
    match line with
    | .blank => (pairs, later)
    | .pair p => (p :: pairs, later)
    | .header path key => ([], ⟨false, path, key, pairs⟩ :: later)
    | .element path key => ([], ⟨true, path, key, pairs⟩ :: later)

/-- Adds the tables of sections, in order. -/
def addSections : List Section → Entries → Option Entries
  | [], root => some root
  | s :: rest, root => do
    let declare := if s.isElement then Entries.declareElement else Entries.declare
    addSections rest (← declare s.path s.key s.pairs root)

def parse (text : String) : Option Entries := do
  let cs := match text.toList with
    | '\ufeff' :: rest => rest
    | cs => cs
  let (lines, _) ← readLines (cs.length + 1) cs
  let (pairs, later) := sections lines
  addSections later (← Entries.setAll pairs [])

end EntitySql.Toml
