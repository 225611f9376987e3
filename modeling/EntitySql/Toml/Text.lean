import EntitySql.Toml.Scan

/-!
Texts and keys of TOML. A text stands in double quotes, with escapes, or in single quotes, without; three quotes
let it go over several lines.
-/
namespace EntitySql.Toml
open Reader

/-- A character that may stand in a line: a tab, or no control character. -/
def isLineChar (c : Char) : Bool :=
  c = '\t' || (32 ≤ c.toNat && c.toNat ≠ 127)

/-- The character of a code point; a surrogate has none. -/
def scalar? (n : Nat) : Option Char :=
  if n < 0xd800 || (0xe000 ≤ n && n < 0x110000) then some (Char.ofNat n) else none

def readEscape : Reader Char := do
  let c ← char fun _ => true
  match c with
  | 'b' => return Char.ofNat 8
  | 't' => return '\t'
  | 'n' => return '\n'
  | 'f' => return Char.ofNat 12
  | 'r' => return '\r'
  | '"' => return '"'
  | '\\' => return '\\'
  | 'u' => StateT.lift (scalar? (digitsValue 16 (← times 4 isHexDigit)))
  | 'U' => StateT.lift (scalar? (digitsValue 16 (← times 8 isHexDigit)))
  | _ => failure

def readNewline : Reader Unit :=
  word "\n" <|> word "\r\n"

def skipBlanks : Reader Unit := do
  let _ ← run fun c => c = ' ' || c = '\t'
  return ()

def skipLines : Nat → Reader Unit
  | 0 => return ()
  | steps + 1 => do
    skipBlanks
    match ← optional readNewline with
    | some _ => skipLines steps
    | none => return ()

def basicRest : Nat → Reader (List Char)
  | 0 => failure
  | steps + 1 => do
    let c ← char isLineChar
    if c = '"' then return []
    else
      let c ← if c = '\\' then readEscape else pure c
      return c :: (← basicRest steps)

/-- The end of a text in three quotes, before which up to two quotes may stand. -/
def readClosing (quote : Char) : Reader (List Char) := do
  let quotes ← (do return (← peek).takeWhile (· = quote))
  let count := min quotes.length 5
  require (3 ≤ count)
  times count (· = quote) *> pure (List.replicate (count - 3) quote)

/-- A line break with the backslash before it, and the blanks and line breaks after it. -/
def readContinuation : Reader Unit := do
  word "\\"
  skipBlanks
  readNewline
  skipLines ((← peek).length + 1)

/-- The rest of a text in three double quotes. -/
def longBasicRest : Nat → Reader (List Char)
  | 0 => failure
  | steps + 1 =>
    readClosing '"' <|> (do readNewline; return '\n' :: (← longBasicRest steps)) <|>
      (do readContinuation; longBasicRest steps) <|> do
        let c ← char isLineChar
        let c ← if c = '\\' then readEscape else pure c
        return c :: (← longBasicRest steps)

/-- The rest of a text in three single quotes. -/
def longLiteralRest : Nat → Reader (List Char)
  | 0 => failure
  | steps + 1 =>
    readClosing '\'' <|> (do readNewline; return '\n' :: (← longLiteralRest steps)) <|> do
      let c ← char isLineChar
      return c :: (← longLiteralRest steps)

def basicText : Reader String := do
  word "\""
  return String.ofList (← basicRest ((← peek).length + 1))

def literalText : Reader String := do
  word "'"
  let cs ← run fun c => isLineChar c && c ≠ '\''
  word "'"
  return String.ofList cs

/-- A text in three quotes; a line break right after them does not count. -/
def longText (mark : String) (rest : Nat → Reader (List Char)) : Reader String := do
  word mark
  let _ ← optional readNewline
  return String.ofList (← rest ((← peek).length + 1))

def readText : Reader String :=
  longText "\"\"\"" longBasicRest <|> basicText <|> longText "'''" longLiteralRest <|> literalText

def readKeyPart : Reader String :=
  (do return String.ofList (← run1 fun c => c.isAlphanum || c = '_' || c = '-')) <|> basicText <|> literalText

/-- A key: its parts, with dots between them. -/
def readKey : Nat → Reader (List String)
  | 0 => failure
  | steps + 1 => do
    let first ← readKeyPart
    let more ← optional (do skipBlanks; word "."; skipBlanks; readKey steps)
    return first :: more.getD []

end EntitySql.Toml
