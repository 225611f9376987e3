import EntitySql.Json.Basic

/-!
Writing JSON. Strings escape quotes, backslashes and control characters and keep all else; there is a compact form
and one that indents by two spaces.
-/
namespace EntitySql.Json

def hexDigit (n : Nat) : Char :=
  Nat.digitChar (n % 16)

def escapedChar (c : Char) : List Char :=
  if c = '"' then ['\\', '"']
  else if c = '\\' then ['\\', '\\']
  else if c = '\n' then ['\\', 'n']
  else if c = '\r' then ['\\', 'r']
  else if c = '\t' then ['\\', 't']
  else if c.toNat = 8 then ['\\', 'b']
  else if c.toNat = 12 then ['\\', 'f']
  else if c.toNat < 32 then ['\\', 'u', '0', '0', hexDigit (c.toNat / 16), hexDigit c.toNat]
  else [c]

def stringChars (s : String) : List Char :=
  '"' :: s.toList.flatMap escapedChar ++ ['"']

/-- A written value that is neither a list nor an object. -/
def leafChars : Json → List Char
  | .bool b => (if b then "true" else "false").toList
  | .int n => (toString n).toList
  | .number x => x.text.toList
  | .str s => stringChars s
  | _ => "null".toList

mutual
def compactChars : Json → List Char
  | .arr items => '[' :: compactItems items ++ [']']
  | .obj members => '\x7b' :: compactMembers members ++ ['\x7d']
  | leaf => leafChars leaf

def compactItems : List Json → List Char
  | [] => []
  | [x] => compactChars x
  | x :: y :: xs => compactChars x ++ ',' :: compactItems (y :: xs)

def compactMembers : List (String × Json) → List Char
  | [] => []
  | [(key, x)] => stringChars key ++ ':' :: compactChars x
  | (key, x) :: y :: xs => stringChars key ++ ':' :: compactChars x ++ ',' :: compactMembers (y :: xs)
end

def compact (x : Json) : String :=
  String.ofList (compactChars x)

/-- A line break and the indentation of a depth. -/
def newline (depth : Nat) : List Char :=
  '\n' :: List.replicate (2 * depth) ' '

mutual
/-- The indented form at a depth; empty lists and objects stay on one line. -/
def prettyChars (depth : Nat) : Json → List Char
  | .arr [] => ['[', ']']
  | .arr (x :: xs) => '[' :: prettyItems (depth + 1) (x :: xs) ++ newline depth ++ [']']
  | .obj [] => ['\x7b', '\x7d']
  | .obj (x :: xs) => '\x7b' :: prettyMembers (depth + 1) (x :: xs) ++ newline depth ++ ['\x7d']
  | leaf => leafChars leaf

/-- Items, each on a line of its own. -/
def prettyItems (depth : Nat) : List Json → List Char
  | [] => []
  | [x] => newline depth ++ prettyChars depth x
  | x :: y :: xs => newline depth ++ prettyChars depth x ++ ',' :: prettyItems depth (y :: xs)

/-- Members, each on a line of its own. -/
def prettyMembers (depth : Nat) : List (String × Json) → List Char
  | [] => []
  | [(key, x)] => newline depth ++ stringChars key ++ ':' :: ' ' :: prettyChars depth x
  | (key, x) :: y :: xs =>
    newline depth ++ stringChars key ++ ':' :: ' ' :: prettyChars depth x ++ ',' :: prettyMembers depth (y :: xs)
end

def pretty (x : Json) : String :=
  String.ofList (prettyChars 0 x)

end EntitySql.Json
