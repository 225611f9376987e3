import EntitySql.Json.Basic

/-!
Reading JSON. A text gives a tree in the order of its source, which ends at the first place where the text stops
being JSON. Of two steps one reads a character, so the length of the text bounds the steps.
-/
namespace EntitySql.Json

/-- The four characters that may stand between the parts of a text. -/
def isSpace (c : Char) : Bool :=
  c = ' ' || c = '\n' || c = '\t' || c = '\r'

def skipSpace (cs : List Char) : List Char :=
  cs.dropWhile isSpace

def hexValue? (c : Char) : Option Nat :=
  if '0' ≤ c && c ≤ '9' then some (c.toNat - 48)
  else if 'a' ≤ c && c ≤ 'f' then some (c.toNat - 87)
  else if 'A' ≤ c && c ≤ 'F' then some (c.toNat - 55)
  else none

def hexUnit? (a b c d : Char) : Option Nat := do
  return (← hexValue? a) * 4096 + (← hexValue? b) * 256 + (← hexValue? c) * 16 + (← hexValue? d)

def simpleEscape? (c : Char) : Option Char :=
  match c with
  | '"' => some '"'
  | '\\' => some '\\'
  | '/' => some '/'
  | 'b' => some (Char.ofNat 8)
  | 'f' => some (Char.ofNat 12)
  | 'n' => some '\n'
  | 'r' => some '\r'
  | 't' => some '\t'
  | _ => none

/-- A part of a string as written: a character, or a code unit of 16 bits. -/
inductive StringPart where
  | char (c : Char)
  | unit (n : Nat)
  deriving DecidableEq, Repr

/-- The parts of a string up to its closing quote, and what follows the quote. -/
def stringParts : List Char → Option (List StringPart × List Char)
  | [] => none
  | '"' :: rest => some ([], rest)
  | '\\' :: 'u' :: a :: b :: c :: d :: rest => do
    let n ← hexUnit? a b c d
    let (parts, after) ← stringParts rest
    return (.unit n :: parts, after)
  | '\\' :: e :: rest => do
    let c ← simpleEscape? e
    let (parts, after) ← stringParts rest
    return (.char c :: parts, after)
  | c :: rest =>
    if c.toNat < 32 || c = '\\' then none
    else do
      let (parts, after) ← stringParts rest
      return (.char c :: parts, after)

/-- The characters that parts stand for; none if a surrogate has no partner. -/
def joinParts : List StringPart → Option (List Char)
  | [] => some []
  | .char c :: parts => (joinParts parts).map (c :: ·)
  | .unit n :: parts =>
    if n < 0xd800 || 0xe000 ≤ n then (joinParts parts).map (Char.ofNat n :: ·)
    else if 0xdc00 ≤ n then none
    else match parts with
      | .unit m :: rest =>
        if 0xdc00 ≤ m && m < 0xe000 then
          (joinParts rest).map (Char.ofNat (0x10000 + (n - 0xd800) * 0x400 + (m - 0xdc00)) :: ·)
        else none
      | _ => none

def digitValues (cs : List Char) : List Nat :=
  cs.map fun c => c.toNat - 48

/-- Appends digits to a significand as long as it fits in 64 bits; also the number of digits left over. -/
def appendDigits (significand : Nat) : List Nat → Nat × Nat
  | [] => (significand, 0)
  | d :: ds =>
    if significand * 10 + d < UInt64.size then appendDigits (significand * 10 + d) ds
    else (significand, (d :: ds).length)

def ofParts (negative : Bool) (whole : List Char) (fraction : Option (List Char)) (exponent : Option Int) : Json :=
  let (head, dropped) := appendDigits 0 (digitValues whole)
  if fraction.isNone && exponent.isNone && dropped = 0 && (!negative || (0 < head && 2 * head ≤ UInt64.size)) then
    .int (if negative then -(head : Int) else head)
  else
    let places := fraction.getD []
    let (digits, unread) := appendDigits head (digitValues places)
    let x : Scaled := ⟨negative, digits,
      exponent.getD 0 + dropped - ((places.length : Int) - unread)⟩
    if x.magnitude?.isSome then .number x else .unreadable

/-- A run of digits, not empty. -/
def digits? (cs : List Char) : Option (List Char × List Char) :=
  match cs.takeWhile Char.isDigit with
  | [] => none
  | run => some (run, cs.dropWhile Char.isDigit)

/-- The digits before the point: one zero, or a run that starts with another digit. -/
def wholeDigits? : List Char → Option (List Char × List Char)
  | '0' :: rest => if (rest.takeWhile Char.isDigit).isEmpty then some (['0'], rest) else none
  | cs => digits? cs

/-- The digits after a point, if there is one. -/
def fraction? : List Char → Option (Option (List Char) × List Char)
  | '.' :: rest => (digits? rest).map fun (run, after) => (some run, after)
  | cs => some (none, cs)

/-- The power of ten that follows a letter e, if there is one. -/
def exponent? : List Char → Option (Option Int × List Char)
  | [] => some (none, [])
  | c :: rest =>
    if c = 'e' || c = 'E' then
      let (negative, unsigned) := match rest with
        | '-' :: more => (true, more)
        | '+' :: more => (false, more)
        | more => (false, more)
      (digits? unsigned).map fun (run, after) =>
        let n : Nat := (digitValues run).foldl (fun n d => n * 10 + d) 0
        (some (if negative then -(n : Int) else n), after)
    else some (none, c :: rest)

def unsigned? (negative : Bool) (cs : List Char) : Option (Json × List Char) := do
  let (whole, afterWhole) ← wholeDigits? cs
  let (fraction, afterFraction) ← fraction? afterWhole
  let (exponent, rest) ← exponent? afterFraction
  return (ofParts negative whole fraction exponent, rest)

def dropWord? (word cs : List Char) : Option (List Char) :=
  if word.isPrefixOf cs then some (cs.drop word.length) else none

/-- A value that starts with none of the brackets. -/
def leaf : List Char → Json × Option (List Char)
  | '"' :: rest =>
    match stringParts rest with
    | some (parts, after) =>
      (match joinParts parts with
        | some cs => .str (String.ofList cs)
        | none => .unreadable, some after)
    | none => (.broken, none)
  | 'n' :: rest => ofWord .null (dropWord? ['u', 'l', 'l'] rest)
  | 't' :: rest => ofWord (.bool true) (dropWord? ['r', 'u', 'e'] rest)
  | 'f' :: rest => ofWord (.bool false) (dropWord? ['a', 'l', 's', 'e'] rest)
  | '-' :: rest => ofNumber (unsigned? true rest)
  | cs => ofNumber (unsigned? false cs)
where
  /-- A value spelled by a word. -/
  ofWord (value : Json) : Option (List Char) → Json × Option (List Char)
    | some rest => (value, some rest)
    | none => (.broken, none)
  /-- A number. -/
  ofNumber : Option (Json × List Char) → Json × Option (List Char)
    | some (value, rest) => (value, some rest)
    | none => (.broken, none)

/-- A key; none in its place if it holds half a surrogate pair. -/
def key? : List Char → Option (Option String × List Char)
  | '"' :: rest => do
    let (parts, after) ← stringParts rest
    return ((joinParts parts).map String.ofList, after)
  | _ => none

def member : Option String → Json → String × Json
  | some key, x => (key, x)
  | none, x => ("", .misnamed (if x.isWellFormed then .unreadable else .broken))

/-- The member of a place that should hold a key and does not: what stands there, told from its beginning. -/
def keyless (cs : List Char) : String × Json :=
  ("", .misnamed (match cs with
    | '[' :: _ => .arr []
    | '\x7b' :: _ => .obj []
    | '"' :: _ => .broken
    | _ => (leaf cs).1))

mutual
/-- A value and, unless reading broke off, the text after it. -/
def value : Nat → List Char → Json × Option (List Char)
  | 0, _ => (.broken, none)
  | steps + 1, cs =>
    match skipSpace cs with
    | '[' :: rest =>
      match skipSpace rest with
      | ']' :: after => (.arr [], some after)
      | inner => let (items, after) := items steps inner; (.arr items, after)
    | '\x7b' :: rest =>
      match skipSpace rest with
      | '\x7d' :: after => (.obj [], some after)
      | inner => let (members, after) := members steps inner; (.obj members, after)
    | other => leaf other

/-- The items from the current one to the closing bracket. -/
def items : Nat → List Char → List Json × Option (List Char)
  | 0, _ => ([.broken], none)
  | steps + 1, cs =>
    match value steps cs with
    | (x, none) => ([x], none)
    | (x, some rest) =>
      match skipSpace rest with
      | ',' :: more => let (xs, after) := items steps more; (x :: xs, after)
      | ']' :: after => ([x], some after)
      | _ => ([x, .broken], none)

/-- The members from the current one to the closing bracket. -/
def members : Nat → List Char → List (String × Json) × Option (List Char)
  | 0, _ => ([("", .misnamed .broken)], none)
  | steps + 1, cs =>
    match key? (skipSpace cs) with
    | none => ([keyless (skipSpace cs)], none)
    | some (key, afterKey) =>
      match skipSpace afterKey with
      | ':' :: rest =>
        match value steps rest with
        | (x, none) => ([member key x], none)
        | (x, some rest) =>
          match skipSpace rest with
          | ',' :: more => let (xs, after) := members steps more; (member key x :: xs, after)
          | '\x7d' :: after => ([member key x], some after)
          | _ => ([member key x, ("", .misnamed .broken)], none)
      | _ => ([member key .broken], none)
end

/-- A text as read: its value, and whether something other than space follows it. -/
structure Document where
  root : Json
  trailing : Bool
  deriving Repr

def Document.ofText (text : String) : Document :=
  match value (2 * text.length + 2) text.toList with
  | (root, none) => ⟨root, false⟩
  | (root, some rest) => ⟨root, !(skipSpace rest).isEmpty⟩

end EntitySql.Json
