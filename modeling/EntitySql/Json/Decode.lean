import EntitySql.Json.Read
import EntitySql.Text.Shown

/-!
Decoding JSON into types. Of several faults the first in the order of the source is reported; a missing field is
found at the end of its object. A record may also be written as a list of its fields in order.

A value that is written in an object with a tag is decoded only after the whole object has been read. It is
called buffered, and a few of its faults read differently.
-/
namespace EntitySql.Json

/-- Why a text does not decode. -/
inductive Fault where
  /-- The text is not JSON, or stands for nothing. -/
  | malformed
  | invalidType (found expected : String)
  | invalidValue (found expected : String)
  | invalidLength (length : Nat) (expected : String)
  | missingField (name : String)
  | duplicateField (name : String)
  | unknownVariant (name : String) (variants : List String)
  /-- A value of the right form that is refused for another reason. -/
  | refused (reason : String)
  deriving DecidableEq, Repr, Inhabited

def ticked (name : String) : String :=
  "`" ++ name ++ "`"

def alternatives : List String → String
  | [] => "there are no variants"
  | [a] => "expected " ++ ticked a
  | [a, b] => "expected " ++ ticked a ++ " or " ++ ticked b
  | names => "expected one of " ++ ", ".intercalate (names.map ticked)

/-- The message of a fault; a malformed text has none. -/
def Fault.message? : Fault → Option String
  | malformed => none
  | invalidType found expected => some ("invalid type: " ++ found ++ ", expected " ++ expected)
  | invalidValue found expected => some ("invalid value: " ++ found ++ ", expected " ++ expected)
  | invalidLength length expected => some ("invalid length " ++ toString length ++ ", expected " ++ expected)
  | missingField name => some ("missing field " ++ ticked name)
  | duplicateField name => some ("duplicate field " ++ ticked name)
  | unknownVariant name variants =>
    some ("unknown variant " ++ ticked name ++ ", " ++ alternatives variants)
  | refused reason => some reason

abbrev Decoder (α : Type) := Json → Except Fault α

/-- What a value is called where it does not fit; none if it cannot be read. -/
def describe? : Json → Option String
  | .null => some "null"
  | .bool b => some ("boolean " ++ ticked (if b then "true" else "false"))
  | .int n => some ("integer " ++ ticked (toString n))
  | .number x => some ("floating point " ++ ticked x.text)
  | .str s => some ("string " ++ Text.shown s)
  | .arr _ => some "sequence"
  | .obj _ => some "map"
  | .unreadable => none
  | .misnamed _ => none
  | .broken => none

/-- The fault of a value that is not of the expected type. -/
def mismatch (expected : String) (x : Json) : Fault :=
  match x.describe? with
  | some found => .invalidType found expected
  | none => .malformed

def string : Decoder String
  | .str s => .ok s
  | x => .error (x.mismatch "a string")

def boolean : Decoder Bool
  | .bool b => .ok b
  | x => .error (x.mismatch "a boolean")

def natural (expected : String) (bound : Nat) : Decoder Nat
  | .int n =>
    if 0 ≤ n && n < bound then .ok n.toNat
    else .error (.invalidValue ("integer " ++ ticked (toString n)) expected)
  | x => .error (x.mismatch expected)

def word8 : Decoder UInt8 := fun x => (natural "u8" UInt8.size x).map UInt8.ofNat

def word32 : Decoder UInt32 := fun x => (natural "u32" UInt32.size x).map UInt32.ofNat

def word64 : Decoder UInt64 := fun x => (natural "u64" UInt64.size x).map UInt64.ofNat

def decodeItems {α : Type} (item : Decoder α) : List Json → Except Fault (List α)
  | [] => .ok []
  | x :: xs => do
    let a ← item x
    let as ← decodeItems item xs
    return a :: as

def list {α : Type} (item : Decoder α) : Decoder (List α)
  | .arr items => decodeItems item items
  | x => .error (x.mismatch "a sequence")

def byName {α : Type} (label : α → String) (all : List α) (name : String) : Except Fault α :=
  match all.find? (label · == name) with
  | some a => .ok a
  | none => .error (.unknownVariant name (all.map label))

/-- A value without content: its name, or an object whose only member has this name and holds null. -/
def variant {α : Type} (label : α → String) (all : List α) : Decoder α
  | .str name => byName label all name
  | .obj ((_, .misnamed key) :: _) => .error (key.mismatch "variant identifier")
  | .obj ((name, content) :: more) => do
    let a ← byName label all name
    match content, more with
    | .null, [] => return a
    | .null, _ => throw .malformed
    | x, _ => throw (x.mismatch "unit")
  | _ => .error .malformed

/-- A buffered value without content. An empty object may stand for null. -/
def bufferedVariant {α : Type} (label : α → String) (all : List α) : Decoder α
  | .str name => byName label all name
  | .obj [(name, content)] => do
    let a ← byName label all name
    match content with
    | .null => return a
    | .obj [] => return a
    | x => throw (x.mismatch "unit")
  | .obj _ => .error (.invalidValue "map" "map with a single key")
  | x => .error (x.mismatch "string or map")

abbrev Members := List ((String × Json) × Nat)

/-- A fault and the position of the member it was found at. -/
abbrev Found := Nat × Fault

/-- Why the items of a list are not the fields of a record: it ends before the field of a place, or an item does not
decode. -/
inductive Misplaced where
  | absent (place : Nat)
  | wrong (fault : Fault)

/-- How the fields of a record are read: by name from the members of an object, of which there are `size`, and by
place from the rest of a list, whose first item has the given place. -/
structure Fields (α : Type) where
  names : List String
  byMembers : (size : Nat) → Members → Except Found α
  byPlaces : (place : Nat) → List Json → Except Misplaced (α × List Json)

namespace Fields
variable {α β : Type}

/-- The earlier of two faults; of two at one position the first. -/
def earlier (a b : Found) : Found :=
  if b.1 < a.1 then b else a

def const (a : α) : Fields α where
  names := []
  byMembers _ _ := .ok a
  byPlaces _ items := .ok (a, items)

/-- More fields: those of a function, then those of its argument. -/
def apply (f : Fields (α → β)) (x : Fields α) : Fields β where
  names := f.names ++ x.names
  byMembers size ms :=
    match f.byMembers size ms, x.byMembers size ms with
    | .ok g, .ok a => .ok (g a)
    | .error e, .ok _ => .error e
    | .ok _, .error e => .error e
    | .error e, .error e' => .error (earlier e e')
  byPlaces place items :=
    match f.byPlaces place items with
    | .error e => .error e
    | .ok (g, rest) =>
      match x.byPlaces (place + f.names.length) rest with
      | .error e => .error e
      | .ok (a, rest) => .ok (g a, rest)

instance : Applicative Fields where
  pure := const
  seq f x := apply f (x ())

/-- One field; `absent` is its value if it is missing. -/
def field (name : String) (absent : Option α) (decode : Decoder α) : Fields α where
  names := [name]
  byMembers size ms :=
    match ms.filter (·.1.1 == name) with
    | [] =>
      match absent with
      | some a => .ok a
      | none => .error (size + 1, .missingField name)
    | ((_, x), i) :: more =>
      match decode x, more with
      | .error e, _ => .error (i, e)
      | .ok a, [] => .ok a
      | .ok _, (_, j) :: _ => .error (j, .duplicateField name)
  byPlaces place
    | [] =>
      match absent with
      | some a => .ok (a, [])
      | none => .error (.absent place)
    | x :: rest =>
      match decode x with
      | .ok a => .ok (a, rest)
      | .error e => .error (.wrong e)

def required (name : String) (decode : Decoder α) : Fields α :=
  field name none decode

/-- A field with a value of its own if it is missing. -/
def defaulted (name : String) (absent : α) (decode : Decoder α) : Fields α :=
  field name (some absent) decode

def omissible (name : String) (decode : Decoder α) : Fields (Option α) :=
  field name (some none) fun
    | .null => .ok none
    | x => (decode x).map some

/-- A member that ends the reading of an object that does not know its name: it has no readable key, or its value
is not well formed. -/
def endsReading : Json → Bool
  | .misnamed _ => true
  | x => !x.isWellFormed

/-- The first member of no known name that ends the reading. -/
def firstBroken (names : List String) (ms : Members) : Option Nat :=
  (ms.find? fun ((key, x), _) => !names.contains key && endsReading x).map (·.2)

def ofMembers (fields : Fields α) (members : List (String × Json)) : Except Fault α :=
  match fields.byMembers members.length members.zipIdx, firstBroken fields.names members.zipIdx with
  | .ok a, none => .ok a
  | .error e, none => .error e.2
  | .ok _, some _ => .error .malformed
  | .error e, some i => .error (if e.1 < i then e.2 else .malformed)

/-- Reads a list; `left` is the fault if it is too long. -/
def ofPlaces (fields : Fields α) (expected : String) (left : Fault) (items : List Json) : Except Fault α :=
  match fields.byPlaces 0 items with
  | .error (.wrong e) => .error e
  | .error (.absent place) =>
    .error (.invalidLength place (expected ++ " with " ++ toString fields.names.length ++
      (if fields.names.length = 1 then " element" else " elements")))
  | .ok (a, []) => .ok a
  | .ok (_, _ :: _) => .error left

end Fields

def record {α : Type} (expected : String) (fields : Fields α) : Decoder α
  | .obj members => fields.ofMembers members
  | .arr items => fields.ofPlaces expected .malformed items
  | x => .error (x.mismatch expected)

/-- The fault of a buffered list that goes on after its last field. -/
def tooLong (read length : Nat) : Fault :=
  .invalidLength length (toString read ++ (if read = 1 then " element" else " elements") ++ " in sequence")

def bufferedRecord {α : Type} (expected : String) (fields : Fields α) : Decoder α
  | .obj members => fields.ofMembers members
  | .arr items => fields.ofPlaces expected (tooLong fields.names.length items.length) items
  | x => .error (x.mismatch expected)

/-- A tag, found in any place among the members of an object, and the other members. -/
def splitTag {τ : Type} (key : String) (tag : Decoder τ) :
    List (String × Json) → Except Fault (Option τ × List (String × Json))
  | [] => .ok (none, [])
  | (name, x) :: more =>
    if name = key then do
      let t ← tag x
      let (again, rest) ← splitTag key (fun _ => .error (.duplicateField key)) more
      return (again.or (some t), rest)
    else if x.isWhole then do
      let (t, rest) ← splitTag key tag more
      return (t, (name, x) :: rest)
    else .error .malformed

/-- A value whose kind is told by a tag, either a member of an object or the first item of a list. -/
def taggedValue {τ α : Type} (key expected : String) (tag : Decoder τ) (content : τ → Decoder α) : Decoder α
  | .obj members => do
    match ← splitTag key tag members with
    | (some t, rest) => content t (.obj rest)
    | (none, _) => throw (.missingField key)
  | .arr [] => .error (.missingField key)
  | .arr (x :: rest) => do
    let t ← tag x
    if areWhole rest then content t (.arr rest) else throw .malformed
  | x => .error (x.mismatch expected)

/-- The name of a kind, as a tag. -/
def tagName {α : Type} (label : α → String) (all : List α) : Decoder α
  | .str name => byName label all name
  | x => .error (x.mismatch "variant identifier")

/-- Decodes a document; what follows the value counts only if the value decodes. -/
def Document.decode {α : Type} (document : Document) (decode : Decoder α) : Except Fault α := do
  let a ← decode (document.root.bounded maxNesting)
  if document.trailing then throw .malformed else return a

def decodeText {α : Type} (text : String) (decode : Decoder α) : Except Fault α :=
  (Document.ofText text).decode decode

end EntitySql.Json
