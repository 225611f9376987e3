import EntitySql.Json.Number

/-!
JSON documents. Members keep the order of the text and may repeat a key. A tree also records how far a text could
be read: `unreadable` is a value that is well formed but stands for nothing, `misnamed` a member without a readable
key, and `broken` marks the place where the text stops being JSON, after which nothing follows.
-/
namespace EntitySql

/-- A JSON value, or what could be read of one. -/
inductive Json where
  | null
  | bool (value : Bool)
  /-- An integer of 64 bits, with or without sign. -/
  | int (value : Int)
  /-- Any other number. -/
  | number (value : Json.Scaled)
  | str (value : String)
  | arr (items : List Json)
  | obj (members : List (String × Json))
  /-- A string with half a surrogate pair, or a number that is too large. -/
  | unreadable
  /-- In place of the value of a member, under the empty key, for what stands in the place of its key: `unreadable`
  if the key holds half a surrogate pair. Any other value is no key, and the text stops being JSON there. -/
  | misnamed (key : Json)
  /-- The place where the text stops being JSON. -/
  | broken
  deriving Repr, Inhabited, BEq

namespace Json

/-- A member that is left out without a value. -/
def member? (key : String) : Option Json → List (String × Json)
  | some value => [(key, value)]
  | none => []

/-- A member that is left out if it holds an empty list. -/
def members? (key : String) : List Json → List (String × Json)
  | [] => []
  | items => [(key, .arr items)]

def tagged (key tag : String) (members : List (String × Json)) : Json :=
  .obj ((key, .str tag) :: members)

/-- The value of the first member with a key. -/
def get? (key : String) : Json → Option Json
  | .obj members => (members.find? (·.1 == key)).map (·.2)
  | _ => none

mutual
/-- A value of a well-formed text, whether or not it stands for something. -/
def isWellFormed : Json → Bool
  | .broken => false
  | .misnamed .unreadable => true
  | .misnamed _ => false
  | .arr items => areWellFormed items
  | .obj members => membersWellFormed members
  | _ => true

def areWellFormed : List Json → Bool
  | [] => true
  | x :: xs => isWellFormed x && areWellFormed xs

def membersWellFormed : List (String × Json) → Bool
  | [] => true
  | (_, x) :: xs => isWellFormed x && membersWellFormed xs
end

mutual
/-- A value that could be read to its end. -/
def isWhole : Json → Bool
  | .broken => false
  | .unreadable => false
  | .misnamed _ => false
  | .arr items => areWhole items
  | .obj members => membersWhole members
  | _ => true

def areWhole : List Json → Bool
  | [] => true
  | x :: xs => isWhole x && areWhole xs

/-- Every member's value could be read to its end. -/
def membersWhole : List (String × Json) → Bool
  | [] => true
  | (_, x) :: xs => isWhole x && membersWhole xs
end

/-- How many lists and objects may lie in one another. -/
def maxNesting : Nat := 127

mutual
/-- The value with all lists and objects that lie in `depth` others made unreadable. -/
def bounded : (depth : Nat) → Json → Json
  | 0, .arr items => if areWellFormed items then .unreadable else .broken
  | 0, .obj members => if membersWellFormed members then .unreadable else .broken
  | depth + 1, .arr items => .arr (boundedItems depth items)
  | depth + 1, .obj members => .obj (boundedMembers depth members)
  | _, leaf => leaf

def boundedItems (depth : Nat) : List Json → List Json
  | [] => []
  | x :: xs => bounded depth x :: boundedItems depth xs

def boundedMembers (depth : Nat) : List (String × Json) → List (String × Json)
  | [] => []
  | (key, x) :: xs => (key, bounded depth x) :: boundedMembers depth xs
end

end Json

end EntitySql
