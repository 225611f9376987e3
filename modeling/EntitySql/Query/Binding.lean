/-!
Bindings: how values reach the database. Enum constants are bound by name, arrays as SQL arrays; the names of an array
of constants are computed by a step before the statement.
-/
namespace EntitySql.Query

/-- Where the value of a binding comes from. -/
inductive Value where
  /-- A parameter. -/
  | param (name : String)
  /-- What a path of fields leads to in a parameter. -/
  | field (root path : String)
  /-- The result of a step that is done before the statement. -/
  | computed (name : String)
  deriving DecidableEq, Repr, Inhabited

/-- How a value is converted. -/
inductive Encoding where
  | plain
  /-- By the name of the constant; if null is admitted it stays null. -/
  | enumName (nullable : Bool)
  | sqlArray
  deriving DecidableEq, Repr, Inhabited

/-- The value of a placeholder. -/
structure Binding where
  value : Value
  column : Option String
  encoding : Encoding
  deriving DecidableEq, Repr, Inhabited

/-- A step that is done before the statement. -/
inductive PreludeStep where
  /-- Mints an id for a column. -/
  | generateId (name generator column : String)
  /-- Maps the constants of an array to their names. -/
  | enumNames (name : String) (source : Value) (nullable : Bool)
  deriving DecidableEq, Repr, Inhabited

def PreludeStep.name : PreludeStep → String
  | generateId name _ _ => name
  | enumNames name _ _ => name

/-- The name for the result of the array at a position. -/
def enumLocal (position : Nat) : String :=
  "var" ++ toString position

end EntitySql.Query
