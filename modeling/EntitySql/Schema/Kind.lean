/-!
Kinds of values. A column or a parameter holds one value of a kind, or an array of them.
-/
namespace EntitySql

/-- The kind of a value, or of the elements of an array. An enum is stored by the name of its constant. -/
inductive Kind where
  | bool
  | byte
  | short
  | int
  | long
  | float
  | double
  | char
  | string
  | enum
  | bytes
  | date
  | timestamp
  deriving DecidableEq, Repr, Inhabited

namespace Kind

def label : Kind → String
  | bool => "bool"
  | byte => "byte"
  | short => "short"
  | int => "int"
  | long => "long"
  | float => "float"
  | double => "double"
  | char => "char"
  | string => "string"
  | enum => "enum"
  | bytes => "bytes"
  | date => "date"
  | timestamp => "timestamp"

def all : List Kind :=
  [bool, byte, short, int, long, float, double, char, string, enum, bytes, date, timestamp]

/-- Kinds whose default values are written as quoted texts. -/
def isTextual : Kind → Bool
  | char | string | enum | date | timestamp => true
  | _ => false

end Kind

/-- The type of a value: one of a kind, or an array of them. -/
structure ValueType where
  kind : Kind
  isArray : Bool
  deriving DecidableEq, Repr, Inhabited

def ValueType.label (t : ValueType) : String :=
  if t.isArray then t.kind.label ++ "[]" else t.kind.label

end EntitySql
