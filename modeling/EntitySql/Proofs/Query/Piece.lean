import EntitySql.Dialect
import EntitySql.Query.Binding
import EntitySql.Schema.Kind

/-!
Pieces of a statement. They are the statement without a dialect: names are not yet quoted and slots have no numbers.
Their text numbers the slots from one, in the order in which they stand; their bindings are those of the slots, where the
names of an array of constants are computed once for each array.
-/
namespace EntitySql.Query

/-- A place for a value: the physical column it is compared with or stored into, if any, the type of the value if it
is known, and whether it may be null. -/
structure Slot where
  value : Value
  column : Option String
  type : Option ValueType
  nullable : Bool
  deriving DecidableEq, Repr, Inhabited

/-- A piece of a statement. -/
inductive Piece where
  /-- Text that is the same in every dialect. -/
  | text (sql : String)
  /-- The name of a column. -/
  | name (name : String)
  /-- The name of a table. -/
  | object (name : ObjectName)
  /-- The comparison in which null equals null. -/
  | nullSafeEquals
  | slot (slot : Slot)
  deriving DecidableEq, Repr, Inhabited

/-- The text of pieces whose first slot has the number `index`. -/
def renderFrom (d : Dialect) (index : Nat) : List Piece → String
  | [] => ""
  | .text sql :: rest => sql ++ renderFrom d index rest
  | .name name :: rest => quoteName name ++ renderFrom d index rest
  | .object name :: rest => d.qualify name ++ renderFrom d index rest
  | .nullSafeEquals :: rest => d.nullSafeEquals ++ renderFrom d index rest
  | .slot _ :: rest => d.placeholder index ++ renderFrom d (index + 1) rest

def render (d : Dialect) (pieces : List Piece) : String :=
  renderFrom d 1 pieces

/-- The slots of a statement, in order. -/
def slots (pieces : List Piece) : List Slot :=
  pieces.filterMap fun
    | .slot s => some s
    | _ => none

def separated (separator : String) (groups : List (List Piece)) : List Piece :=
  List.intercalate [.text separator] groups

/-- Arrays of constants whose names are computed, each with whether it may be null. -/
abbrev EnumArrays := List (Value × Bool)

/-- The names of an array of constants: those already computed, or a further step. -/
def enumNames (arrays : EnumArrays) (source : Value) (nullable : Bool) : EnumArrays × Value :=
  match arrays.findIdx? (·.1 = source) with
  | some i => (arrays, .computed (enumLocal i))
  | none => (arrays ++ [(source, nullable)], .computed (enumLocal arrays.length))

def bind (arrays : EnumArrays) (s : Slot) : EnumArrays × Binding :=
  match s.type with
  | some ⟨.enum, true⟩ =>
    let (arrays, value) := enumNames arrays s.value s.nullable
    (arrays, ⟨value, s.column, .sqlArray⟩)
  | some ⟨_, true⟩ => (arrays, ⟨s.value, s.column, .sqlArray⟩)
  | some ⟨.enum, false⟩ => (arrays, ⟨s.value, s.column, .enumName s.nullable⟩)
  | _ => (arrays, ⟨s.value, s.column, .plain⟩)

/-- The bindings of slots, in order. -/
def bindAll (arrays : EnumArrays) : List Slot → EnumArrays × List Binding
  | [] => (arrays, [])
  | s :: rest =>
    let (arrays, binding) := bind arrays s
    let (arrays, bindings) := bindAll arrays rest
    (arrays, binding :: bindings)

def enumSteps (arrays : EnumArrays) : List PreludeStep :=
  arrays.zipIdx.map fun ((source, nullable), i) => .enumNames (enumLocal i) source nullable

end EntitySql.Query
