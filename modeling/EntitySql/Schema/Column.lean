import EntitySql.Name
import EntitySql.Schema.Kind

/-!
Columns of a table, with the functions that declare them step by step.
-/
namespace EntitySql

/-- What a join column refers to: a table and, for linking, exactly one of a column and a field of it. -/
structure JoinTarget where
  /-- A table by its name, with or without its namespace. -/
  table : String
  column : Option String := none
  field : Option String := none
  deriving DecidableEq, Repr, Inhabited

/-- A column. -/
structure Column where
  /-- The name operations and references use. -/
  field : String
  /-- The physical name; a table derives it from the field if it is empty. -/
  name : String := ""
  /-- The name of the table that the column was added to. -/
  owner : String := ""
  kind : Kind
  isArray : Bool := false
  nullable : Bool := true
  primaryKey : Bool := false
  unique : Bool := false
  defaultLiteral : Option String := none
  /-- The generator that mints the values of the column at an insert. -/
  generator : Option String := none
  join : Option JoinTarget := none
  length : Option UInt32 := none
  precision : Option UInt8 := none
  scale : Option UInt8 := none
  /-- An SQL type that takes the place of the usual one. -/
  definition : Option String := none
  deriving DecidableEq, Repr, Inhabited

namespace Column

def ofField (field : String) (kind : Kind) : Column :=
  { field, kind, name := derivedName field }

def type (c : Column) : ValueType :=
  ⟨c.kind, c.isArray⟩

/-- Whether null can be stored: never in a primary key, nor where a default stands in. -/
def isNullable (c : Column) : Bool :=
  c.nullable && !c.primaryKey && c.defaultLiteral.isNone

def isGenerated (c : Column) : Bool :=
  c.generator.isSome

def isForeignKey (c : Column) : Bool :=
  c.join.isSome

/-- Whether values of a type can be bound to the column. -/
def accepts (c : Column) (t : ValueType) : Bool :=
  c.type == t

def named (c : Column) (name : String) : Column :=
  { c with name }

def asArray (c : Column) : Column :=
  { c with isArray := true }

def notNull (c : Column) : Column :=
  { c with nullable := false }

/-- Makes the column a part of the primary key. -/
def asPrimaryKey (c : Column) : Column :=
  { c with primaryKey := true, nullable := false }

/-- Makes the column a unique key of its own. -/
def asUnique (c : Column) : Column :=
  { c with unique := true }

def withDefault (c : Column) (literal : String) : Column :=
  { c with defaultLiteral := some literal }

def generatedBy (c : Column) (generator : String) : Column :=
  { c with generator := some generator }

def referencesField (c : Column) (table field : String) : Column :=
  { c with join := some { table, field := some field } }

def referencesColumn (c : Column) (table column : String) : Column :=
  { c with join := some { table, column := some column } }

def withLength (c : Column) (length : UInt32) : Column :=
  { c with length := some length }

/-- Fixes the digits of numbers, in all and after the point. -/
def withPrecision (c : Column) (precision : UInt8) (scale : Option UInt8) : Column :=
  { c with precision := some precision, scale }

def withDefinition (c : Column) (definition : String) : Column :=
  { c with definition := some definition }

/-- The column with a derived name if it has none. -/
def nameFilled (c : Column) : Column :=
  if c.name.isEmpty then { c with name := derivedName c.field } else c

@[simp]
theorem field_nameFilled (c : Column) : c.nameFilled.field = c.field := by
  unfold nameFilled; split <;> rfl

end Column

end EntitySql
