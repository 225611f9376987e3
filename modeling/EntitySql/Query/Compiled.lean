import EntitySql.Dialect
import EntitySql.Operation.Basic
import EntitySql.Query.Binding

/-!
Compiled operations: the text of their statements in a dialect, the bindings of the placeholders in order, and the
steps before them. The steps are shared by a statement and its follow-up.
-/
namespace EntitySql

namespace Query

/-- How the answer of the database becomes the result of the operation. -/
inductive ResultMapping where
  | discard
  | affectedRows
  /-- The affected rows of all elements of a batch. -/
  | sumAffectedRows
  | affectedIsOne
  | affectedPositive
  | count
  | countPositive
  /-- The first row, or not found. -/
  | firstRow
  | allRows
  /-- The inserted row, one value for each column. -/
  | echoInserted (values : List Value)
  /-- The row of the follow-up if exactly one row was updated, otherwise not found. -/
  | reselectIfUpdated
  deriving DecidableEq, Repr, Inhabited

/-- The form of the rows that a statement returns. -/
inductive RowShape where
  | none
  | entity (columns : List String)
  | column (name : String) (type : ValueType)
  | expression
  deriving DecidableEq, Repr, Inhabited

end Query

open Query

/-- The text of a statement and the values of its placeholders. -/
structure CompiledStatement where
  sql : String
  bindings : List Binding
  deriving DecidableEq, Repr, Inhabited

/-- A compiled operation. -/
structure CompiledOperation where
  name : String
  kind : OperationKind
  returns : ReturnShape
  prelude : List PreludeStep
  statement : CompiledStatement
  followUp : Option CompiledStatement
  batch : Option String
  result : ResultMapping
  row : RowShape
  deriving DecidableEq, Repr, Inhabited

/-- What is compiled for. -/
structure CompilerConfig where
  dialect : Dialect := .postgres
  /-- Whether namespaces are created. -/
  createSchemas : Bool := true
  deriving DecidableEq, Repr, Inhabited

/-- The compiled operations of a table. -/
structure CompiledTable where
  table : String
  operations : List CompiledOperation
  deriving DecidableEq, Repr, Inhabited

/-- A compiled catalog. -/
structure CompiledCatalog where
  dialect : Dialect
  /-- The statements that create the catalog, in order. -/
  ddl : List String
  /-- The tables in the order of creation. -/
  tables : List CompiledTable
  deriving DecidableEq, Repr, Inhabited

/-- The first operation of a name, of the first table of a name. -/
def CompiledCatalog.operation? (compiled : CompiledCatalog) (table operation : String) :
    Option CompiledOperation :=
  (compiled.tables.find? (·.table == table)).bind fun t => t.operations.find? (·.name == operation)

end EntitySql
