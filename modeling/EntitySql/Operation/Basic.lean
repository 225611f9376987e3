import EntitySql.Text.Blank
import EntitySql.Schema.Kind

/-!
Operations of a table: what kind of statement each one is, what it returns, and how its parameters bind to
columns.
-/
namespace EntitySql

/-- The statement an operation stands for. -/
inductive OperationKind where
  | insert
  | batchInsert
  | update
  | delete
  | count
  | exists
  | selectEntity
  | selectColumn
  | selectRawExpression
  deriving DecidableEq, Repr, Inhabited

namespace OperationKind

def label : OperationKind → String
  | insert => "insert"
  | batchInsert => "batch_insert"
  | update => "update"
  | delete => "delete"
  | count => "count"
  | «exists» => "exists"
  | selectEntity => "select_entity"
  | selectColumn => "select_column"
  | selectRawExpression => "select_raw_expression"

def title : OperationKind → String
  | insert => "Insert"
  | batchInsert => "BatchInsert"
  | update => "Update"
  | delete => "Delete"
  | count => "Count"
  | «exists» => "Exists"
  | selectEntity => "SelectEntity"
  | selectColumn => "SelectColumn"
  | selectRawExpression => "SelectRawExpression"

def all : List OperationKind :=
  [insert, batchInsert, update, delete, count, «exists», selectEntity, selectColumn, selectRawExpression]

def isInsert : OperationKind → Bool
  | insert | batchInsert => true
  | _ => false

def isSelect : OperationKind → Bool
  | selectEntity | selectColumn | selectRawExpression => true
  | _ => false

end OperationKind

/-- What an operation returns: nothing, a truth value, a number, a row that may be absent, or a list of rows. -/
inductive ReturnShape where
  | void
  | bool
  | int
  | one
  | many
  deriving DecidableEq, Repr, Inhabited

namespace ReturnShape

def label : ReturnShape → String
  | void => "void"
  | bool => "bool"
  | int => "int"
  | one => "one"
  | many => "many"

def title : ReturnShape → String
  | void => "Void"
  | bool => "Bool"
  | int => "Int"
  | one => "One"
  | many => "Many"

def all : List ReturnShape :=
  [void, bool, int, one, many]

end ReturnShape

/-- What a parameter is for. -/
inductive Role where
  | whereFilter
  | updateValue
  | insertValue
  deriving DecidableEq, Repr, Inhabited

namespace Role

def label : Role → String
  | whereFilter => "where_filter"
  | updateValue => "update_value"
  | insertValue => "insert_value"

def all : List Role :=
  [whereFilter, updateValue, insertValue]

end Role

/-- A field of a composite parameter. One that is skipped is not bound. -/
structure CompositeField where
  name : String
  kind : Kind
  isArray : Bool := false
  skip : Bool := false
  deriving DecidableEq, Repr, Inhabited

def CompositeField.type (f : CompositeField) : ValueType :=
  ⟨f.kind, f.isArray⟩

/-- The type of a parameter: one value, a structure whose fields bind to the columns of the same names, or a row of
the table. -/
inductive ParamType where
  | scalar (type : ValueType)
  | composite (fields : List CompositeField)
  | entity
  deriving DecidableEq, Repr, Inhabited

/-- A parameter and how it binds. -/
structure Param where
  name : String
  type : ParamType
  role : Role := .whereFilter
  /-- The fields a scalar is matched with, any of which may hold it. -/
  targets : List String := []
  /-- A field that takes the place of the parameter's name. -/
  fieldAlias : Option String := none
  operator : String := "="
  ignoreCase : Bool := false
  deriving DecidableEq, Repr, Inhabited

namespace Param

/-- A parameter that is matched with the column of its name. -/
def scalar (name : String) (kind : Kind) : Param :=
  { name, type := .scalar ⟨kind, false⟩ }

def array (name : String) (kind : Kind) : Param :=
  { name, type := .scalar ⟨kind, true⟩ }

def composite (name : String) (fields : List CompositeField) : Param :=
  { name, type := .composite fields }

def entity (name : String) : Param :=
  { name, type := .entity }

def matching (p : Param) (fields : List String) : Param :=
  { p with targets := fields }

def asField (p : Param) (field : String) : Param :=
  { p with fieldAlias := some field }

def withOperator (p : Param) (operator : String) : Param :=
  { p with operator }

def ignoringCase (p : Param) : Param :=
  { p with ignoreCase := true }

def withRole (p : Param) (role : Role) : Param :=
  { p with role }

def isComposite (p : Param) : Bool :=
  match p.type with
  | .scalar _ => false
  | _ => true

def comparison (p : Param) : String :=
  Text.trim p.operator

def isDefaultEquality (p : Param) : Bool :=
  p.comparison == "="

end Param

/-- The direction of an ordering. -/
inductive Direction where
  | asc
  | desc
  deriving DecidableEq, Repr, Inhabited

namespace Direction

def label : Direction → String
  | asc => "asc"
  | desc => "desc"

def sql : Direction → String
  | asc => "ASC"
  | desc => "DESC"

def all : List Direction :=
  [asc, desc]

end Direction

/-- A field that rows are ordered by. -/
structure SortKey where
  field : String
  direction : Direction := .asc
  deriving DecidableEq, Repr, Inhabited

/-- How a raw predicate joins the conditions before it. -/
inductive Conjunction where
  | and
  | or
  deriving DecidableEq, Repr, Inhabited

namespace Conjunction

def label : Conjunction → String
  | and => "and"
  | or => "or"

def sql : Conjunction → String
  | and => "AND"
  | or => "OR"

def all : List Conjunction :=
  [and, or]

end Conjunction

/-- Literal SQL at the end of a WHERE clause. -/
structure RawPredicate where
  sql : String
  conjunction : Conjunction := .and
  deriving DecidableEq, Repr, Inhabited

/-- An operation of a table. -/
structure Operation where
  name : String
  kind : OperationKind
  returns : ReturnShape
  params : List Param := []
  orderBy : List SortKey := []
  limit : Option UInt64 := none
  rawPredicate : Option RawPredicate := none
  /-- The field whose column is selected. -/
  returnColumn : Option String := none
  /-- The expression that is selected. -/
  returnExpression : Option String := none
  deriving DecidableEq, Repr, Inhabited

namespace Operation

def withParam (op : Operation) (p : Param) : Operation :=
  { op with params := op.params ++ [p] }

def orderedBy (op : Operation) (field : String) (direction : Direction) : Operation :=
  { op with orderBy := op.orderBy ++ [{ field, direction }] }

def limitedTo (op : Operation) (limit : UInt64) : Operation :=
  { op with limit := some limit }

def withRawPredicate (op : Operation) (sql : String) (conjunction : Conjunction) : Operation :=
  { op with rawPredicate := some { sql, conjunction } }

def returningColumn (op : Operation) (field : String) : Operation :=
  { op with returnColumn := some field }

def returningExpression (op : Operation) (sql : String) : Operation :=
  { op with returnExpression := some sql }

def returnsList (op : Operation) : Bool :=
  op.returns == .many

def param? (op : Operation) (name : String) : Option Param :=
  op.params.find? (·.name == name)

end Operation

end EntitySql
