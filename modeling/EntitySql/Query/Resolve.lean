import EntitySql.Error
import EntitySql.Fragment.Raw
import EntitySql.Schema.Table
import EntitySql.Query.Binding

/-!
The parameters of an operation, resolved to the columns they bind. Types must agree; a parameter without a column
of its own is admitted if raw SQL names it.
-/
namespace EntitySql.Query
open Fragment (Raw)

/-- A column that a parameter binds, with the value bound to it. -/
structure Target where
  column : Column
  value : Value
  deriving DecidableEq, Repr, Inhabited

/-- A parameter with its targets. -/
structure BoundParam where
  param : Param
  targets : List Target
  deriving DecidableEq, Repr, Inhabited

def rawExpression? (op : Operation) : Option Raw :=
  if op.kind = .selectRawExpression then op.returnExpression.map Raw.ofSql else none

def rawPredicate? (op : Operation) : Option Raw :=
  op.rawPredicate.map fun p => Raw.ofSql p.sql

/-- The parameters that raw SQL names, the expression's before the predicate's. -/
def rawNames (op : Operation) : List String :=
  ((rawExpression? op).toList ++ (rawPredicate? op).toList).flatMap Raw.parameterNames

section
variable (t : Table) (op : Operation)

def columnNotFound (field : String) : CompileError :=
  .columnNotFound t.qualifiedName op.name field

/-- The error for what an operation of its kind cannot return or take. -/
def unsupported (reason : String) : CompileError :=
  .unsupportedReturnShape t.qualifiedName op.name reason

/-- Rows are ordered by existing fields, and only selects order or limit them. -/
def checkOrdering : Except CompileError Unit :=
  match op.orderBy.find? fun key => (t.column? key.field).isNone with
  | some key => throw (columnNotFound t op key.field)
  | none =>
    if !op.kind.isSelect && (!op.orderBy.isEmpty || op.limit.isSome) then
      throw (unsupported t op (op.kind.title ++ " does not take ORDER BY or LIMIT"))
    else return ()

def checkRawNames : Except CompileError Unit :=
  match (rawNames op).find? fun name => (op.param? name).isNone with
  | some name => throw (.undefinedSqlParameter op.name name)
  | none => return ()

/-- A field alias leaves no room for targets, an operator or case folding, and only single strings fold. -/
def checkAnnotations (p : Param) : Except CompileError Unit :=
  if p.fieldAlias.isSome && (!p.targets.isEmpty || p.ignoreCase || !p.isDefaultEquality) then
    throw (.conflictingFieldAndTargets op.name p.name)
  else if p.ignoreCase && p.type ≠ .scalar ⟨.string, false⟩ then
    throw (.ignoreCaseOnNonString op.name p.name)
  else return ()

/-- The target of a value of a type, called `label` in messages. -/
def typedTarget (label : String) (type : ValueType) (value : Value) (column : Column) :
    Except CompileError Target :=
  if column.accepts type then return ⟨column, value⟩
  else throw (.typeMismatch t.qualifiedName op.name label column.name column.type.label type.label)

/-- The targets of a field; none for an absent one that may be left out. -/
def fieldTargets (mayBeAbsent : Bool) (label : String) (type : ValueType) (value : Value) (field : String) :
    Except CompileError (List Target) :=
  match t.column? field with
  | some column => return [← typedTarget t op label type value column]
  | none => if mayBeAbsent then return [] else throw (columnNotFound t op field)

/-- The targets of several fields, in order. -/
def joinTargets {α : Type} (targets : α → Except CompileError (List Target)) :
    List α → Except CompileError (List Target)
  | [] => return []
  | a :: rest => do
    let first ← targets a
    return first ++ (← joinTargets targets rest)

def resolveTargets (p : Param) : Except CompileError (List Target) :=
  let inRaw := (rawNames op).contains p.name
  match p.type with
  | .scalar type =>
    match p.targets with
    | [] => fieldTargets t op inRaw p.name type (.param p.name) (p.fieldAlias.getD p.name)
    | fields => joinTargets (fieldTargets t op false p.name type (.param p.name)) fields
  | .composite fields =>
    joinTargets (fun f =>
      fieldTargets t op inRaw (p.name ++ "." ++ f.name) f.type (.field p.name f.name) f.name)
      (fields.filter fun f => !f.skip)
  | .entity => return t.columns.toList.map fun column => ⟨column, .field p.name column.field⟩

def resolveParam (p : Param) : Except CompileError BoundParam := do
  checkAnnotations op p
  return ⟨p, ← resolveTargets t op p⟩

def resolveParams : Except CompileError (List BoundParam) := do
  checkOrdering t op
  checkRawNames op
  op.params.mapM (resolveParam t op)

/-- The type of what a path leads to in a parameter, if it is known. -/
def valueType? (p : Param) (path : List String) : Option ValueType :=
  match p.type, path with
  | .scalar type, [] => some type
  | .composite fields, [field] => (fields.find? (·.name == field)).map CompositeField.type
  | .entity, [field] => (t.column? field).map Column.type
  | _, _ => none

end

end EntitySql.Query
