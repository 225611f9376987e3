import EntitySql.Proofs.Query.Statement
import EntitySql.Query.Compile

/-!
The plan of an operation: its statements in no dialect, and what becomes of the result. A plan tells at once what
compiling does step by step: where a statement has its slots, and which target of all gives a column its value.
-/
namespace EntitySql.Query
open Fragment (Raw)

/-- The plan of an operation. -/
structure Plan where
  statement : Statement
  /-- A select that is run after an update that returns its row. -/
  followUp : Option Statement := none
  /-- The steps that mint ids. -/
  generated : List PreludeStep := []
  /-- The parameter over whose elements the statement is repeated. -/
  batch : Option String := none
  result : ResultMapping
  row : RowShape := .none
  deriving DecidableEq, Repr, Inhabited

def Target.slot (t : Target) : Slot :=
  ⟨t.value, some t.column.name, some t.column.type, t.column.isNullable⟩

/-- The comparison of a parameter with a column: equality with a nullable column is null-safe. -/
def comparisonOf (p : Param) (column : Column) : Comparison :=
  if p.ignoreCase then .folded p.comparison
  else if column.isNullable && p.isDefaultEquality then .nullSafe
  else .plain p.comparison

def predicateOf (p : Param) (target : Target) : Predicate :=
  ⟨target.column.name, comparisonOf p target.column, target.slot⟩

/-- The conditions of a parameter: one for each field of a composite, otherwise any target may match. -/
def conditionsOf (p : BoundParam) : List Condition :=
  let predicates := p.targets.map (predicateOf p.param)
  if p.param.isComposite then predicates.map .one
  else match predicates with
    | [] => []
    | [predicate] => [.one predicate]
    | _ => [.anyOf predicates]

section
variable (t : Table) (op : Operation)

/-- The place for a value that raw SQL names. -/
def rawSlot (name : String) (path : List String) : Slot where
  value := if path.isEmpty then .param name else .field name (".".intercalate path)
  column := none
  type := (op.param? name).bind (valueType? t · path)
  nullable := true

def rawPieces (raw : Raw) : List Piece :=
  raw.segments.map fun
    | .text sql => .text sql
    | .placeholder name path => .slot (rawSlot t op name path)

def paramFilter (params : List BoundParam) : Filter :=
  ⟨params.flatMap conditionsOf, .and, []⟩

def fullFilter (params : List BoundParam) : Filter :=
  match op.rawPredicate, rawPredicate? op with
  | some p, some raw => ⟨params.flatMap conditionsOf, p.conjunction, rawPieces t op raw⟩
  | _, _ => paramFilter params

/-- The steps that mint the ids of generated columns. -/
def generatedIds : List PreludeStep :=
  t.columns.toList.zipIdx.filterMap fun (column, i) =>
    column.generator.map fun generator => .generateId (idLocal i) generator column.name

/-- The targets of an insert that are not generated, in the order of parameters. -/
def insertTargets (params : List BoundParam) : List Target :=
  (params.flatMap (·.targets)).filter fun target => !target.column.isGenerated

/-- The target that gives a column its value: the first one of its name, unless that is another column's or a
generated column has the name. -/
def insertTarget? (params : List BoundParam) (column : Column) : Option Target :=
  if t.columns.toList.any fun other => other.isGenerated && other.name = column.name then none
  else match (insertTargets params).find? (·.column.name = column.name) with
    | some target => if target.column.field = column.field then some target else none
    | none => none

/-- The value that an insert stores into the column at a position, if it stores one. -/
def insertValue? (params : List BoundParam) (column : Column) (position : Nat) : Option Value :=
  if column.isGenerated then some (.computed (idLocal position))
  else (insertTarget? t params column).map (·.value)

/-- The columns that an insert stores, in physical order, with their values. -/
def insertValues (params : List BoundParam) : List Target :=
  t.columns.toList.zipIdx.filterMap fun (column, i) =>
    (insertValue? t params column i).map fun value => ⟨column, value⟩

def planInsert (params : List BoundParam) : Except CompileError Plan := do
  checkEntityAlone op
  let batch ← batchParam t op
  let values := insertValues t params
  let (result, row) ← insertResult t op batch.isSome values
  return {
    statement := .insert t.objectName (values.map fun target => (target.column.name, target.slot))
    generated := generatedIds t
    batch, result, row }

/-- The targets that an update assigns: generated columns only by name. -/
def assignedTargets (params : List BoundParam) : List Target :=
  params.flatMap fun p => p.targets.filter fun target => !(p.param.isComposite && target.column.isGenerated)

/-- The select of the row that an update has changed. The raw predicate tells of the row before the update. -/
def reselect (params : List BoundParam) : Statement :=
  .select t.objectName (.columns (columnNames t)) (paramFilter (filterParams params)) [] none

/-- The result of an update, with its follow-up. -/
def updateResult (params : List BoundParam) :
    Except CompileError (ResultMapping × Option Statement × RowShape) :=
  match op.returns with
  | .void => return (.discard, none, .none)
  | .int => return (.affectedRows, none, .none)
  | .bool => return (.affectedIsOne, none, .none)
  | .one => return (.reselectIfUpdated, some (reselect t params), .entity (columnNames t))
  | .many => throw (unsupported t op "update cannot return a list")

def planUpdate (params : List BoundParam) : Except CompileError Plan := do
  checkSingleColumns op (valueParams params)
  let assigned := assignedTargets (valueParams params)
  if assigned.isEmpty then throw (.emptyUpdate t.qualifiedName op.name) else
  let (result, followUp, row) ← updateResult t op params
  return {
    statement := .update t.objectName (assigned.map fun target => (target.column.name, target.slot))
      (fullFilter t op (filterParams params))
    followUp, result, row }

def planDelete (params : List BoundParam) : Except CompileError Plan := do
  let result ← deleteResult t op
  return { statement := .delete t.objectName (fullFilter t op params), result }

def planCount (params : List BoundParam) : Except CompileError Plan := do
  let result ← countResult t op
  return { statement := .count t.objectName (fullFilter t op params), result }

def orderColumns : List (String × Direction) :=
  op.orderBy.filterMap fun key => (t.column? key.field).map fun column => (column.name, key.direction)

def selectionOf : Except CompileError (Selection × RowShape) :=
  match op.kind with
  | .selectColumn =>
    match op.returnColumn with
    | none => throw (unsupported t op "select column needs a return column")
    | some field =>
      match t.column? field with
      | none => throw (columnNotFound t op field)
      | some column => return (.columns [column.name], .column column.name column.type)
  | .selectRawExpression =>
    match rawExpression? op with
    | none => throw (unsupported t op "raw expression select needs an expression")
    | some raw => return (.expression (rawPieces t op raw), .expression)
  | _ => return (.columns (columnNames t), .entity (columnNames t))

def planSelect (params : List BoundParam) : Except CompileError Plan := do
  let result ← selectResult t op
  let (selection, row) ← selectionOf t op
  return {
    statement := .select t.objectName selection (fullFilter t op params) (orderColumns t op) op.limit
    result, row }

def planBound (params : List BoundParam) : Except CompileError Plan :=
  match op.kind with
  | .insert => planInsert t op params
  | .batchInsert => planInsert t op params
  | .update => planUpdate t op params
  | .delete => planDelete t op params
  | .count => planCount t op params
  | .exists => planCount t op params
  | .selectEntity => planSelect t op params
  | .selectColumn => planSelect t op params
  | .selectRawExpression => planSelect t op params

def plan : Except CompileError Plan := do
  planBound t op (← resolveParams t op)

end

/-- The operation that a plan amounts to: its pieces rendered, and its slots bound one after another. -/
def Plan.compile (p : Plan) (d : Dialect) (op : Operation) : CompiledOperation :=
  let bound := bindAll [] p.statement.slots
  let boundLater := bindAll bound.1 ((p.followUp.map Statement.slots).getD [])
  { name := op.name
    kind := op.kind
    returns := op.returns
    prelude := p.generated ++ enumSteps boundLater.1
    statement := ⟨p.statement.sql d, bound.2⟩
    followUp := p.followUp.map fun s => ⟨s.sql d, boundLater.2⟩
    batch := p.batch
    result := p.result
    row := p.row }

end EntitySql.Query
