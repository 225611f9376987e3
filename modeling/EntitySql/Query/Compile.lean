import EntitySql.Ddl.Generate
import EntitySql.Query.Builder

/-!
Compiling operations: the parameters are resolved to columns, then the statements are written.
-/
namespace EntitySql

namespace Query
open Fragment (Raw Segment)

def columnNames (t : Table) : List String :=
  t.columns.toList.map Column.name

/-- The name of the id minted for the column at a position. -/
def idLocal (position : Nat) : String :=
  "id" ++ toString position

section
variable (d : Dialect) (t : Table) (op : Operation)

/-- The text that compares a column with a placeholder: equality with a nullable column is null-safe. -/
def comparisonText (p : Param) (column : Column) (placeholder : String) : String :=
  if p.ignoreCase then
    Dialect.caseFold (quoteName column.name) ++ " " ++ p.comparison ++ " " ++ Dialect.caseFold placeholder
  else if column.isNullable && p.isDefaultEquality then
    quoteName column.name ++ " " ++ d.nullSafeEquals ++ " " ++ placeholder
  else quoteName column.name ++ " " ++ p.comparison ++ " " ++ placeholder

def writePredicate (p : Param) (target : Target) : Build String := do
  let placeholder ← modifyGet (·.bindColumn target.column target.value)
  return comparisonText d p target.column placeholder

/-- The conditions of a parameter: one for each field of a composite, otherwise any target may match. -/
def joinPredicates (composite : Bool) (predicates : List String) : List String :=
  if composite then predicates
  else if predicates.length > 1 then ["(" ++ " OR ".intercalate predicates ++ ")"]
  else predicates

def writeConditions (p : BoundParam) : Build (List String) := do
  if p.targets.isEmpty then return []
  return joinPredicates p.param.isComposite (← p.targets.mapM (writePredicate d p.param))

/-- A segment of raw SQL; a placeholder binds a parameter, or what its path leads to in it. -/
def writeSegment : Segment → Build String
  | .text sql => return sql
  | .placeholder name path =>
    match op.param? name with
    | none => throw (.undefinedSqlParameter op.name name)
    | some p =>
      let value : Value := if path.isEmpty then .param name else .field name (".".intercalate path)
      modifyGet (·.bindRaw value (valueType? t p path))

def writeRaw : List Segment → Build String
  | [] => return ""
  | segment :: rest => do
    let first ← writeSegment t op segment
    return first ++ (← writeRaw rest)

/-- Conditions followed by raw SQL, which stands in brackets unless it is alone. -/
def joinRaw (clause : String) (conjunction : Conjunction) (raw : String) : String :=
  if clause.isEmpty then raw
  else if raw.isEmpty then clause
  else clause ++ " " ++ conjunction.sql ++ " (" ++ raw ++ ")"

def whereOf (clause : String) : String :=
  if clause.isEmpty then "" else " WHERE " ++ clause

/-- The WHERE clause, empty if there is nothing to filter on. -/
def writeWhere (params : List BoundParam) (raw? : Option (Raw × Conjunction)) : Build String := do
  let conditions ← gather (writeConditions d) params
  let clause := " AND ".intercalate conditions
  match raw? with
  | none => return whereOf clause
  | some (raw, conjunction) => return whereOf (joinRaw clause conjunction (← writeRaw t op raw.segments))

def parsedPredicate? : Option (Raw × Conjunction) :=
  op.rawPredicate.map fun p => (Raw.ofSql p.sql, p.conjunction)

def tableName : String :=
  d.qualify t.objectName

def selectAll : String :=
  ", ".intercalate (t.columns.toList.map fun column => quoteName column.name)

/-- The compiled operation of one statement, which has been written. -/
def compiledOf (sql : String) (result : ResultMapping) (row : RowShape) : Build CompiledOperation := do
  let b ← get
  return {
    name := op.name
    kind := op.kind
    returns := op.returns
    prelude := b.prelude.steps
    statement := b.finish sql
    followUp := none
    batch := none
    result, row }

/-- An entity is the only parameter of an insert. -/
def checkEntityAlone : Except CompileError Unit :=
  match op.params.find? (·.type = .entity) with
  | some entity =>
    if op.params.length > 1 then throw (.entityParameterMixed op.name entity.name) else return ()
  | none => return ()

/-- The parameter of a batch insert, a list of structures. -/
def batchParam : Except CompileError (Option String) :=
  if op.kind = .batchInsert then
    match op.params with
    | [only] =>
      if only.isComposite then return some only.name
      else throw (unsupported t op "batch insert takes exactly one list of entities")
    | _ => throw (unsupported t op "batch insert takes exactly one list of entities")
  else return none

/-- Mints the ids of generated columns, which stand with their positions. The values come with these positions. -/
def mintIds : List (Column × Nat) → Build (List (Nat × Target))
  | [] => return []
  | (column, i) :: rest =>
    match column.generator with
    | none => mintIds rest
    | some generator => do
      modify (·.addStep (.generateId (idLocal i) generator column.name))
      return (i, ⟨column, .computed (idLocal i)⟩) :: (← mintIds rest)

/-- Takes up the value of a target with the position of its column, unless the column is generated or one of its name
has a value already. A field without a column comes last. -/
def takeUp (values : List (Nat × Target)) (target : Target) : List (Nat × Target) :=
  if target.column.isGenerated then values
  else if values.any fun value => value.2.column.name = target.column.name then values
  else values ++ [((t.columns.index? target.column.field).getD (UInt64.size - 1), target)]

/-- The values that an insert stores, sorted by the positions of their columns. -/
def sortedValues (minted : List (Nat × Target)) (params : List BoundParam) : List Target :=
  let values := (params.flatMap (·.targets)).foldl (takeUp t) minted
  (values.mergeSort fun a b => a.1 ≤ b.1).map (·.2)

/-- The row that an insert returns: what it stores, and the entity's own value for any other column. -/
def echoedValues (values : List Target) (entity : String) : List Value :=
  t.columns.toList.map fun column =>
    match values.find? (·.column.name = column.name) with
    | some target => target.value
    | none => .field entity column.field

def insertResult (batch : Bool) (values : List Target) : Except CompileError (ResultMapping × RowShape) :=
  match op.returns, batch with
  | .void, _ => return (.discard, .none)
  | .int, true => return (.sumAffectedRows, .none)
  | .int, false => return (.affectedRows, .none)
  | .bool, false => return (.affectedIsOne, .none)
  | .one, false =>
    match op.params.find? (·.type = .entity) with
    | some entity => return (.echoInserted (echoedValues t values entity.name), .entity (columnNames t))
    | none => throw (unsupported t op "returning the row needs an entity parameter")
  | shape, _ => throw (unsupported t op ("insert cannot return " ++ shape.title))

/-- The text of an insert; without any value it is a row of defaults. -/
def writeInsert (values : List Target) : Build String := do
  if values.isEmpty then return "INSERT INTO " ++ tableName d t ++ " DEFAULT VALUES"
  let columns := values.map fun target => quoteName target.column.name
  let placeholders ← values.mapM fun target => modifyGet (·.bindColumn target.column target.value)
  return "INSERT INTO " ++ tableName d t ++ " (" ++ ", ".intercalate columns ++ ") VALUES (" ++
    ", ".intercalate placeholders ++ ")"

/-- The insert of values, or one for each element of a batch. -/
def storeValues (batch : Option String) (values : List Target) : Build CompiledOperation := do
  let sql ← writeInsert d t values
  let (result, row) ← insertResult t op batch.isSome values
  return { ← compiledOf op sql result row with batch }

def compileInsert (params : List BoundParam) : Build CompiledOperation := do
  checkEntityAlone op
  let batch ← batchParam t op
  let minted ← mintIds t.columns.toList.zipIdx
  storeValues d t op batch (sortedValues t minted params)

/-- The parameters that filter the rows of an update. -/
def filterParams (params : List BoundParam) : List BoundParam :=
  params.filter (·.param.role = .whereFilter)

def valueParams (params : List BoundParam) : List BoundParam :=
  params.filter (·.param.role ≠ .whereFilter)

/-- The assignments of a parameter: a structure assigns no generated columns. -/
def writeAssignments (p : BoundParam) : Build (List String) :=
  (p.targets.filter fun target => !(p.param.isComposite && target.column.isGenerated)).mapM fun target => do
    let placeholder ← modifyGet (·.bindColumn target.column target.value)
    return quoteName target.column.name ++ " = " ++ placeholder

/-- What an update returns. The row is selected again by the same filters; the raw predicate tells of the row before the
update. -/
def writeFollowUp (params : List BoundParam) : Build (ResultMapping × Option CompiledStatement × RowShape) :=
  match op.returns with
  | .void => return (.discard, none, .none)
  | .int => return (.affectedRows, none, .none)
  | .bool => return (.affectedIsOne, none, .none)
  | .one => do
    modify Builder.next
    let clause ← writeWhere d t op (filterParams params) none
    let select := "SELECT " ++ selectAll t ++ " FROM " ++ tableName d t ++ clause
    return (.reselectIfUpdated, some ((← get).finish select), .entity (columnNames t))
  | .many => throw (unsupported t op "update cannot return a list")

/-- A single value is stored into one column. -/
def checkSingleColumns (params : List BoundParam) : Except CompileError Unit :=
  match params.find? fun p => !p.param.isComposite && p.targets.length > 1 with
  | some p => throw (.multipleColumnsForSingleValue op.name p.param.name)
  | none => return ()

def writeUpdate (params : List BoundParam) : Build String := do
  let assignments ← gather writeAssignments (valueParams params)
  if assignments.isEmpty then throw (.emptyUpdate t.qualifiedName op.name) else
  let clause ← writeWhere d t op (filterParams params) (parsedPredicate? op)
  return "UPDATE " ++ tableName d t ++ " SET " ++ ", ".intercalate assignments ++ clause

def compileUpdate (params : List BoundParam) : Build CompiledOperation := do
  checkSingleColumns op (valueParams params)
  let sql ← writeUpdate d t op params
  let updated ← compiledOf op sql .discard .none
  let (result, followUp, row) ← writeFollowUp d t op params
  return { updated with prelude := (← get).prelude.steps, followUp, result, row }

def deleteResult : Except CompileError ResultMapping :=
  match op.returns with
  | .void => return .discard
  | .bool => return .affectedPositive
  | .int => return .affectedRows
  | shape => throw (unsupported t op ("delete cannot return " ++ shape.title))

def compileDelete (params : List BoundParam) : Build CompiledOperation := do
  let result ← deleteResult t op
  let clause ← writeWhere d t op params (parsedPredicate? op)
  compiledOf op ("DELETE FROM " ++ tableName d t ++ clause) result .none

def countResult : Except CompileError ResultMapping :=
  match op.kind, op.returns with
  | .count, .int => return .count
  | .exists, .bool => return .countPositive
  | .count, _ => throw (unsupported t op "count must return int")
  | _, _ => throw (unsupported t op "exists must return bool")

def compileCount (params : List BoundParam) : Build CompiledOperation := do
  let result ← countResult t op
  let clause ← writeWhere d t op params (parsedPredicate? op)
  compiledOf op ("SELECT COUNT(*) FROM " ++ tableName d t ++ clause) result .none

/-- What becomes of the rows of a select, which returns one thing of every row. -/
def selectResult : Except CompileError ResultMapping := do
  let result ← match op.returns with
    | .one => pure ResultMapping.firstRow
    | .many => pure .allRows
    | shape => throw (unsupported t op ("select cannot return " ++ shape.title))
  if op.returnColumn.isSome && op.returnExpression.isSome then
    throw (unsupported t op "both a return column and a raw expression given")
  return result

/-- What a select returns of every row, and the form of the rows. -/
def writeSelection : Build (String × RowShape) :=
  match op.kind with
  | .selectColumn =>
    match op.returnColumn with
    | none => throw (unsupported t op "select column needs a return column")
    | some field =>
      match t.column? field with
      | none => throw (columnNotFound t op field)
      | some column => return (quoteName column.name, .column column.name column.type)
  | .selectRawExpression =>
    match rawExpression? op with
    | none => throw (unsupported t op "raw expression select needs an expression")
    | some raw => return (← writeRaw t op raw.segments, .expression)
  | _ => return (selectAll t, .entity (columnNames t))

def orderText (key : SortKey) : Except CompileError String :=
  match t.column? key.field with
  | some column => return quoteName column.name ++ " " ++ key.direction.sql
  | none => throw (columnNotFound t op key.field)

def orderClause : Except CompileError String := do
  if op.orderBy.isEmpty then return ""
  return " ORDER BY " ++ ", ".intercalate (← op.orderBy.mapM (orderText t op))

def limitClause : String :=
  match op.limit with
  | some limit => " " ++ Dialect.limit limit
  | none => ""

def compileSelect (params : List BoundParam) : Build CompiledOperation := do
  let result ← selectResult t op
  let (selection, row) ← writeSelection t op
  let clause ← writeWhere d t op params (parsedPredicate? op)
  let order ← orderClause t op
  let sql := "SELECT " ++ selection ++ " FROM " ++ tableName d t ++ clause ++ order ++ limitClause op
  compiledOf op sql result row

def compileBound (params : List BoundParam) : Build CompiledOperation :=
  match op.kind with
  | .insert => compileInsert d t op params
  | .batchInsert => compileInsert d t op params
  | .update => compileUpdate d t op params
  | .delete => compileDelete d t op params
  | .count => compileCount d t op params
  | .exists => compileCount d t op params
  | .selectEntity => compileSelect d t op params
  | .selectColumn => compileSelect d t op params
  | .selectRawExpression => compileSelect d t op params

end

end Query

open Query

def Operation.compile (d : Dialect) (t : Table) (op : Operation) : Except CompileError CompiledOperation := do
  let params ← resolveParams t op
  (compileBound d t op params).run' { dialect := d }

/-- Compiles the operations of a table, in order. -/
def Table.compile (d : Dialect) (t : Table) : Except CompileError (List CompiledOperation) :=
  t.operations.mapM (Operation.compile d t)

/-- Links a catalog, and compiles its tables and their operations. -/
def Catalog.compile (c : Catalog) (config : CompilerConfig) : Except CompileError CompiledCatalog := do
  let linked ← c.link
  let ddl ← Ddl.generate config.dialect config.createSchemas linked
  let tables ← linked.ordered.mapM fun t => do
    return (⟨t.schema.qualifiedName, ← t.schema.compile config.dialect⟩ : CompiledTable)
  return ⟨config.dialect, ddl, tables⟩

end EntitySql
