import EntitySql.Ddl.Statement
import EntitySql.Link.Emission

/-!
The statements that create and drop a linked catalog, in the order in which its tables depend on each other.
-/
namespace EntitySql

def Table.objectName (t : Table) : ObjectName :=
  ⟨t.ns, t.name⟩

/-- The SQL type of a single value of a column; none if its kind needs a length. -/
def Dialect.elementType? (d : Dialect) (column : Column) : Option String :=
  match column.kind with
  | .bool => some d.booleanType
  | .byte => some "SMALLINT"
  | .short => some "SMALLINT"
  | .int => some "INTEGER"
  | .long => some "BIGINT"
  | .float => some "REAL"
  | .double =>
    match column.precision, column.scale with
    | some p, some s => some ("NUMERIC(" ++ toString p.toNat ++ "," ++ toString s.toNat ++ ")")
    | some p, none => some ("NUMERIC(" ++ toString p.toNat ++ ")")
    | none, _ => some "DOUBLE PRECISION"
  | .char => some "CHAR(1)"
  | .string =>
    match column.length with
    | some n => some ("VARCHAR(" ++ toString n.toNat ++ ")")
    | none => some d.textType
  | .enum => column.length.map fun n => "VARCHAR(" ++ toString n.toNat ++ ")"
  | .bytes => some d.blobType
  | .date => some "DATE"
  | .timestamp => some "TIMESTAMP"

namespace Ddl
variable {c : Catalog}

/-- The SQL type of a column: its definition as it stands, otherwise the type of its kind. -/
def columnType (d : Dialect) (t : Table) (column : Column) : Except CompileError String :=
  let unsupported (reason : String) : CompileError :=
    .unsupportedColumnType t.qualifiedName column.name reason
  match column.definition with
  | some definition => return definition
  | none =>
    match d.elementType? column with
    | none => throw (unsupported "enum columns need a length")
    | some element =>
      if column.isArray then
        match d.arrayType? element with
        | some type => return type
        | none => throw (unsupported (d.label ++ " has no array types"))
      else return element

def columnLine (d : Dialect) (t : Table) (column : Column) : Except CompileError ColumnLine := do
  let type ← columnType d t column
  return {
    name := column.name
    type
    default? := column.defaultLiteral.map fun literal =>
      if column.kind.isTextual then .text literal else .verbatim literal
    notNull := !column.isNullable }

/-- The name of a constraint: the table, its columns and a mark of its kind. -/
def constraintName (t : Table) (columns : List String) (mark : String) : String :=
  "_".intercalate (t.name :: columns ++ [mark])

/-- How a table names another one: a table in a namespace puts one without into the default namespace. -/
def referenceName (d : Dialect) (source target : Table) : ObjectName :=
  match source.ns, target.ns with
  | _, some ns => ⟨some ns, target.name⟩
  | some _, none => ⟨d.defaultNamespace?, target.name⟩
  | none, none => ⟨none, target.name⟩

/-- The constraints of a table: primary key, unique keys, foreign keys. -/
def constraints (d : Dialect) (t : LinkedTable c) : List Constraint :=
  (if t.primaryKey.isEmpty then [] else [.primaryKey (constraintName t.schema [] "PK") t.primaryKey]) ++
    t.uniqueKeys.map (fun key => .unique (constraintName t.schema key "UK") key) ++
    t.foreignKeys.map fun key =>
      .foreignKey (constraintName t.schema key.columns "FK") key.columns
        (referenceName d t.schema (c.table key.target)) key.targetColumns

def createTable (d : Dialect) (t : LinkedTable c) : Except CompileError Create := do
  let lines ← t.schema.columns.toList.mapM (columnLine d t.schema)
  return .table t.schema.objectName lines (constraints d t)

/-- The references of a view that join a table: the first to each target. -/
def joiningReferences (seen : List (Fin c.size)) : List (Reference c.size) → List (Reference c.size)
  | [] => []
  | r :: rest =>
    if r.target ∈ seen then joiningReferences seen rest
    else r :: joiningReferences (r.target :: seen) rest

/-- The join of a reference, on the base's column of the same field. -/
def joinOf (d : Dialect) (view base : Table) (r : Reference c.size) : Except CompileError Join :=
  match base.column? r.field with
  | some column =>
    return ⟨referenceName d view (c.table r.target), column.name, r.targetColumn⟩
  | none => throw (.viewColumnNotFound view.qualifiedName r.field)

/-- Where a view takes a field from: the base if it has the field, otherwise the first joined table that has it. -/
def itemSource? (d : Dialect) (view base : Table) (joined : List (Reference c.size)) (field : String) :
    Option (Option ObjectName × Column) :=
  match base.column? field with
  | some column => some (none, column)
  | none => joined.findSome? fun r =>
    ((c.table r.target).column? field).map fun column =>
      (some (referenceName d view (c.table r.target)), column)

def itemOf (d : Dialect) (view base : Table) (joined : List (Reference c.size)) (column : Column) :
    Except CompileError SelectItem :=
  match itemSource? d view base joined column.field with
  | some (source, found) =>
    return ⟨source, found.name, if found.name = column.name then none else some column.name⟩
  | none => throw (.viewColumnNotFound view.qualifiedName column.field)

/-- The statement that creates a view of a base table. -/
def createView (d : Dialect) (t : LinkedTable c) (base : Table) : Except CompileError Create := do
  let joined := joiningReferences [] t.references
  let joins ← joined.mapM (joinOf d t.schema base)
  let items ← t.schema.columns.toList.mapM (itemOf d t.schema base joined)
  return .view t.schema.objectName items base.objectName joins

def create (d : Dialect) (t : LinkedTable c) : Except CompileError Create :=
  match t.viewBase with
  | some base => createView d t (c.table base)
  | none => createTable d t

/-- The text of the statement that creates a table or view. -/
def createSql (d : Dialect) (t : LinkedTable c) : Except CompileError String :=
  (create d t).map (Create.sql d)

/-- Inserts a text into a sorted list, unless it is there. -/
def insertSorted (s : String) : List String → List String
  | [] => [s]
  | t :: ts => if s < t then s :: t :: ts else if s = t then t :: ts else t :: insertSorted s ts

/-- The namespaces in use, sorted, each once. -/
def namespaces (c : Catalog) : List String :=
  (c.tables.filterMap Table.ns).foldr insertSorted []

def createNamespaces (d : Dialect) (c : Catalog) : List String :=
  (namespaces c).filterMap d.createNamespace?

/-- All statements that create a catalog, in order. -/
def generate (d : Dialect) (withNamespaces : Bool) (l : LinkedCatalog c) : Except CompileError (List String) := do
  let statements ← l.ordered.mapM (createSql d)
  return (if withNamespaces then createNamespaces d c else []) ++ statements

/-- The statements as a script, each with a semicolon and an empty line after it. -/
def script (statements : List String) : String :=
  String.join (statements.map (· ++ ";\n\n"))

def dropSql (d : Dialect) (t : LinkedTable c) : String :=
  "DROP " ++ (if t.isView then "VIEW" else "TABLE") ++ " IF EXISTS " ++ d.qualify t.schema.objectName

/-- The statements that drop a catalog, what depends on others first. -/
def drops (d : Dialect) (l : LinkedCatalog c) : List String :=
  l.ordered.reverse.map (dropSql d)

end Ddl

end EntitySql
