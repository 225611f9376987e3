import EntitySql.Error
import EntitySql.Link.ForeignKey
import EntitySql.Schema.Table

/-!
Linking the tables of a catalog: names are unique, every reference is resolved to an existing column, and keys list
physical columns. Faults are found table by table in declaration order.
-/
namespace EntitySql

/-- A table with its keys and resolved references. -/
structure LinkedTable (c : Catalog) where
  index : Fin c.size
  primaryKey : List String
  /-- Unique columns, then unique constraints. -/
  uniqueKeys : List (List String)
  /-- Resolved join columns in physical order. -/
  references : List (Reference c.size)
  foreignKeys : List (ForeignKey c.size)
  /-- The base of a view. -/
  viewBase : Option (Fin c.size)
  deriving DecidableEq, Repr

namespace LinkedTable
variable {c : Catalog}

def schema (t : LinkedTable c) : Table :=
  c.table t.index

def isView (t : LinkedTable c) : Bool :=
  t.schema.isView

def reference? (t : LinkedTable c) (field : String) : Option (Reference c.size) :=
  t.references.find? (·.field == field)

end LinkedTable

namespace Link

/-- The first text that stands in a list for the second time, `seen` being those before it. -/
def firstRepeated (seen : List String) : List String → Option String
  | [] => none
  | s :: rest => if s ∈ seen then some s else firstRepeated (s :: seen) rest

def checkTableNames (c : Catalog) : Except CompileError Unit :=
  match firstRepeated [] (c.tables.map Table.qualifiedName) with
  | some table => throw (.duplicateTable table)
  | none => return ()

/-- The first column that was not added, or whose name is taken by an earlier column. -/
def checkColumnNames (t : Table) : Except CompileError Unit :=
  match t.duplicates.head?.or (firstRepeated [] (t.columns.toList.map Column.name)) with
  | some column => throw (.duplicateColumn t.qualifiedName column)
  | none => return ()

def resolveTable (c : Catalog) (t : Table) (name via : String) : Except CompileError (Fin c.size) :=
  match c.index? name with
  | some i => return i
  | none => throw (.unresolvedReference t.qualifiedName name via)

/-- The base of a view, which has a name and columns. -/
def resolveBase (c : Catalog) (t : Table) : Except CompileError (Option (Fin c.size)) :=
  match t.viewOf with
  | none => return none
  | some base =>
    if base.isEmpty || t.columns.toList.isEmpty then throw (.emptyView t.qualifiedName)
    else return some (← resolveTable c t base "view base table")

/-- The column that a join target gives, by exactly one of physical name and field. -/
def targetColumn (t : Table) (column : Column) (join : JoinTarget) (target : Table) :
    Except CompileError Column :=
  let found (name : String) (column? : Option Column) : Except CompileError Column :=
    match column? with
    | some target => return target
    | none => throw (.unresolvedColumn t.qualifiedName target.qualifiedName name)
  match join.column, join.field with
  | some _, some _ => throw (.ambiguousJoinSpecifier t.qualifiedName column.name)
  | none, none => throw (.missingJoinSpecifier t.qualifiedName column.name)
  | some name, none => found name (target.columns.named? name)
  | none, some field => found field (target.column? field)

/-- The reference of a join column. Only a view may refer to a view. -/
def resolveJoin (c : Catalog) (t : Table) (column : Column) (join : JoinTarget) :
    Except CompileError (Reference c.size) := do
  let i ← resolveTable c t join.table ("column '" ++ column.name ++ "'")
  let target := c.table i
  if target.isView && !t.isView then
    throw (.foreignKeyTargetIsView t.qualifiedName column.name target.qualifiedName)
  let found ← targetColumn t column join target
  return ⟨column.field, column.name, i, found.field, found.name⟩

/-- The references of a table's columns, in physical order. -/
def resolveJoins (c : Catalog) (t : Table) : List Column → Except CompileError (List (Reference c.size))
  | [] => return []
  | column :: rest =>
    match column.join with
    | none => resolveJoins c t rest
    | some join => do
      let reference ← resolveJoin c t column join
      return reference :: (← resolveJoins c t rest)

/-- The physical name of a member of a unique constraint. -/
def uniqueMember (t : Table) (name : String) : Option Column → Except CompileError String
  | some column => return column.name
  | none => throw (.unresolvedColumn t.qualifiedName t.qualifiedName name)

/-- The members of a unique constraint, those given by field first. -/
def uniqueMembers (t : Table) (key : UniqueConstraint) : Except CompileError (List String) := do
  let fields ← key.fields.mapM fun field => uniqueMember t field (t.column? field)
  let columns ← key.columns.mapM fun name => uniqueMember t name (t.columns.named? name)
  return fields ++ columns

/-- The unique keys of a table: unique columns, then the constraints that have members. -/
def uniqueKeys (t : Table) : Except CompileError (List (List String)) := do
  let declared ← t.uniqueConstraints.mapM (uniqueMembers t)
  return (t.columns.toList.filter (·.unique)).map (fun column => [column.name]) ++
    declared.filter (fun key => !key.isEmpty)

def linkTable (c : Catalog) (i : Fin c.size) : Except CompileError (LinkedTable c) := do
  let t := c.table i
  checkColumnNames t
  let viewBase ← resolveBase c t
  let references ← resolveJoins c t t.columns.toList
  let uniqueKeys ← uniqueKeys t
  return {
    index := i
    primaryKey := t.primaryKey.map Column.name
    uniqueKeys
    references
    foreignKeys := ForeignKey.ofReferences references
    viewBase }

/-- Links all tables, in declaration order. -/
def linkTables (c : Catalog) : Except CompileError (List (LinkedTable c)) := do
  checkTableNames c
  (List.finRange c.size).mapM (linkTable c)

end Link

end EntitySql
