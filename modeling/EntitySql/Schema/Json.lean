import EntitySql.Json.Write
import EntitySql.Operation.Json
import EntitySql.Schema.Table

/-!
The JSON form of catalogs. A table lists its columns and may be named by an entity; names that can be derived may be
left out. Owners are not written, since a table gives them to its columns.
-/
namespace EntitySql
open Json (Decoder record)
open Json.Fields (required defaulted omissible)

namespace JoinTarget

def decode : Decoder JoinTarget :=
  record "struct JoinTarget" <|
    JoinTarget.mk <$> required "table" Json.string <*> omissible "column" Json.string <*>
      omissible "field" Json.string

def toJson (j : JoinTarget) : Json :=
  .obj <| ("table", .str j.table) :: Json.member? "column" (j.column.map .str) ++
    Json.member? "field" (j.field.map .str)

end JoinTarget

namespace Column

def decode : Decoder Column :=
  record "struct ColumnSchema" <|
    Column.mk <$> required "field" Json.string <*> defaulted "name" "" Json.string <*>
      defaulted "owner_table" "" Json.string <*> required "kind" Kind.decode <*>
      defaulted "is_array" false Json.boolean <*> defaulted "nullable" true Json.boolean <*>
      defaulted "primary_key" false Json.boolean <*> defaulted "unique" false Json.boolean <*>
      omissible "default_literal" Json.string <*> omissible "id_generator" Json.string <*>
      omissible "join" JoinTarget.decode <*> omissible "length" Json.word32 <*>
      omissible "precision" Json.word8 <*> omissible "scale" Json.word8 <*>
      omissible "definition" Json.string

def toJson (c : Column) : Json :=
  .obj <| [("field", .str c.field), ("name", .str c.name), ("kind", c.kind.toJson), ("is_array", .bool c.isArray),
      ("nullable", .bool c.nullable), ("primary_key", .bool c.primaryKey), ("unique", .bool c.unique)] ++
    Json.member? "default_literal" (c.defaultLiteral.map .str) ++
    Json.member? "id_generator" (c.generator.map .str) ++
    Json.member? "join" (c.join.map JoinTarget.toJson) ++
    Json.member? "length" (c.length.map fun n => .int n.toNat) ++
    Json.member? "precision" (c.precision.map fun n => .int n.toNat) ++
    Json.member? "scale" (c.scale.map fun n => .int n.toNat) ++
    Json.member? "definition" (c.definition.map .str)

end Column

namespace UniqueConstraint

def decode : Decoder UniqueConstraint :=
  record "struct UniqueConstraint" <|
    UniqueConstraint.mk <$> defaulted "fields" [] (Json.list Json.string) <*>
      defaulted "columns" [] (Json.list Json.string)

def toJson (u : UniqueConstraint) : Json :=
  .obj (Json.members? "fields" (u.fields.map .str) ++ Json.members? "columns" (u.columns.map .str))

end UniqueConstraint

/-- A table as it is written. -/
structure TableForm where
  name : Option String
  entity : Option String
  ns : Option String
  columns : List Column
  uniqueConstraints : List UniqueConstraint
  viewOf : Option String
  operations : List Operation

namespace TableForm

def fields : Json.Fields TableForm :=
  TableForm.mk <$> omissible "name" Json.string <*> omissible "entity" Json.string <*>
    omissible "namespace" Json.string <*> defaulted "columns" [] (Json.list Column.decode) <*>
    defaulted "unique_constraints" [] (Json.list UniqueConstraint.decode) <*>
    omissible "view_of" Json.string <*> defaulted "operations" [] (Json.list Operation.decode)

/-- The name of a table, given or derived from its entity. -/
def tableName? (form : TableForm) : Option String :=
  form.name.or (form.entity.map derivedName)

def table? (form : TableForm) : Option Table :=
  form.tableName?.map fun name =>
    let bare : Table :=
      { name, ns := form.ns, uniqueConstraints := form.uniqueConstraints, viewOf := form.viewOf,
        operations := form.operations }
    form.columns.foldl Table.addColumn bare

end TableForm

namespace Table

def decode : Decoder Table := fun x => do
  let form ← record "struct TableDef" TableForm.fields x
  match form.table? with
  | some t => return t
  | none => throw (.refused "table needs a `name` or an `entity`")

def toJson (t : Table) : Json :=
  .obj <| ("name", .str t.name) :: Json.member? "namespace" (t.ns.map .str) ++
    [("columns", .arr (t.columns.toList.map Column.toJson))] ++
    Json.members? "unique_constraints" (t.uniqueConstraints.map UniqueConstraint.toJson) ++
    Json.member? "view_of" (t.viewOf.map .str) ++
    Json.members? "operations" (t.operations.map Operation.toJson)

end Table

namespace Catalog

def decode : Decoder Catalog :=
  record "struct Catalog" <| Catalog.mk <$> defaulted "tables" [] (Json.list Table.decode)

def toJson (c : Catalog) : Json :=
  .obj [("tables", .arr (c.tables.map Table.toJson))]

def ofText (text : String) : Except Json.Fault Catalog :=
  Json.decodeText text decode

def toText (c : Catalog) : String :=
  c.toJson.compact

end Catalog

end EntitySql
