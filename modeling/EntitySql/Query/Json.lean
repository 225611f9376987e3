import EntitySql.Operation.Json
import EntitySql.Query.Compiled

/-!
The JSON form of compiled operations. A value that is one of several kinds starts with a tag.
-/
namespace EntitySql

namespace Query

def Value.toJson : Value → Json
  | param name => Json.tagged "source" "param" [("name", .str name)]
  | field root path => Json.tagged "source" "field" [("param", .str root), ("field", .str path)]
  | computed name => Json.tagged "source" "local" [("name", .str name)]

def Encoding.toJson : Encoding → Json
  | plain => Json.tagged "type" "plain" []
  | enumName nullable => Json.tagged "type" "enum_name" [("nullable", .bool nullable)]
  | sqlArray => Json.tagged "type" "sql_array" []

def Binding.toJson (b : Binding) : Json :=
  .obj <| ("value", b.value.toJson) :: Json.member? "column" (b.column.map .str) ++
    [("encoding", b.encoding.toJson)]

def PreludeStep.toJson : PreludeStep → Json
  | generateId name generator column =>
    Json.tagged "step" "generate_id" [("local", .str name), ("generator", .str generator), ("column", .str column)]
  | enumNames name source nullable =>
    Json.tagged "step" "enum_names" [("local", .str name), ("source", source.toJson), ("nullable", .bool nullable)]

def ResultMapping.toJson : ResultMapping → Json
  | discard => Json.tagged "type" "discard" []
  | affectedRows => Json.tagged "type" "affected_rows" []
  | sumAffectedRows => Json.tagged "type" "sum_affected_rows" []
  | affectedIsOne => Json.tagged "type" "affected_is_one" []
  | affectedPositive => Json.tagged "type" "affected_positive" []
  | count => Json.tagged "type" "count" []
  | countPositive => Json.tagged "type" "count_positive" []
  | firstRow => Json.tagged "type" "first_row" []
  | allRows => Json.tagged "type" "all_rows" []
  | echoInserted values => Json.tagged "type" "echo_inserted" [("values", .arr (values.map Value.toJson))]
  | reselectIfUpdated => Json.tagged "type" "reselect_if_updated" []

def RowShape.toJson : RowShape → Json
  | none => Json.tagged "type" "none" []
  | entity columns => Json.tagged "type" "entity" [("columns", .arr (columns.map .str))]
  | column name type =>
    Json.tagged "type" "column"
      [("name", .str name), ("kind", type.kind.toJson), ("is_array", .bool type.isArray)]
  | expression => Json.tagged "type" "expression" []

end Query

def CompiledStatement.toJson (s : CompiledStatement) : Json :=
  .obj [("sql", .str s.sql), ("bindings", .arr (s.bindings.map Query.Binding.toJson))]

def CompiledOperation.toJson (op : CompiledOperation) : Json :=
  .obj <| [("name", .str op.name), ("kind", .str op.kind.label), ("returns", .str op.returns.label),
      ("prelude", .arr (op.prelude.map Query.PreludeStep.toJson)), ("statement", op.statement.toJson)] ++
    Json.member? "follow_up" (op.followUp.map CompiledStatement.toJson) ++
    Json.member? "batch" (op.batch.map .str) ++
    [("result", op.result.toJson), ("row", op.row.toJson)]

def CompiledTable.toJson (t : CompiledTable) : Json :=
  .obj [("table", .str t.table), ("operations", .arr (t.operations.map CompiledOperation.toJson))]

def CompiledCatalog.toJson (compiled : CompiledCatalog) : Json :=
  .obj [("dialect", .str compiled.dialect.label), ("ddl", .arr (compiled.ddl.map .str)),
    ("tables", .arr (compiled.tables.map CompiledTable.toJson))]

def Dialect.decode : Json.Decoder Dialect := Json.variant label all

/-- What is compiled for, every field with a default. -/
def CompilerConfig.decode : Json.Decoder CompilerConfig :=
  Json.record "struct CompilerConfig" <|
    CompilerConfig.mk <$> Json.Fields.defaulted "dialect" .postgres Dialect.decode <*>
      Json.Fields.defaulted "create_schemas" true Json.boolean

end EntitySql
