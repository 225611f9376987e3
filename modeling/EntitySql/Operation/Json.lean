import EntitySql.Json.Decode
import EntitySql.Operation.Basic

/-!
The JSON form of operations. Absent options and empty lists of targets and orderings are left out.
-/
namespace EntitySql
open Json (Decoder record)
open Json.Fields (required defaulted omissible)

def Kind.decode : Decoder Kind := Json.variant label all

def Kind.decodeBuffered : Decoder Kind := Json.bufferedVariant label all

def Kind.toJson (k : Kind) : Json := .str k.label

def OperationKind.decode : Decoder OperationKind := Json.variant label all

def ReturnShape.decode : Decoder ReturnShape := Json.variant label all

def Role.decode : Decoder Role := Json.variant label all

def Direction.decode : Decoder Direction := Json.variant label all

def Conjunction.decode : Decoder Conjunction := Json.variant label all

namespace CompositeField

/-- A field of a composite, which is always buffered. -/
def decode : Decoder CompositeField :=
  Json.bufferedRecord "struct CompositeField" <|
    CompositeField.mk <$> required "name" Json.string <*> required "kind" Kind.decodeBuffered <*>
      defaulted "is_array" false Json.boolean <*> defaulted "skip" false Json.boolean

def toJson (f : CompositeField) : Json :=
  .obj [("name", .str f.name), ("kind", f.kind.toJson), ("is_array", .bool f.isArray), ("skip", .bool f.skip)]

end CompositeField

namespace ParamType

/-- The tags of parameter types. -/
inductive Tag where
  | scalar
  | composite
  | entity
  deriving DecidableEq, Repr

def Tag.label : Tag → String
  | scalar => "scalar"
  | composite => "composite"
  | entity => "entity"

def Tag.all : List Tag :=
  [scalar, composite, entity]

/-- The content of a type with a tag. An entity has none and ignores what is given. -/
def decodeContent : Tag → Decoder ParamType
  | .scalar =>
    Json.bufferedRecord "struct variant ParamType::Scalar" <|
      (fun kind isArray => ParamType.scalar ⟨kind, isArray⟩) <$>
        required "kind" Kind.decodeBuffered <*> defaulted "is_array" false Json.boolean
  | .composite =>
    Json.bufferedRecord "struct variant ParamType::Composite" <|
      ParamType.composite <$> required "fields" (Json.list CompositeField.decode)
  | .entity => fun
    | .arr (x :: xs) => .error (Json.tooLong 0 (x :: xs).length)
    | _ => .ok .entity

def decode : Decoder ParamType :=
  Json.taggedValue "type" "internally tagged enum ParamType" (Json.tagName Tag.label Tag.all) decodeContent

def toJson : ParamType → Json
  | .scalar t => Json.tagged "type" "scalar" [("kind", t.kind.toJson), ("is_array", .bool t.isArray)]
  | .composite fields => Json.tagged "type" "composite" [("fields", .arr (fields.map CompositeField.toJson))]
  | .entity => Json.tagged "type" "entity" []

end ParamType

namespace Param

def decode : Decoder Param :=
  record "struct ParamBinding" <|
    Param.mk <$> required "name" Json.string <*> required "type" ParamType.decode <*>
      defaulted "role" .whereFilter Role.decode <*> defaulted "targets" [] (Json.list Json.string) <*>
      omissible "field_alias" Json.string <*> defaulted "operator" "=" Json.string <*>
      defaulted "ignore_case" false Json.boolean

def toJson (p : Param) : Json :=
  .obj <| [("name", .str p.name), ("type", p.type.toJson), ("role", .str p.role.label)] ++
    Json.members? "targets" (p.targets.map .str) ++ Json.member? "field_alias" (p.fieldAlias.map .str) ++
    [("operator", .str p.operator), ("ignore_case", .bool p.ignoreCase)]

end Param

namespace SortKey

def decode : Decoder SortKey :=
  record "struct OrderBy" <|
    SortKey.mk <$> required "field" Json.string <*> defaulted "direction" .asc Direction.decode

def toJson (k : SortKey) : Json :=
  .obj [("field", .str k.field), ("direction", .str k.direction.label)]

end SortKey

namespace RawPredicate

def decode : Decoder RawPredicate :=
  record "struct RawPredicate" <|
    RawPredicate.mk <$> required "sql" Json.string <*> defaulted "conjunction" .and Conjunction.decode

def toJson (p : RawPredicate) : Json :=
  .obj [("sql", .str p.sql), ("conjunction", .str p.conjunction.label)]

end RawPredicate

namespace Operation

def decode : Decoder Operation :=
  record "struct OperationSpec" <|
    Operation.mk <$> required "name" Json.string <*> required "kind" OperationKind.decode <*>
      required "returns" ReturnShape.decode <*> defaulted "params" [] (Json.list Param.decode) <*>
      defaulted "order_by" [] (Json.list SortKey.decode) <*> omissible "limit" Json.word64 <*>
      omissible "raw_predicate" RawPredicate.decode <*> omissible "return_column" Json.string <*>
      omissible "return_expression" Json.string

def toJson (op : Operation) : Json :=
  .obj <| [("name", .str op.name), ("kind", .str op.kind.label), ("returns", .str op.returns.label),
      ("params", .arr (op.params.map Param.toJson))] ++
    Json.members? "order_by" (op.orderBy.map SortKey.toJson) ++
    Json.member? "limit" (op.limit.map fun n => .int n.toNat) ++
    Json.member? "raw_predicate" (op.rawPredicate.map RawPredicate.toJson) ++
    Json.member? "return_column" (op.returnColumn.map .str) ++
    Json.member? "return_expression" (op.returnExpression.map .str)

end Operation

end EntitySql
