import EntitySql.Schema.Json
import EntitySql.Proofs.Json.Decoded

/-! Columns and operations are decoded from what they are encoded into. The encoders leave members out where the
decoders stand in the same value for them. -/
namespace EntitySql
open Json
open Json.Fields (Denote denote_absent denote_required denote_defaulted denote_omissible denote_list)
variable {depth : Nat}

theorem denote_option (name : String) (v : Option String) :
    Denote depth (Fields.omissible name string) (member? name (v.map .str)) v :=
  denote_omissible name .str v nofun denotes_string

theorem denote_strings (name : String) (names : List String) :
    Denote (depth + 1) (Fields.defaulted name [] (list string)) (members? name (names.map .str)) names :=
  denote_list name .str names fun s _ => denotes_string s

theorem denote_flag (name : String) (absent value : Bool) :
    Denote depth (Fields.defaulted name absent boolean) [(name, .bool value)] value :=
  denote_defaulted name absent (denotes_boolean value)

theorem JoinTarget.denotes_toJson (j : JoinTarget) : Denotes (depth + 1) decode j.toJson j :=
  (denote_required "table" (denotes_string j.table)).map JoinTarget.mk
    |>.seq (denote_option "column" j.column) (by decide)
    |>.seq (denote_option "field" j.field) (by decide)
    |>.record

theorem Kind.denotes_toJson (k : Kind) : Denotes depth decode k.toJson k :=
  denotes_variant (by cases k <;> rfl)

theorem Kind.denotes_toJson_buffered (k : Kind) : Denotes depth decodeBuffered k.toJson k :=
  denotes_bufferedVariant (by cases k <;> rfl)

/-- The column as it is written, without its owner. -/
def Column.disowned (c : Column) : Column :=
  { c with owner := "" }

theorem Column.denotes_toJson (c : Column) : Denotes (depth + 2) decode c.toJson c.disowned :=
  (denote_required "field" (denotes_string c.field)).map Column.mk
    |>.seq (denote_defaulted "name" "" (denotes_string c.name)) (by decide)
    |>.seq (denote_absent "owner_table" "" string) (by decide)
    |>.seq (denote_required "kind" c.kind.denotes_toJson) (by decide)
    |>.seq (denote_flag "is_array" false c.isArray) (by decide)
    |>.seq (denote_flag "nullable" true c.nullable) (by decide)
    |>.seq (denote_flag "primary_key" false c.primaryKey) (by decide)
    |>.seq (denote_flag "unique" false c.unique) (by decide)
    |>.seq (denote_option "default_literal" c.defaultLiteral) (by decide)
    |>.seq (denote_option "id_generator" c.generator) (by decide)
    |>.seq (denote_omissible "join" JoinTarget.toJson c.join nofun JoinTarget.denotes_toJson) (by decide)
    |>.seq (denote_omissible "length" (fun n => .int n.toNat) c.length nofun denotes_word32) (by decide)
    |>.seq (denote_omissible "precision" (fun n => .int n.toNat) c.precision nofun denotes_word8) (by decide)
    |>.seq (denote_omissible "scale" (fun n => .int n.toNat) c.scale nofun denotes_word8) (by decide)
    |>.seq (denote_option "definition" c.definition) (by decide)
    |>.record

theorem UniqueConstraint.denotes_toJson (u : UniqueConstraint) : Denotes (depth + 2) decode u.toJson u :=
  (denote_strings "fields" u.fields).map UniqueConstraint.mk
    |>.seq (denote_strings "columns" u.columns) (by decide)
    |>.record

theorem CompositeField.denotes_toJson (f : CompositeField) : Denotes (depth + 1) decode f.toJson f :=
  (denote_required "name" (denotes_string f.name)).map CompositeField.mk
    |>.seq (denote_required "kind" f.kind.denotes_toJson_buffered) (by decide)
    |>.seq (denote_flag "is_array" false f.isArray) (by decide)
    |>.seq (denote_flag "skip" false f.skip) (by decide)
    |>.bufferedRecord

theorem ParamType.denotes_toJson (type : ParamType) : Denotes (depth + 3) decode type.toJson type := by
  cases type with
  | scalar t =>
    apply denotes_tagged (t := Tag.scalar) rfl (by simp)
    exact denote_required "kind" t.kind.denotes_toJson_buffered
      |>.map (fun kind isArray => ParamType.scalar ⟨kind, isArray⟩)
      |>.seq (denote_flag "is_array" false t.isArray) (by decide)
      |>.bufferedRecord
  | composite fields =>
    have hfields : Denotes (depth + 2) (list CompositeField.decode) (.arr (fields.map CompositeField.toJson)) fields :=
      denotes_list fun f _ => f.denotes_toJson
    apply denotes_tagged (t := Tag.composite) rfl (by simp)
    exact ((denote_required "fields" hfields).map ParamType.composite).bufferedRecord
  | entity => exact denotes_tagged (t := Tag.entity) rfl nofun ⟨.obj nofun, rfl⟩

theorem Role.denotes_label (r : Role) : Denotes depth decode (.str r.label) r :=
  denotes_variant (by cases r <;> rfl)

theorem Param.denotes_toJson (p : Param) : Denotes (depth + 4) decode p.toJson p := by
  have hfields : Denote (depth + 3) _ _ p := (denote_required "name" (denotes_string p.name)).map Param.mk
    |>.seq (denote_required "type" p.type.denotes_toJson) (by decide)
    |>.seq (denote_defaulted "role" .whereFilter p.role.denotes_label) (by decide)
    |>.seq (denote_strings "targets" p.targets) (by decide)
    |>.seq (denote_option "field_alias" p.fieldAlias) (by decide)
    |>.seq (denote_defaulted "operator" "=" (denotes_string p.operator)) (by decide)
    |>.seq (denote_flag "ignore_case" false p.ignoreCase) (by decide)
  rw [List.append_assoc] at hfields
  exact hfields.record

theorem Direction.denotes_label (d : Direction) : Denotes depth decode (.str d.label) d :=
  denotes_variant (by cases d <;> rfl)

theorem SortKey.denotes_toJson (k : SortKey) : Denotes (depth + 1) decode k.toJson k :=
  (denote_required "field" (denotes_string k.field)).map SortKey.mk
    |>.seq (denote_defaulted "direction" .asc k.direction.denotes_label) (by decide)
    |>.record

theorem Conjunction.denotes_label (j : Conjunction) : Denotes depth decode (.str j.label) j :=
  denotes_variant (by cases j <;> rfl)

theorem RawPredicate.denotes_toJson (p : RawPredicate) : Denotes (depth + 1) decode p.toJson p :=
  (denote_required "sql" (denotes_string p.sql)).map RawPredicate.mk
    |>.seq (denote_defaulted "conjunction" .and p.conjunction.denotes_label) (by decide)
    |>.record

theorem OperationKind.denotes_label (k : OperationKind) : Denotes depth decode (.str k.label) k :=
  denotes_variant (by cases k <;> rfl)

theorem ReturnShape.denotes_label (r : ReturnShape) : Denotes depth decode (.str r.label) r :=
  denotes_variant (by cases r <;> rfl)

theorem Operation.denotes_toJson (op : Operation) : Denotes (depth + 6) decode op.toJson op :=
  (denote_required "name" (denotes_string op.name)).map Operation.mk
    |>.seq (denote_required "kind" op.kind.denotes_label) (by decide)
    |>.seq (denote_required "returns" op.returns.denotes_label) (by decide)
    |>.seq (denote_defaulted "params" [] (denotes_list fun p _ => Param.denotes_toJson p)) (by decide)
    |>.seq (denote_list "order_by" SortKey.toJson op.orderBy fun k _ => k.denotes_toJson) (by decide)
    |>.seq (denote_omissible "limit" (fun n => .int n.toNat) op.limit nofun denotes_word64) (by decide)
    |>.seq (denote_omissible "raw_predicate" RawPredicate.toJson op.rawPredicate nofun RawPredicate.denotes_toJson)
      (by decide)
    |>.seq (denote_option "return_column" op.returnColumn) (by decide)
    |>.seq (denote_option "return_expression" op.returnExpression) (by decide)
    |>.record

end EntitySql
