import EntitySql.Proofs.Query.Reselected

/-! What an update assigns. The SET list goes through the value parameters and through the targets of each; unlike an
insert it leaves nothing out for having come before. Main statement: a column is assigned as often as value parameters
are aimed at its field, so each is assigned at most once exactly if no two aims are the same. -/
namespace EntitySql.Query
variable {d : Dialect} {t : Table} {op : Operation} {p : Param}

/-- The fields that a value parameter is aimed at: that of a single value, those of a structure that are not skipped, or
all of a row, in each case only columns, and generated ones only of a single value. -/
def aimedFields (t : Table) (p : Param) : List String :=
  match p.type with
  | .scalar _ =>
    match p.targets with
    | [] => [p.fieldAlias.getD p.name].filter fun field => (t.column? field).isSome
    | fields => fields.filter fun field => (t.column? field).isSome
  | .composite fields =>
    ((fields.filter fun f => !f.skip).map CompositeField.name).filter fun field =>
      (t.column? field).any fun column => !column.isGenerated
  | .entity => (t.columns.toList.filter fun column => !column.isGenerated).map Column.field

section
variable (t op)

/-- The parameters whose values an update stores. -/
def storedParams : List Param :=
  op.params.filter fun p => p.role ≠ .whereFilter

/-- The names in the SET list of an update. -/
def assignedNames : List String :=
  (updateTargets t op).map fun target => target.column.name

end

/-- Of some fields, those whose columns are wanted. -/
theorem fields_of_columns (wanted : Column → Bool) (fields : List String) :
    ((fields.filterMap t.column?).filter wanted).map Column.field =
      fields.filter fun field => (t.column? field).any wanted := by
  induction fields with
  | nil => rfl
  | cons field fields ih =>
    cases hcolumn : t.column? field with
    | none => simpa [List.filterMap_cons_none hcolumn, hcolumn] using ih
    | some column =>
      have hfield := (Table.column?_eq_some.1 hcolumn).2
      cases hwanted : wanted column <;> simp [List.filterMap_cons_some hcolumn, hcolumn, hwanted, hfield, ih]

/-- The columns of the targets of a structure are those of its fields. -/
theorem columns_of_members (root : String) (fields : List CompositeField) :
    (fields.filterMap fun f => (t.column? f.name).map fun column => (⟨column, .field root f.name⟩ : Target)).map
      (·.column) = (fields.map CompositeField.name).filterMap t.column? := by
  induction fields with
  | nil => rfl
  | cons f fields ih => cases hcolumn : t.column? f.name <;> simp [hcolumn, ih]

/-- What a value parameter has assigned are the fields that it is aimed at. -/
theorem fields_assigned (t : Table) (p : Param) :
    ((targetsOf t p).filter fun target => !(p.isComposite && target.column.isGenerated)).map (·.column.field) =
      aimedFields t p := by
  unfold aimedFields targetsOf
  cases htype : p.type with
  | scalar type =>
    have hall : ∀ targets : List Target,
        (targets.filter fun target => !(p.isComposite && target.column.isGenerated)) = targets := by
      simp [Param.isComposite, htype]
    cases htargets : p.targets with
    | nil =>
      rw [hall]
      cases hcolumn : t.column? (p.fieldAlias.getD p.name) with
      | none => simp [hcolumn]
      | some column => simp [hcolumn, (Table.column?_eq_some.1 hcolumn).2]
    | cons field fields =>
      rw [hall, List.map_map]
      have hfields := fields_of_columns (t := t) (fun _ => true) (field :: fields)
      simpa [Function.comp_def] using hfields
  | composite fields =>
    have hgenerated : ∀ targets : List Target,
        (targets.filter fun target => !(p.isComposite && target.column.isGenerated)).map (·.column.field) =
          ((targets.map (·.column)).filter fun column => !column.isGenerated).map Column.field := by
      simp [Param.isComposite, htype, List.filter_map, Function.comp_def]
    rw [hgenerated]
    dsimp only
    rw [columns_of_members, fields_of_columns]
  | entity =>
    simp [Param.isComposite, htype, List.filter_map, Function.comp_def]

/-- The SET list is aimed at the fields of the value parameters, one parameter after the other. -/
theorem fields_updateTargets :
    (updateTargets t op).map (·.column.field) = (storedParams op).flatMap (aimedFields t) := by
  rw [updateTargets, valueParams_boundParams, assignedTargets, List.flatMap_map, List.map_flatMap]
  exact congrArg (List.flatMap · _) (funext (fields_assigned t))

theorem mem_updateTargets {target : Target} (h : target ∈ updateTargets t op) : target.column ∈ t.columns.toList :=
  mem_assignedTargets h

section
variable (hnames : (columnNames t).Nodup)
include hnames

/-- Columns are told apart by their names as by their fields. -/
theorem name_eq_iff_field {a b : Column} (ha : a ∈ t.columns.toList) (hb : b ∈ t.columns.toList) :
    a.name = b.name ↔ a.field = b.field := by
  constructor
  · intro h
    rw [List.inj_on_of_nodup_map hnames ha hb h]
  · intro h
    rw [List.inj_on_of_nodup_map t.columns.nodup_fields ha hb h]

/-- A column stands in the SET list as often as value parameters are aimed at its field. -/
theorem count_assignedNames {column : Column} (hcolumn : column ∈ t.columns.toList) :
    (assignedNames t op).count column.name = ((storedParams op).flatMap (aimedFields t)).count column.field := by
  rw [← fields_updateTargets, assignedNames, List.count_eq_countP, List.count_eq_countP, List.countP_map, List.countP_map]
  refine List.countP_congr fun target htarget => ?_
  simpa using name_eq_iff_field hnames (mem_updateTargets htarget) hcolumn

theorem nodup_assignedNames :
    (assignedNames t op).Nodup ↔ ((storedParams op).flatMap (aimedFields t)).Nodup := by
  rw [← fields_updateTargets, assignedNames]
  simp only [List.Nodup, List.pairwise_map]
  refine List.Pairwise.iff_of_mem fun ha hb => ?_
  exact not_congr (name_eq_iff_field hnames (mem_updateTargets ha) (mem_updateTargets hb))

end

/-- Only a structure can be aimed at one field twice: a single value has one field, and a row has each field once. -/
theorem nodup_aimedFields (hone : p.isComposite = false → (targetsOf t p).length ≤ 1)
    (h : ∀ fields, p.type = .composite fields → (aimedFields t p).Nodup) : (aimedFields t p).Nodup := by
  cases htype : p.type with
  | scalar type =>
    have hlength : (aimedFields t p).length ≤ 1 := by
      rw [← fields_assigned, List.length_map]
      exact (List.length_filter_le _ _).trans (hone (by simp [Param.isComposite, htype]))
    exact List.nodup_iff_count_le_one.2 fun field => List.count_le_length.trans hlength
  | composite fields => exact h fields htype
  | entity =>
    simp only [aimedFields, htype]
    exact t.columns.nodup_fields.sublist (List.filter_sublist.map _)

/-- No two aims of an update are the same: no structure has a field twice, and no field is had by two parameters. -/
structure AimedApart (t : Table) (op : Operation) : Prop where
  within : ∀ p ∈ storedParams op, ∀ fields, p.type = .composite fields → (aimedFields t p).Nodup
  between : (storedParams op).Pairwise fun p q => (aimedFields t p).Disjoint (aimedFields t q)

theorem nodup_aims_iff (h : Acceptable t op) (hkind : op.kind = .update) :
    ((storedParams op).flatMap (aimedFields t)).Nodup ↔ AimedApart t op := by
  have hrules : UpdateRules t op := by simpa [KindRules, hkind] using h.kind
  rw [List.nodup_flatMap]
  constructor
  · rintro ⟨hwithin, hbetween⟩
    exact ⟨fun p hp _ _ => hwithin p hp, hbetween⟩
  · rintro ⟨hwithin, hbetween⟩
    refine ⟨fun p hp => nodup_aimedFields (fun hscalar => ?_) (hwithin p hp), hbetween⟩
    obtain ⟨hmem, hrole⟩ := List.mem_filter.1 hp
    exact hrules.one_column p hmem (by simpa using hrole) hscalar

/-- The SET list of an update: its text with the WHERE clause that follows it, its bindings, and how often it names each
column. -/
structure SetList (d : Dialect) (t : Table) (op : Operation) (compiled : CompiledOperation) : Prop where
  sql : compiled.statement.sql = updateText d t (updateTargets t op) ++
    whereText d (1 + (updateTargets t op).length) t op (updateFilters t op)
  bindings : (compiled.statement.bindings.take (updateTargets t op).length).map (·.column) =
    (assignedNames t op).map some
  fields : (updateTargets t op).map (·.column.field) = (storedParams op).flatMap (aimedFields t)
  count : ∀ column ∈ t.columns.toList,
    (assignedNames t op).count column.name = ((storedParams op).flatMap (aimedFields t)).count column.field

/-- An update assigns each column at most once exactly if no two aims of its value parameters are the same. -/
theorem assigned_once_iff {compiled : CompiledOperation} (hnames : (columnNames t).Nodup)
    (h : op.compile d t = .ok compiled) (hkind : op.kind = .update) :
    SetList d t op compiled ∧ ((assignedNames t op).Nodup ↔ AimedApart t op) := by
  obtain ⟨p, hplan, rfl⟩ := compile_eq_ok.1 h
  have hp := planned_of_plan hplan
  refine ⟨?_, (nodup_assignedNames hnames).trans (nodup_aims_iff (exists_plan_iff_acceptable.1 ⟨p, hplan⟩) hkind)⟩
  constructor
  case sql => rw [Plan.compile, (hp.eq_update hkind).1, sql_updateOf, whereText]
  case bindings =>
    have hcolumns : (p.compile d op).statement.bindings.map (·.column) = p.statement.slots.map (·.column) :=
      columns_bindAll _
    have hassigned : ((updateTargets t op).map Target.slot).map (·.column) = (assignedNames t op).map some := by
      simp [assignedNames, Target.slot, Function.comp_def]
    rw [List.map_take, hcolumns, hp.slots_update hkind, List.append_assoc, List.map_append, hassigned,
      List.take_left' (by simp [assignedNames])]
  case fields => exact fields_updateTargets
  case count => exact fun column hcolumn => count_assignedNames hnames hcolumn

/-- An update by a structure and a single value, aimed at different columns. -/
def reissue : Operation where
  name := "reissue"
  kind := .update
  returns := .int
  params := [
    { Param.composite "user" [⟨"id", .long, false, false⟩, ⟨"badges", .enum, true, false⟩, ⟨"name", .string, false, true⟩]
      with role := .updateValue },
    { Param.scalar "name" .string with role := .updateValue }, Param.scalar "id" .long]

set_option maxRecDepth 4000 in
theorem reissue_assigns_once : (columnNames badges).Nodup ∧ reissue.kind = .update ∧ ∃ compiled,
    Operation.compile .postgres badges reissue = .ok compiled ∧
      compiled.statement.sql = "UPDATE \"USERS\" SET \"BADGES\" = $1, \"NAME\" = $2 WHERE \"ID\" = $3" ∧
      SetList .postgres badges reissue compiled ∧ (assignedNames badges reissue).Nodup := by
  have hnames : (columnNames badges).Nodup := by decide
  have hsql : (Operation.compile .postgres badges reissue).toOption.map (fun compiled => compiled.statement.sql) =
      some "UPDATE \"USERS\" SET \"BADGES\" = $1, \"NAME\" = $2 WHERE \"ID\" = $3" := by
    cbv
  obtain ⟨compiled, h, hsql⟩ := exists_ok_of_toOption hsql
  obtain ⟨hset, honce⟩ := assigned_once_iff hnames h rfl
  have haimed : (storedParams reissue).map (aimedFields badges) = [["badges"], ["name"]] := by cbv
  have hwithin : ∀ fields ∈ (storedParams reissue).map (aimedFields badges), fields.Nodup := by
    rw [haimed]
    decide
  have hbetween : ((storedParams reissue).map (aimedFields badges)).Pairwise List.Disjoint := by
    rw [haimed]
    simp
  have hapart : AimedApart badges reissue :=
    ⟨fun p hp _ _ => hwithin _ (List.mem_map_of_mem hp), List.pairwise_map.1 hbetween⟩
  exact ⟨hnames, rfl, compiled, h, hsql, hset, honce.2 hapart⟩

/-- An update with two values for one column. -/
def retitle : Operation where
  name := "retitle"
  kind := .update
  returns := .int
  params := [
    { Param.scalar "name" .string with role := .updateValue },
    { Param.scalar "alias" .string with role := .updateValue, targets := ["name"] }, Param.scalar "id" .long]

set_option maxRecDepth 4000 in
/-- Both values are assigned, where an insert would store the first. -/
theorem retitle_assigns_twice : (columnNames badges).Nodup ∧ retitle.kind = .update ∧ ∃ compiled,
    Operation.compile .postgres badges retitle = .ok compiled ∧
      compiled.statement.sql = "UPDATE \"USERS\" SET \"NAME\" = $1, \"NAME\" = $2 WHERE \"ID\" = $3" ∧
      ¬(assignedNames badges retitle).Nodup := by
  have hsql : (Operation.compile .postgres badges retitle).toOption.map (fun compiled => compiled.statement.sql) =
      some "UPDATE \"USERS\" SET \"NAME\" = $1, \"NAME\" = $2 WHERE \"ID\" = $3" := by
    cbv
  obtain ⟨compiled, h, hsql⟩ := exists_ok_of_toOption hsql
  have hassigned : assignedNames badges retitle = ["NAME", "NAME"] := by cbv
  exact ⟨by decide, rfl, compiled, h, hsql, by simp [hassigned]⟩

end EntitySql.Query
