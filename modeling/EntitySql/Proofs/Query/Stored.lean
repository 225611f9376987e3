import EntitySql.Proofs.Query.Locals

/-! What an insert stores. Ids come from the table and values from the parameters, in any overlap; the statement names
each column once. Main statement: columns, bindings and placeholders go together in the order of the columns, an id goes
to every generated column and to no other, and any other column gets the first value that is given for it. -/
namespace EntitySql.Query
variable {d : Dialect} {t : Table} {op : Operation}

/-- The columns that an insert stores, with their values. -/
def storedTargets (t : Table) (op : Operation) : List Target :=
  insertValues t (boundParams t op)

theorem mem_storedTargets {target : Target} : target ∈ storedTargets t op ↔
    ∃ i, t.columns.toList[i]? = some target.column ∧
      insertValue? t (boundParams t op) target.column i = some target.value := by
  constructor
  · intro h
    obtain ⟨⟨column, i⟩, hmem, hentry⟩ := List.mem_filterMap.1 h
    obtain ⟨value, hvalue, rfl⟩ := Option.map_eq_some_iff.1 hentry
    exact ⟨i, List.mk_mem_zipIdx_iff_getElem?.1 hmem, hvalue⟩
  · rintro ⟨i, hcolumn, hvalue⟩
    refine List.mem_filterMap.2 ⟨(target.column, i), List.mk_mem_zipIdx_iff_getElem?.2 hcolumn, ?_⟩
    simp [hvalue]

/-- An insert names columns in physical order, and each at most once. -/
theorem sublist_storedTargets (t : Table) (op : Operation) :
    ((storedTargets t op).map (·.column)).Sublist t.columns.toList := by
  have hkept : ∀ (entry : Column × ℕ) (target : Target),
      ((insertValue? t (boundParams t op) entry.1 entry.2).map fun value => ⟨entry.1, value⟩) = some target →
        target.column = entry.1 := by
    intro entry target hentry
    obtain ⟨value, -, rfl⟩ := Option.map_eq_some_iff.1 hentry
    rfl
  have hfirst : t.columns.toList.zipIdx.map Prod.fst = t.columns.toList := List.zipIdx_map_fst 0 _
  have hsub := sublist_of_filterMap hkept t.columns.toList.zipIdx
  rw [hfirst] at hsub
  exact hsub

/-- All targets of the parameters of an operation, in the order of the parameters and of the targets of each. -/
def givenTargets (t : Table) (op : Operation) : List Target :=
  op.params.flatMap (targetsOf t)

theorem targets_boundParams : (boundParams t op).flatMap (·.targets) = givenTargets t op := by
  rw [boundParams, List.flatMap_map]
  rfl

theorem mem_givenTargets {target : Target} : target ∈ givenTargets t op ↔ ∃ p ∈ op.params, target ∈ targetsOf t p :=
  List.mem_flatMap

theorem column_mem_storedTargets {column : Column} : column ∈ (storedTargets t op).map (·.column) ↔
    ∃ i value, t.columns.toList[i]? = some column ∧ insertValue? t (boundParams t op) column i = some value := by
  constructor
  · intro h
    obtain ⟨target, htarget, rfl⟩ := List.mem_map.1 h
    obtain ⟨i, hplace, hvalue⟩ := mem_storedTargets.1 htarget
    exact ⟨i, target.value, hplace, hvalue⟩
  · rintro ⟨i, value, hplace, hvalue⟩
    exact List.mem_map.2 ⟨⟨column, value⟩, mem_storedTargets.2 ⟨i, hplace, hvalue⟩, rfl⟩

theorem exists_givenTarget {column : Column} : (∃ target ∈ givenTargets t op, target.column = column) ↔
    ∃ p ∈ op.params, ∃ target ∈ targetsOf t p, target.column = column := by
  constructor
  · rintro ⟨target, htarget, hsame⟩
    obtain ⟨p, hp, htarget⟩ := mem_givenTargets.1 htarget
    exact ⟨p, hp, target, htarget, hsame⟩
  · rintro ⟨p, hp, target, htarget, hsame⟩
    exact ⟨target, mem_givenTargets.2 ⟨p, hp, htarget⟩, hsame⟩

section
variable (hnames : (columnNames t).Nodup) {i : ℕ} {column : Column}
include hnames

theorem insertValue?_given (hcolumn : t.columns.toList[i]? = some column) (hgiven : column.isGenerated = false) :
    insertValue? t (boundParams t op) column i =
      ((givenTargets t op).find? (·.column = column)).map (·.value) := by
  have hparams : ∀ target ∈ (boundParams t op).flatMap (·.targets), target.column ∈ t.columns.toList := by
    intro target htarget
    rw [targets_boundParams] at htarget
    obtain ⟨p, -, htarget⟩ := mem_givenTargets.1 htarget
    exact (mem_targetsOf htarget).1
  rw [insertValue?, hgiven, insertTarget?_eq_find? hnames hparams (List.mem_of_getElem? hcolumn) hgiven,
    targets_boundParams]
  rfl

/-- A column is stored exactly if it is generated or some target of a parameter has it. -/
theorem mem_columns_storedTargets (hcolumn : column ∈ t.columns.toList) :
    column ∈ (storedTargets t op).map (·.column) ↔
      column.isGenerated = true ∨ ∃ p ∈ op.params, ∃ target ∈ targetsOf t p, target.column = column := by
  obtain ⟨i, hplace⟩ := List.mem_iff_getElem?.1 hcolumn
  rw [column_mem_storedTargets, ← exists_givenTarget]
  cases hgenerated : column.isGenerated with
  | true => simpa [insertValue?, hgenerated] using ⟨i, hplace⟩
  | false =>
    have hfind : (∃ value, ((givenTargets t op).find? (·.column = column)).map (·.value) = some value) ↔
        ∃ target ∈ givenTargets t op, target.column = column := by
      rw [← Option.isSome_iff_exists, Option.isSome_map, List.find?_isSome]
      simp
    rw [← hfind]
    constructor
    · rintro ⟨j, value, hplace, hvalue⟩
      rw [insertValue?_given hnames hplace hgenerated] at hvalue
      exact .inr ⟨value, hvalue⟩
    · rintro (hfalse | ⟨value, hvalue⟩)
      · cases hfalse
      · exact ⟨i, value, hplace, insertValue?_given hnames hplace hgenerated ▸ hvalue⟩

end

/-- Where the value comes from that an insert stores into a column: from the only step that mints an id for it if it is
generated, and otherwise from the first target that has the column. -/
structure Value.StoredIn (value : Value) (t : Table) (op : Operation) (steps : List PreludeStep) (column : Column) :
    Prop where
  minted : ∀ generator ∈ column.generator, ∃ name, value = .computed name ∧
    ∀ step, step ∈ steps ∧ step.minted? = some column.name ↔ step = .generateId name generator column.name
  given : column.generator = none → ∃ before target after, givenTargets t op = before ++ target :: after ∧
    target.column = column ∧ (∀ earlier ∈ before, earlier.column ≠ column) ∧ value = target.value

theorem storedIn_of_mem (hnames : (columnNames t).Nodup) (arrays : EnumArrays) {target : Target}
    (h : target ∈ storedTargets t op) :
    target.value.StoredIn t op (generatedIds t ++ enumSteps arrays) target.column := by
  obtain ⟨i, hplace, hvalue⟩ := mem_storedTargets.1 h
  constructor
  · intro generator hgenerator
    rw [insertValue?, if_pos (by simp [Column.isGenerated, Option.mem_def.1 hgenerator])] at hvalue
    refine ⟨idLocal i, (Option.some.inj hvalue).symm, fun step => ?_⟩
    exact minted_unique hnames hplace hgenerator step
  · intro hgiven
    rw [insertValue?_given hnames hplace (by simp [Column.isGenerated, hgiven])] at hvalue
    obtain ⟨given, hfind, hgivenValue⟩ := Option.map_eq_some_iff.1 hvalue
    obtain ⟨hsame, before, after, hsplit, hbefore⟩ := List.find?_eq_some_iff_append.1 hfind
    exact ⟨before, given, after, hsplit, by simpa using hsame, by simpa using hbefore, hgivenValue.symm⟩

/-- The values of a structure or a row are fields of it. -/
theorem field_of_composite {p : Param} (h : p.isComposite = true) {target : Target} (htarget : target ∈ targetsOf t p) :
    ∃ path, target.value = .field p.name path := by
  unfold targetsOf at htarget
  cases htype : p.type with
  | scalar type => simp [Param.isComposite, htype] at h
  | composite fields =>
    simp only [htype] at htarget
    obtain ⟨f, -, hmap⟩ := List.mem_filterMap.1 htarget
    obtain ⟨column, -, rfl⟩ := Option.map_eq_some_iff.1 hmap
    exact ⟨f.name, rfl⟩
  | entity =>
    simp only [htype] at htarget
    obtain ⟨column, -, rfl⟩ := List.mem_map.1 htarget
    exact ⟨column.field, rfl⟩

/-- An insert stores columns: their names, the bindings and the placeholders go together place by place. -/
structure Stores (d : Dialect) (t : Table) (op : Operation) (compiled : CompiledOperation) (columns : List Column) :
    Prop where
  sql : compiled.statement.sql = insertText d t.objectName (columns.map Column.name)
  names : compiled.statement.bindings.map (·.column) = columns.map fun column => some column.name
  increasing : ∃ position : ℕ → ℕ, StrictMono position ∧
    ∀ i : ℕ, columns[i]? = t.columns.toList[position i]?
  mem_iff : ∀ column ∈ t.columns.toList, column ∈ columns ↔
    column.isGenerated = true ∨ ∃ p ∈ op.params, ∃ target ∈ targetsOf t p, target.column = column
  steps : (compiled.prelude.map PreludeStep.name).Nodup
  stored : ∀ (i : ℕ) (column : Column), columns[i]? = some column →
    ∃ (value : Value) (binding : Binding), compiled.statement.bindings[i]? = some binding ∧
      binding.Encodes compiled.prelude (Target.slot ⟨column, value⟩) ∧ value.StoredIn t op compiled.prelude column
  defaults : columns = [] →
    compiled.statement = ⟨"INSERT INTO " ++ d.qualify t.objectName ++ " DEFAULT VALUES", []⟩
  batch : op.kind = .batchInsert → ∃ p, op.params = [p] ∧ compiled.batch = some p.name ∧
    ∀ b ∈ compiled.statement.bindings, (∃ name, b.value = .computed name) ∨ ∃ path, b.value = .field p.name path

theorem Planned.batch_eq {p : Plan} (h : Planned t op p) (hkind : op.kind = .batchInsert) :
    ∃ only, op.params = [only] ∧ only.isComposite = true ∧ p.batch = some only.name := by
  cases h with
  | insert _ _ hbatch => exact (exists_batchParam hkind).1 hbatch
  | update hupdate | delete hupdate => simp [hkind] at hupdate
  | count hcount => simp [hkind] at hcount
  | select hselect => simp [hkind, OperationKind.isSelect] at hselect

/-- The values of a batch are computed, or fields of its only parameter. -/
theorem computed_or_field {only : Param} (hparams : op.params = [only]) (hcomposite : only.isComposite = true)
    {target : Target} (h : target ∈ storedTargets t op) :
    (∃ name, target.value = .computed name) ∨ ∃ path, target.value = .field only.name path := by
  obtain ⟨i, generator, -, -, hvalue⟩ | ⟨p, hp, htarget⟩ := value_insertValues h
  · exact .inl ⟨_, hvalue⟩
  · rw [hparams, List.mem_singleton] at hp
    obtain ⟨path, hpath⟩ := field_of_composite (hp ▸ hcomposite) htarget
    exact .inr ⟨path, by rw [hpath, hp]⟩

theorem Planned.compile_insert {p : Plan} (h : Planned t op p) (hkind : op.kind.isInsert = true) (d : Dialect) :
    (p.compile d op).statement = ⟨(insertOf t.objectName (storedTargets t op)).sql d,
        (bindAll [] (insertOf t.objectName (storedTargets t op)).slots).2⟩ ∧
      (p.compile d op).prelude =
        generatedIds t ++ enumSteps (bindAll [] (insertOf t.objectName (storedTargets t op)).slots).1 := by
  obtain ⟨-, -, -, -, hstatement, hfollow, hgenerated, -⟩ := h.eq_insert hkind
  rw [Plan.compile, hstatement, hfollow, hgenerated]
  exact ⟨rfl, rfl⟩

/-- An insert stores the generated columns and those that its parameters have targets for, in physical order. -/
theorem stores_of_compile {compiled : CompiledOperation} (hnames : (columnNames t).Nodup)
    (h : op.compile d t = .ok compiled) (hkind : op.kind.isInsert = true) :
    ∃ columns, Stores d t op compiled columns := by
  obtain ⟨p, hplan, rfl⟩ := compile_eq_ok.1 h
  have hp := planned_of_plan hplan
  obtain ⟨hstatement, hprelude⟩ := hp.compile_insert hkind d
  refine ⟨(storedTargets t op).map (·.column), ?_⟩
  constructor
  case sql =>
    rw [hstatement, sql_insertOf, List.map_map]
    rfl
  case names =>
    rw [hstatement, columns_insertOf, List.map_map]
    rfl
  case increasing =>
    obtain ⟨position, hposition⟩ := List.sublist_iff_exists_orderEmbedding_getElem?_eq.1 (sublist_storedTargets t op)
    exact ⟨position, position.strictMono, hposition⟩
  case mem_iff => exact fun column hcolumn => mem_columns_storedTargets hnames hcolumn
  case steps => exact hprelude ▸ nodup_names_prelude
  case stored =>
    intro i column hcolumn
    rw [List.getElem?_map] at hcolumn
    obtain ⟨target, htarget, rfl⟩ := Option.map_eq_some_iff.1 hcolumn
    obtain ⟨binding, hbinding, hencodes⟩ := encodes_insertOf t.objectName (storedTargets t op) htarget
    rw [hstatement, hprelude]
    exact ⟨target.value, binding, hbinding, hencodes.mono fun step hstep => List.mem_append_right _ hstep,
      storedIn_of_mem hnames _ (List.mem_of_getElem? htarget)⟩
  case defaults =>
    intro hnil
    rw [hstatement, List.map_eq_nil_iff.1 hnil, sql_insertOf]
    rfl
  case batch =>
    intro hbatch
    obtain ⟨only, hparams, hcomposite, hname⟩ := hp.batch_eq hbatch
    refine ⟨only, hparams, hname, fun b hb => ?_⟩
    rw [hstatement] at hb
    obtain ⟨s, hs, hencodes⟩ := exists_of_forall₂ (forall₂_encodes List.prefix_rfl) hb
    rw [slots_insertOf] at hs
    obtain ⟨target, htarget, rfl⟩ := List.mem_map.1 hs
    by_cases htype : some target.column.type = some ⟨.enum, true⟩
    · obtain ⟨name, nullable, hvalue, -⟩ := hencodes.mapped htype
      exact .inl ⟨name, hvalue⟩
    · rw [hencodes.plain htype]
      exact computed_or_field hparams hcomposite htarget

/-- An insert with two parameters for one column and a value for a generated one. -/
def register : Operation where
  name := "register"
  kind := .insert
  returns := .void
  params := [
    { Param.scalar "alias" .string with targets := ["name", "name"] }, Param.scalar "id" .long,
    Param.array "badges" .enum, Param.scalar "name" .string]

/-- The id is minted although one is given, and the first name that is given is stored. -/
def registered : CompiledStatement where
  sql := "INSERT INTO \"USERS\" (\"ID\", \"BADGES\", \"NAME\") VALUES ($1, $2, $3)"
  bindings := [
    ⟨.computed "id0", some "ID", .plain⟩, ⟨.computed "var0", some "BADGES", .sqlArray⟩,
    ⟨.param "alias", some "NAME", .plain⟩]

set_option maxRecDepth 4000 in
theorem register_stores : (columnNames badges).Nodup ∧ register.kind.isInsert = true ∧ ∃ compiled columns,
    Operation.compile .postgres badges register = .ok compiled ∧ Stores .postgres badges register compiled columns ∧
      compiled.statement = registered := by
  have hnames : (columnNames badges).Nodup := by decide
  have hstatement : (Operation.compile .postgres badges register).toOption.map CompiledOperation.statement =
      some registered := by
    cbv
  obtain ⟨compiled, h, hstatement⟩ := exists_ok_of_toOption hstatement
  obtain ⟨columns, hstores⟩ := stores_of_compile hnames h rfl
  exact ⟨hnames, rfl, compiled, columns, h, hstores, hstatement⟩

end EntitySql.Query
