import EntitySql.Proofs.Query.Acceptance
import EntitySql.Proofs.Query.Prelude
import EntitySql.Proofs.Query.Slots

/-! An insert that returns its row returns what it stores. The row is told without asking the database: its values,
the bindings, the steps and the text of the statement come from four traversals of the columns. Main statement: at
every position they speak of the same column and of the same value. -/
namespace EntitySql.Query
variable {d : Dialect} {t : Table} {op : Operation}

/-- The text of an insert into columns of these names: the placeholder of a column has the number of its place. -/
def insertText (d : Dialect) (table : ObjectName) : List String → String
  | [] => "INSERT INTO " ++ d.qualify table ++ " DEFAULT VALUES"
  | names =>
    "INSERT INTO " ++ d.qualify table ++ " (" ++ ", ".intercalate (names.map quoteName) ++ ") VALUES (" ++
      ", ".intercalate ((List.range' 1 names.length).map d.placeholder) ++ ")"

theorem sql_insert (table : ObjectName) (values : List (String × Slot)) :
    (Statement.insert table values).sql d = insertText d table (values.map (·.1)) := by
  obtain rfl | hvalues := eq_or_ne values []
  · simp [Statement.sql, Statement.pieces, render, renderFrom, insertText, String.append_assoc]
  · have hpieces : (Statement.insert table values).pieces =
        [Piece.text "INSERT INTO ", .object table, .text " ("] ++
          separated ", " (values.map fun value => [.name value.1]) ++ [Piece.text ") VALUES ("] ++
          separated ", " (values.map fun value => [.slot value.2]) ++ [Piece.text ")"] := by
      cases values with
      | nil => exact absurd rfl hvalues
      | cons value values => rfl
    have htext : insertText d table (values.map (·.1)) =
        "INSERT INTO " ++ d.qualify table ++ " (" ++ ", ".intercalate (values.map fun value => quoteName value.1) ++
          ") VALUES (" ++ ", ".intercalate ((List.range' 1 values.length).map d.placeholder) ++ ")" := by
      cases values with
      | nil => exact absurd rfl hvalues
      | cons value values => simp [insertText, Function.comp_def]
    have hnames : slots (separated ", " (values.map fun value => [.name value.1])) = [] := by
      simp [List.flatMap_map]
    rw [Statement.sql, render, hpieces, htext]
    simp only [renderFrom_append, renderFrom_separated, renderEach_names, renderEach_slots, slots_append, hnames]
    simp [renderFrom, String.append_assoc]

section
variable (table : ObjectName) (rows : List Target)

/-- The insert of the columns of targets, with their values. -/
abbrev insertOf : Statement :=
  .insert table (rows.map fun target => (target.column.name, target.slot))

theorem sql_insertOf :
    (insertOf table rows).sql d = insertText d table (rows.map fun target => target.column.name) := by
  rw [sql_insert, List.map_map]
  rfl

theorem slots_insertOf : (insertOf table rows).slots = rows.map Target.slot := by
  rw [Statement.slots_insert, List.map_map]
  rfl

theorem columns_insertOf :
    (bindAll [] (insertOf table rows).slots).2.map (·.column) = rows.map fun target => some target.column.name := by
  rw [columns_bindAll, slots_insertOf, List.map_map]
  rfl

theorem encodes_insertOf {i : Nat} {target : Target} (h : rows[i]? = some target) :
    ∃ b, (bindAll [] (insertOf table rows).slots).2[i]? = some b ∧
      b.Encodes (enumSteps (bindAll [] (insertOf table rows).slots).1) target.slot := by
  refine encodes_bindAll List.prefix_rfl ?_
  rw [slots_insertOf, List.getElem?_map, h]
  rfl

end

theorem find?_eq_some_of_unique {α : Type} {p : α → Bool} {xs : List α} {x : α} (hx : x ∈ xs) (hp : p x = true)
    (hunique : ∀ y ∈ xs, p y = true → y = x) : xs.find? p = some x := by
  obtain ⟨y, hy⟩ := Option.isSome_iff_exists.1 (List.find?_isSome.2 ⟨x, hx, hp⟩)
  rw [hy, hunique y (List.mem_of_find?_eq_some hy) (List.find?_some hy)]

/-- The value that an insert of an entity stores into the column at a position: a minted id, or the field. -/
def storedValue (entity : String) (column : Column) (position : Nat) : Value :=
  if column.isGenerated then .computed (idLocal position) else .field entity column.field

section
variable (hnames : (columnNames t).Nodup) {p : Param}
include hnames

/-- Without two columns of one name, a column that is not generated gets the value of the first target that it has. -/
theorem insertTarget?_eq_find? {params : List BoundParam}
    (hparams : ∀ target ∈ params.flatMap (·.targets), target.column ∈ t.columns.toList) {column : Column}
    (hcolumn : column ∈ t.columns.toList) (hgiven : column.isGenerated = false) :
    insertTarget? t params column = (params.flatMap (·.targets)).find? (·.column = column) := by
  have hunique : ∀ other ∈ t.columns.toList, other.name = column.name → other = column :=
    fun other hother hname => List.inj_on_of_nodup_map hnames hother hcolumn hname
  have hany : (t.columns.toList.any fun other => other.isGenerated && other.name = column.name) = false := by
    rw [List.any_eq_false]
    intro other hother h
    simp only [Bool.and_eq_true, decide_eq_true_eq] at h
    rw [hunique other hother h.2, hgiven] at h
    cases h.1
  have hfind : (insertTargets params).find? (·.column.name = column.name) =
      (params.flatMap (·.targets)).find? (·.column = column) := by
    rw [insertTargets, List.find?_filter]
    refine List.find?_congr fun target htarget => ?_
    by_cases hsame : target.column = column
    · simp [hsame, hgiven]
    · simp [hsame, mt (hunique _ (hparams target htarget)) hsame]
  rw [insertTarget?, hany, hfind]
  cases hfirst : (params.flatMap (·.targets)).find? (·.column = column) with
  | none => rfl
  | some target =>
    have hsame : target.column = column := by simpa using List.find?_some hfirst
    simp [hsame]

theorem insertTarget?_entity (htype : p.type = .entity) {column : Column} (hcolumn : column ∈ t.columns.toList)
    (hgiven : column.isGenerated = false) :
    insertTarget? t [bound t p] column = some ⟨column, .field p.name column.field⟩ := by
  have htargets : [bound t p].flatMap (·.targets) =
      t.columns.toList.map fun column => ⟨column, .field p.name column.field⟩ := by
    simp [bound, targetsOf, htype]
  rw [insertTarget?_eq_find? hnames (by simp [htargets]) hcolumn hgiven, htargets]
  refine find?_eq_some_of_unique (List.mem_map_of_mem hcolumn) (by simp) fun target htarget hsame => ?_
  obtain ⟨other, -, rfl⟩ := List.mem_map.1 htarget
  obtain rfl : other = column := by simpa using hsame
  rfl

theorem insertValues_entity (htype : p.type = .entity) :
    insertValues t [bound t p] =
      t.columns.toList.zipIdx.map fun entry => ⟨entry.1, storedValue p.name entry.1 entry.2⟩ := by
  rw [insertValues, ← List.filterMap_eq_map]
  refine List.filterMap_congr ?_
  rintro ⟨column, i⟩ hentry
  have hcolumn : column ∈ t.columns.toList := List.fst_mem_of_mem_zipIdx hentry
  cases hgenerated : column.isGenerated with
  | true => simp [insertValue?, storedValue, hgenerated]
  | false => simp [insertValue?, storedValue, hgenerated, insertTarget?_entity hnames htype hcolumn hgenerated]

/-- If every column has its value, no echoed value is made up. -/
theorem echoedValues_eq {values : List Target} (hcolumns : values.map (·.column) = t.columns.toList)
    (entity : String) : echoedValues t values entity = values.map (·.value) := by
  rw [columnNames, ← hcolumns, List.map_map] at hnames
  rw [echoedValues, ← hcolumns, List.map_map]
  refine List.map_congr_left fun target htarget => ?_
  have hfind : values.find? (·.column.name = target.column.name) = some target :=
    find?_eq_some_of_unique htarget (by simp) fun other hother hname =>
      List.inj_on_of_nodup_map hnames hother htarget (by simpa using hname)
  simp [hfind]

end

theorem echo_of_insertResult (hreturns : op.returns = .one) {values : List Target} {result : ResultMapping}
    {row : RowShape} (h : insertResult t op false values = .ok (result, row)) :
    ∃ entity ∈ op.params, entity.type = .entity ∧ result = .echoInserted (echoedValues t values entity.name) ∧
      row = .entity (columnNames t) := by
  obtain ⟨hnot, -⟩ | ⟨-, hecho⟩ := insertResult_cases h
  · exact absurd hreturns hnot
  · exact hecho

/-- Where the value of a column comes from at an insert of an entity: from the only step that mints an id for the
column, or from the field of the entity. -/
structure Value.Supplies (value : Value) (steps : List PreludeStep) (entity : String) (column : Column) : Prop where
  minted : ∀ generator ∈ column.generator, ∃ name, value = .computed name ∧
    ∀ step, step ∈ steps ∧ step.minted? = some column.name ↔ step = .generateId name generator column.name
  given : column.generator = none → value = .field entity column.field

theorem supplies_storedValue (hnames : (columnNames t).Nodup) {i : Nat} {column : Column} (arrays : EnumArrays)
    (entity : String) (hcolumn : t.columns.toList[i]? = some column) :
    (storedValue entity column i).Supplies (generatedIds t ++ enumSteps arrays) entity column := by
  unfold storedValue Column.isGenerated
  refine ⟨fun generator hgenerator => ?_, fun hgiven => by simp [hgiven]⟩
  refine ⟨idLocal i, by simp [Option.mem_def.1 hgenerator], fun step => ?_⟩
  exact minted_unique hnames hcolumn hgenerator step

/-- The values are those of the row that the statement stores, one for each column in physical order. -/
structure ReturnsStored (d : Dialect) (t : Table) (entity : String) (values : List Value)
    (compiled : CompiledOperation) : Prop where
  result : compiled.result = .echoInserted values
  row : compiled.row = .entity (columnNames t)
  length : values.length = t.columns.toList.length
  sql : compiled.statement.sql = insertText d t.objectName (columnNames t)
  columns : compiled.statement.bindings.map (·.column) = (columnNames t).map some
  steps : (compiled.prelude.map PreludeStep.name).Nodup
  stored : ∀ (i : Nat) (column : Column), t.columns.toList[i]? = some column →
    ∃ (value : Value) (binding : Binding), values[i]? = some value ∧ compiled.statement.bindings[i]? = some binding ∧
      binding.Encodes compiled.prelude (Target.slot ⟨column, value⟩) ∧
      value.Supplies compiled.prelude entity column

/-- An insert of an entity that returns its row returns the row it stores. -/
theorem returnsStored_of_compile {compiled : CompiledOperation} (hnames : (columnNames t).Nodup)
    (h : op.compile d t = .ok compiled) (hkind : op.kind = .insert) (hreturns : op.returns = .one) :
    ∃ entity values, op.params = [entity] ∧ entity.type = .entity ∧
      ReturnsStored d t entity.name values compiled := by
  obtain ⟨plan, hplan, rfl⟩ := compile_eq_ok.1 h
  cases planned_of_plan hplan with
  | @insert _ batch result row halone hbatch hresult =>
    rw [batchParam, if_neg (by simp [hkind]), pure_eq_ok] at hbatch
    subst hbatch
    obtain ⟨entity, hmem, htype, rfl, rfl⟩ := echo_of_insertResult hreturns hresult
    have hparams : op.params = [entity] := checkEntityAlone_eq_ok.1 halone entity hmem htype
    have hrows : insertValues t (boundParams t op) =
        t.columns.toList.zipIdx.map fun entry => ⟨entry.1, storedValue entity.name entry.1 entry.2⟩ := by
      rw [boundParams, hparams]
      exact insertValues_entity hnames htype
    have hcolumns : (insertValues t (boundParams t op)).map (·.column) = t.columns.toList := by
      rw [hrows, List.map_map]
      exact List.zipIdx_map_fst 0 _
    have hrow : ∀ {i : Nat} {column : Column}, t.columns.toList[i]? = some column →
        (insertValues t (boundParams t op))[i]? = some ⟨column, storedValue entity.name column i⟩ := by
      intro i column hcolumn
      simp [hrows, hcolumn]
    generalize insertValues t (boundParams t op) = rows at hcolumns hrow
    have hechoed := echoedValues_eq hnames hcolumns entity.name
    refine ⟨entity, _, hparams, htype, ⟨rfl, rfl, ?_, ?_, ?_, nodup_names_prelude, ?_⟩⟩
    · rw [hechoed, List.length_map, ← hcolumns, List.length_map]
    · rw [columnNames, ← hcolumns, List.map_map]
      exact sql_insertOf t.objectName rows
    · rw [columnNames, ← hcolumns, List.map_map, List.map_map]
      exact columns_insertOf t.objectName rows
    · intro i column hcolumn
      obtain ⟨binding, hbinding, hencodes⟩ := encodes_insertOf t.objectName rows (hrow hcolumn)
      refine ⟨storedValue entity.name column i, binding, ?_, hbinding, ?_, supplies_storedValue hnames _ _ hcolumn⟩
      · rw [hechoed, List.getElem?_map, hrow hcolumn]
        rfl
      · exact hencodes.mono fun step hstep => List.mem_append_right _ hstep
  | update hupdate | delete hupdate => simp [hkind] at hupdate
  | count hcount => simp [hkind] at hcount
  | select hselect => simp [hkind, OperationKind.isSelect] at hselect

/-- A new user, whose id is minted and whose badges are stored by name. -/
def enroll : Operation where
  name := "enroll"
  kind := .insert
  returns := .one
  params := [Param.entity "user"]

set_option maxRecDepth 4000 in
theorem enroll_returnsStored : (columnNames badges).Nodup ∧ enroll.kind = .insert ∧ enroll.returns = .one ∧
    ∃ compiled values, Operation.compile .postgres badges enroll = .ok compiled ∧
      ReturnsStored .postgres badges "user" values compiled := by
  have hnames : (columnNames badges).Nodup := by decide
  have hok : (Operation.compile .postgres badges enroll).toBool = true := by cbv
  obtain ⟨compiled, h⟩ := exists_ok_of_toBool hok
  obtain ⟨entity, values, hparams, -, hstored⟩ := returnsStored_of_compile hnames h rfl rfl
  obtain rfl : Param.entity "user" = entity := by simpa [enroll] using hparams
  exact ⟨hnames, rfl, rfl, compiled, values, h, hstored⟩

end EntitySql.Query
