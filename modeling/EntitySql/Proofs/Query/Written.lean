import EntitySql.Proofs.Query.Built

/-! Operations as they are written and operations as they are planned, kind by kind. Main statement: an operation is
compiled to its plan, whose pieces are rendered and whose slots are bound one after another; it fails as its plan fails. -/
namespace EntitySql
namespace Query
open Fragment (Raw)
variable {d : Dialect} {t : Table} {op : Operation} {params : List BoundParam} {α β : Type}

section
variable {x : Build α} {b : Builder}

theorem stage_nil : { dialect := d } = stage d [] [] [] := rfl

/-- A check leaves the builder as it is. -/
theorem run'_check {x : Except CompileError α} {f : α → Build β} :
    ((liftM x : Build α) >>= f).run' b = x >>= fun a => (f a).run' b := by
  cases x <;> rfl

theorem run'_bind {f : α → Build β} : (x >>= f).run' b = x.run b >>= fun r => (f r.1).run' r.2 := by
  change Prod.fst <$> (x.run b >>= fun r => (f r.1).run r.2) = _
  cases x.run b <;> rfl

/-- The operation of one statement, once its parts have been written. -/
theorem run_compiledOf {s : Statement} {a : ℕ → α} (hx : Builds d x s.slots a) {f : α → String}
    (hf : f (a 1) = s.sql d) (result : ResultMapping) (row : α → RowShape) :
    (x >>= fun r => compiledOf op (f r) result (row r)).run { dialect := d } =
      .ok (Plan.compile { statement := s, result, row := row (a 1) } d op,
        stage d [] (bindAll [] s.slots).1 (bindAll [] s.slots).2) := by
  rw [StateT.run_bind, stage_nil, hx [] [] []]
  change (compiledOf op (f (a 1)) result (row (a 1))).run _ = _
  rw [hf]
  rfl

theorem run'_compiledOf {s : Statement} {a : ℕ → α} (hx : Builds d x s.slots a) {f : α → String}
    (hf : f (a 1) = s.sql d) (result : ResultMapping) (row : α → RowShape) :
    (x >>= fun r => compiledOf op (f r) result (row r)).run' { dialect := d } =
      .ok (Plan.compile { statement := s, result, row := row (a 1) } d op) := by
  rw [StateT.run'_eq, run_compiledOf hx hf]
  rfl

end

/-! ### Inserts -/

theorem addStep_stage (generated : List PreludeStep) (step : PreludeStep) :
    (stage d generated [] []).addStep step = stage d (generated ++ [step]) [] [] := by
  simp [stage, Builder.addStep, enumSteps]

/-- The ids of the generated columns are minted one after another. -/
theorem run_mintIds (generated : List PreludeStep) (entries : List (Column × ℕ)) :
    (mintIds entries).run (stage d generated [] []) =
      .ok (entries.filterMap fun (column, i) => column.generator.map fun _ => (i, ⟨column, .computed (idLocal i)⟩),
        stage d (generated ++ entries.filterMap fun (column, i) =>
          column.generator.map fun generator => .generateId (idLocal i) generator column.name) [] []) := by
  induction entries generalizing generated with
  | nil => simp [mintIds]; rfl
  | cons entry entries ih =>
    obtain ⟨column, i⟩ := entry
    cases hgenerator : column.generator with
    | none =>
      simp only [mintIds, hgenerator, List.filterMap_cons, Option.map_none]
      exact ih generated
    | some generator =>
      have hrest := ih (generated ++ [.generateId (idLocal i) generator column.name])
      rw [List.append_assoc, List.singleton_append] at hrest
      simp only [mintIds, hgenerator, StateT.run_bind, StateT.run_modify, addStep_stage, List.filterMap_cons,
        Option.map_some]
      change ((mintIds entries).run _ >>= _) = _
      rw [hrest]
      rfl

theorem writes_insert (values : List Target) :
    Writes d (writeInsert d t values)
      (Statement.insert t.objectName (values.map fun target => (target.column.name, target.slot))).pieces := by
  unfold writeInsert
  split
  · next hempty =>
    rw [List.isEmpty_iff.1 hempty]
    refine (builds_pure _).congr rfl fun index => ?_
    simp [Statement.pieces, renderFrom, tableName, String.append_assoc]
  · next hsome =>
    have hslots : WritesEach d (values.mapM fun target => modifyGet (·.bindColumn target.column target.value))
        (values.map fun target => [.slot target.slot]) :=
      writesEach_mapM fun target _ => (builds_bindColumn target).congr rfl fun index => by simp [renderFrom]
    have hpieces : (Statement.insert t.objectName (values.map fun target => (target.column.name, target.slot))).pieces =
        [.text "INSERT INTO ", .object t.objectName, .text " ("] ++
          separated ", " (values.map fun target => [.name target.column.name]) ++ [.text ") VALUES ("] ++
          separated ", " (values.map fun target => [.slot target.slot]) ++ [.text ")"] := by
      cases values with
      | nil => simp at hsome
      | cons target values => simp [Statement.pieces, Function.comp_def]
    have hnames : slots (separated ", " (values.map fun target => [.name target.column.name])) = [] := by
      simp [List.flatMap_map]
    refine (hslots.map fun placeholders => "INSERT INTO " ++ tableName d t ++ " (" ++
      ", ".intercalate (values.map fun target => quoteName target.column.name) ++ ") VALUES (" ++
      ", ".intercalate placeholders ++ ")").congr ?_ fun index => ?_
    · simp [hpieces, hnames, List.flatMap_map]
    · rw [hpieces]
      simp only [renderFrom_append, renderFrom_separated, renderEach_names, slots_append, hnames]
      simp [renderFrom, tableName, String.append_assoc]

theorem run'_storeValues {generated : List PreludeStep} {batch : Option String} {values : List Target} :
    (storeValues d t op batch values).run' (stage d generated [] []) =
      (insertResult t op batch.isSome values).map fun shaped => Plan.compile {
        statement := .insert t.objectName (values.map fun target => (target.column.name, target.slot))
        generated, batch, result := shaped.1, row := shaped.2 } d op := by
  rw [storeValues, run'_bind, writes_insert]
  change StateT.run' ((liftM (insertResult t op batch.isSome values) : Build _) >>= _) _ = _
  rw [run'_check]
  cases insertResult t op batch.isSome values with
  | error e => rfl
  | ok shaped => rfl

theorem compileInsert_eq (hcolumns : ∀ target ∈ params.flatMap (·.targets), target.column ∈ t.columns.toList) :
    (compileInsert d t op params).run' { dialect := d } = (planInsert t op params).map (·.compile d op) := by
  unfold compileInsert planInsert
  rw [run'_check]
  cases checkEntityAlone op with
  | error e => rfl
  | ok _ =>
    change StateT.run' ((liftM (batchParam t op) : Build _) >>= _) _ = _
    rw [run'_check]
    cases batchParam t op with
    | error e => rfl
    | ok batch =>
      change StateT.run' (mintIds t.columns.toList.zipIdx >>= _) _ = _
      rw [run'_bind, stage_nil, run_mintIds, List.nil_append]
      change (storeValues d t op batch (sortedValues t (mintedValues t) params)).run' (stage d (generatedIds t) [] []) = _
      rw [sortedValues_eq hcolumns, run'_storeValues]
      change _ = Except.map _ (insertResult t op batch.isSome (insertValues t params) >>= _)
      cases insertResult t op batch.isSome (insertValues t params) with
      | error e => rfl
      | ok shaped => rfl

/-! ### Selects -/

theorem column_of_checkOrdering (h : checkOrdering t op = .ok ()) {key : SortKey} (hkey : key ∈ op.orderBy) :
    ∃ column, t.column? key.field = some column := by
  unfold checkOrdering at h
  split at h
  · cases h
  · next hfind =>
    have hsome := List.find?_eq_none.1 hfind key hkey
    exact Option.ne_none_iff_exists'.1 (by simpa using hsome)

theorem renderFrom_orderPieces (keys : List (String × Direction)) :
    renderFrom d 1 (orderPieces keys) = if keys.isEmpty then "" else
      " ORDER BY " ++ ", ".intercalate (keys.map fun key => quoteName key.1 ++ " " ++ key.2.sql) := by
  have heach : ∀ index, renderEach d index (keys.map fun key => [.name key.1, .text (" " ++ key.2.sql)]) =
      keys.map fun key => quoteName key.1 ++ " " ++ key.2.sql := by
    induction keys with
    | nil => exact fun _ => rfl
    | cons key keys ih => simp [renderEach, renderFrom, ih, String.append_assoc]
  cases keys with
  | nil => rfl
  | cons key keys =>
    rw [orderPieces, renderFrom, renderFrom_separated]
    · exact congrArg (fun texts => " ORDER BY " ++ ", ".intercalate texts) (heach 1)
    · exact List.cons_ne_nil _ _

/-- A select that orders its rows orders them by columns, as was checked. -/
theorem orderClause_eq (h : checkOrdering t op = .ok ()) :
    orderClause t op = .ok (renderFrom d 1 (orderPieces (orderColumns t op))) := by
  have htexts : ∀ keys : List SortKey, (∀ key ∈ keys, ∃ column, t.column? key.field = some column) →
      keys.mapM (orderText t op) = .ok ((keys.filterMap fun key =>
        (t.column? key.field).map fun column => (column.name, key.direction)).map
          fun key => quoteName key.1 ++ " " ++ key.2.sql) := by
    intro keys
    induction keys with
    | nil => exact fun _ => rfl
    | cons key keys ih =>
      intro hkeys
      obtain ⟨⟨column, hcolumn⟩, hkeys⟩ := List.forall_mem_cons.1 hkeys
      rw [List.mapM_cons, orderText, hcolumn, ih hkeys, List.filterMap_cons, hcolumn]
      rfl
  have hkeys := htexts op.orderBy fun key hkey => column_of_checkOrdering h hkey
  rw [renderFrom_orderPieces]
  unfold orderClause orderColumns
  cases horder : op.orderBy with
  | nil => rfl
  | cons key keys =>
    obtain ⟨column, hcolumn⟩ := column_of_checkOrdering h (horder ▸ List.mem_cons_self)
    rw [horder] at hkeys
    rw [hkeys, List.filterMap_cons, hcolumn]
    rfl

theorem limitClause_eq : limitClause op = renderFrom d 1 (limitPieces op.limit) := by
  unfold limitClause
  cases op.limit with
  | none => rfl
  | some limit => simp [limitPieces, renderFrom]

theorem renderFrom_columns (index : ℕ) (names : List String) :
    renderFrom d index (Selection.columns names).pieces = ", ".intercalate (names.map quoteName) := by
  rw [Selection.pieces, renderFrom_separated, renderEach_names]

theorem selectAll_eq : selectAll t = ", ".intercalate ((columnNames t).map quoteName) := by
  rw [selectAll, columnNames, List.map_map, Function.comp_def]

/-- What a select returns is written as it is planned, or fails as planned. -/
theorem writeSelection_cases (hknown : ∀ name ∈ rawNames op, (op.param? name).isSome) :
    (∃ selection row, selectionOf t op = .ok (selection, row) ∧
      Builds d (writeSelection t op) (slots selection.pieces) fun index => (renderFrom d index selection.pieces, row)) ∨
    ∃ e, selectionOf t op = .error e ∧ writeSelection t op = throw e := by
  have hcolumns : ∀ names (row : RowShape),
      Builds d (pure (", ".intercalate (names.map quoteName), row)) (slots (Selection.columns names).pieces)
        fun index => (renderFrom d index (Selection.columns names).pieces, row) := by
    intro names row
    exact (builds_pure _).congr (Selection.slots_columns names).symm fun index => by rw [renderFrom_columns]
  unfold selectionOf writeSelection
  cases hkind : op.kind with
  | selectColumn =>
    cases op.returnColumn with
    | none => exact .inr ⟨_, rfl, rfl⟩
    | some field =>
      dsimp only
      cases t.column? field with
      | none => exact .inr ⟨_, rfl, rfl⟩
      | some column => exact .inl ⟨_, _, rfl, hcolumns [column.name] (.column column.name column.type)⟩
  | selectRawExpression =>
    dsimp only
    cases hraw : rawExpression? op with
    | none => exact .inr ⟨_, rfl, rfl⟩
    | some raw =>
      have hwrites := @writes_raw d t op raw.segments fun name path hmem => hknown name (name_mem_rawNames (.inl hraw) hmem)
      exact .inl ⟨_, _, rfl, hwrites.map (·, RowShape.expression)⟩
  | _ =>
    rw [selectAll_eq]
    exact .inl ⟨_, _, rfl, hcolumns _ _⟩

/-- The text of a select, part by part. -/
theorem sql_select (selection : Selection) (filter : Filter) (order : List (String × Direction)) (limit : Option UInt64) :
    (Statement.select t.objectName selection filter order limit).sql d =
      "SELECT " ++ renderFrom d 1 selection.pieces ++ " FROM " ++ tableName d t ++
        renderFrom d (1 + (slots selection.pieces).length) filter.pieces ++ renderFrom d 1 (orderPieces order) ++
          renderFrom d 1 (limitPieces limit) := by
  simp only [Statement.sql, render, Statement.pieces, List.cons_append, renderFrom, renderFrom_append,
    renderFrom_of_slots_nil (slots_orderPieces order) (1 + _), renderFrom_of_slots_nil (slots_limitPieces limit) (1 + _)]
  simp [tableName, String.append_assoc]

theorem compileSelect_eq (hknown : ∀ name ∈ rawNames op, (op.param? name).isSome)
    (hordering : checkOrdering t op = .ok ()) :
    (compileSelect d t op params).run' { dialect := d } = (planSelect t op params).map (·.compile d op) := by
  unfold compileSelect planSelect
  rw [run'_check]
  cases selectResult t op with
  | error e => rfl
  | ok result =>
    obtain ⟨selection, row, hselection, hwrites⟩ | ⟨e, hselection, hthrow⟩ := @writeSelection_cases d t op hknown
    · have hboth := hwrites.both (@writes_fullFilter d t op params hknown) Prod.mk
      have hbuilds := hboth.congr (Statement.slots_select t.objectName selection (fullFilter t op params)
        (orderColumns t op) op.limit).symm fun _ => rfl
      have hrun := @run'_compiledOf d op _ _ _ _ hbuilds
        (fun written => "SELECT " ++ written.1.1 ++ " FROM " ++ tableName d t ++ written.2 ++
          renderFrom d 1 (orderPieces (orderColumns t op)) ++ renderFrom d 1 (limitPieces op.limit))
        (sql_select _ _ _ _).symm result fun written => written.1.2
      simp only [bind_assoc, pure_bind] at hrun
      rw [orderClause_eq hordering, limitClause_eq, hselection]
      exact hrun
    · rw [hselection, hthrow]
      rfl

/-! ### Other statements -/

section
variable (hknown : ∀ name ∈ rawNames op, (op.param? name).isSome)
include hknown

theorem compileDelete_eq :
    (compileDelete d t op params).run' { dialect := d } = (planDelete t op params).map (·.compile d op) := by
  have hwrites := (@writes_fullFilter d t op params hknown).congr
    (Statement.slots_delete t.objectName (fullFilter t op params)).symm fun _ => rfl
  have hsql : "DELETE FROM " ++ tableName d t ++ renderFrom d 1 (fullFilter t op params).pieces =
      (Statement.delete t.objectName (fullFilter t op params)).sql d := by
    simp [Statement.sql, render, Statement.pieces, renderFrom, tableName, String.append_assoc]
  unfold compileDelete planDelete
  rw [run'_check]
  cases deleteResult t op with
  | error e => rfl
  | ok result => exact run'_compiledOf hwrites hsql result fun _ => .none

theorem compileCount_eq :
    (compileCount d t op params).run' { dialect := d } = (planCount t op params).map (·.compile d op) := by
  have hwrites := (@writes_fullFilter d t op params hknown).congr
    (Statement.slots_count t.objectName (fullFilter t op params)).symm fun _ => rfl
  have hsql : "SELECT COUNT(*) FROM " ++ tableName d t ++ renderFrom d 1 (fullFilter t op params).pieces =
      (Statement.count t.objectName (fullFilter t op params)).sql d := by
    simp [Statement.sql, render, Statement.pieces, renderFrom, tableName, String.append_assoc]
  unfold compileCount planCount
  rw [run'_check]
  cases countResult t op with
  | error e => rfl
  | ok result => exact run'_compiledOf hwrites hsql result fun _ => .none

end

/-! ### Updates -/

/-- The pieces that assign a value to a column. -/
def assignment (target : Target) : List Piece :=
  [.name target.column.name, .text " = ", .slot target.slot]

theorem writesEach_assignments (params : List BoundParam) :
    WritesEach d (gather writeAssignments params) ((assignedTargets params).map assignment) := by
  rw [assignedTargets, List.map_flatMap]
  refine writesEach_gather fun p _ => writesEach_mapM fun target _ => ?_
  have hplaceholder := (@builds_bindColumn d target).map (quoteName target.column.name ++ " = " ++ ·)
  exact hplaceholder.congr rfl fun index => by simp [assignment, renderFrom, String.append_assoc]

theorem writes_update (hknown : ∀ name ∈ rawNames op, (op.param? name).isSome)
    (hassigned : assignedTargets (valueParams params) ≠ []) :
    Writes d (writeUpdate d t op params) (Statement.update t.objectName
      ((assignedTargets (valueParams params)).map fun target => (target.column.name, target.slot))
      (fullFilter t op (filterParams params))).pieces := by
  have hassignments := @writesEach_assignments d (valueParams params)
  have hclause := @writes_fullFilter d t op (filterParams params) hknown
  generalize assignedTargets (valueParams params) = assigned at hassigned hassignments ⊢
  let text := fun index clause => "UPDATE " ++ tableName d t ++ " SET " ++
    ", ".intercalate (renderEach d index (assigned.map assignment)) ++ clause
  have hsome : ∀ index, (renderEach d index (assigned.map assignment)).isEmpty = false := by
    intro index
    cases assigned with
    | nil => exact absurd rfl hassigned
    | cons target assigned => rfl
  have hwritten := hassignments.bind
    (f := fun assignments => if assignments.isEmpty then throw (.emptyUpdate t.qualifiedName op.name) else do
      let clause ← writeWhere d t op (filterParams params) (parsedPredicate? op)
      return "UPDATE " ++ tableName d t ++ " SET " ++ ", ".intercalate assignments ++ clause)
    (b := fun index next => text index (renderFrom d next (fullFilter t op (filterParams params)).pieces))
    fun index => by
      rw [hsome index]
      exact hclause.map (text index)
  have hpieces : (Statement.update t.objectName (assigned.map fun target => (target.column.name, target.slot))
      (fullFilter t op (filterParams params))).pieces =
        [.text "UPDATE ", .object t.objectName, .text " SET "] ++ separated ", " (assigned.map assignment) ++
          (fullFilter t op (filterParams params)).pieces := by
    rw [Statement.pieces, List.map_map]
    rfl
  rw [hpieces]
  refine hwritten.congr ?_ fun index => ?_
  · simp
  · simp only [renderFrom_append, renderFrom_separated, slots_append, slots_separated]
    simp [text, renderFrom, tableName, String.append_assoc]

theorem writeUpdate_eq_error (hassigned : assignedTargets (valueParams params) = []) :
    (writeUpdate d t op params).run { dialect := d } = .error (.emptyUpdate t.qualifiedName op.name) := by
  have hassignments := @writesEach_assignments d (valueParams params) [] [] []
  rw [writeUpdate, stage_nil, StateT.run_bind, hassignments, hassigned]
  rfl

/-- The select after an update is bound on its own, but the steps go on. -/
theorem run_writeFollowUp {generated : List PreludeStep} {arrays : EnumArrays} {bindings : List Binding} :
    (writeFollowUp d t op params).run (stage d generated arrays bindings) = (updateResult t op params).map
      fun planned =>
        let bound := bindAll arrays ((planned.2.1.map Statement.slots).getD [])
        ((planned.1, planned.2.1.map fun s => ⟨s.sql d, bound.2⟩, planned.2.2),
          stage d generated bound.1 (if planned.2.1.isSome then bound.2 else bindings)) := by
  unfold writeFollowUp updateResult
  cases op.returns with
  | void => rfl
  | int => rfl
  | bool => rfl
  | many => rfl
  | one =>
    have hclause := @writes_paramFilter d t op (filterParams params) generated arrays []
    have hslots : (reselect t params).slots = slots (paramFilter (filterParams params)).pieces := by
      rw [reselect, Statement.slots_select, Selection.slots_columns, List.nil_append]
    have hsql : (reselect t params).sql d = "SELECT " ++ selectAll t ++ " FROM " ++ tableName d t ++
        renderFrom d 1 (paramFilter (filterParams params)).pieces := by
      rw [reselect, sql_select, renderFrom_columns, ← selectAll_eq, Selection.slots_columns]
      simp [orderPieces, limitPieces, renderFrom]
    change ((writeWhere d t op (filterParams params) none).run (stage d generated arrays []) >>= _) =
      Except.ok ((ResultMapping.reselectIfUpdated,
          some (⟨(reselect t params).sql d, (bindAll arrays (reselect t params).slots).2⟩ : CompiledStatement),
          RowShape.entity (columnNames t)),
        stage d generated (bindAll arrays (reselect t params).slots).1 (bindAll arrays (reselect t params).slots).2)
    rw [hclause, hslots, hsql]
    rfl

theorem compileUpdate_eq (hknown : ∀ name ∈ rawNames op, (op.param? name).isSome) :
    (compileUpdate d t op params).run' { dialect := d } = (planUpdate t op params).map (·.compile d op) := by
  unfold compileUpdate planUpdate
  rw [run'_check]
  cases checkSingleColumns op (valueParams params) with
  | error e => rfl
  | ok _ =>
    change StateT.run' (writeUpdate d t op params >>= fun sql => compiledOf op sql .discard .none >>= _) _ =
      Except.map _ (if _ then _ else _)
    by_cases hassigned : assignedTargets (valueParams params) = []
    · rw [run'_bind, writeUpdate_eq_error hassigned, hassigned]
      rfl
    · have hsome : (assignedTargets (valueParams params)).isEmpty = false := by simpa using hassigned
      have hrun := @run_compiledOf d op _ _ _ _ (@writes_update d t op params hknown hassigned) (fun sql => sql) rfl
        .discard fun _ => .none
      rw [← bind_assoc, run'_bind, hrun, hsome]
      change StateT.run' (writeFollowUp d t op params >>= _) _ = _
      rw [run'_bind, run_writeFollowUp]
      cases updateResult t op params with
      | error e => rfl
      | ok planned => rfl

/-! ### Operations -/

/-- Where the parameters resolve, raw SQL names parameters only and rows are ordered by columns; what comes later need
not look again. -/
theorem checked_of_resolveParams (h : resolveParams t op = .ok params) :
    checkOrdering t op = .ok () ∧ ∀ name ∈ rawNames op, (op.param? name).isSome := by
  obtain ⟨_, hordering, h⟩ := bind_eq_ok.1 h
  obtain ⟨_, hnames, -⟩ := bind_eq_ok.1 h
  refine ⟨hordering, fun name hname => ?_⟩
  unfold checkRawNames at hnames
  split at hnames
  · cases hnames
  · next hfind =>
    have hsome := List.find?_eq_none.1 hfind name hname
    exact Option.isSome_iff_ne_none.2 (by simpa using hsome)

theorem compileBound_eq (h : resolveParams t op = .ok params) :
    (compileBound d t op params).run' { dialect := d } = (planBound t op params).map (·.compile d op) := by
  obtain ⟨hordering, hknown⟩ := checked_of_resolveParams h
  obtain ⟨rfl, -⟩ := eq_of_resolveParams h
  have hcolumns : ∀ target ∈ (boundParams t op).flatMap (·.targets), target.column ∈ t.columns.toList := by
    intro target htarget
    obtain ⟨b, hb, hmem⟩ := List.mem_flatMap.1 htarget
    obtain ⟨p, -, rfl⟩ := List.mem_map.1 hb
    exact (mem_targetsOf hmem).1
  unfold compileBound planBound
  cases op.kind with
  | insert | batchInsert => exact compileInsert_eq hcolumns
  | update => exact compileUpdate_eq hknown
  | delete => exact compileDelete_eq hknown
  | count | «exists» => exact compileCount_eq hknown
  | selectEntity | selectColumn | selectRawExpression => exact compileSelect_eq hknown hordering

end Query
open Query

/-- Operations are compiled to what their plans amount to. -/
theorem Operation.compile_eq (d : Dialect) (t : Table) (op : Operation) :
    op.compile d t = (plan t op).map (·.compile d op) := by
  unfold Operation.compile plan
  cases hparams : resolveParams t op with
  | error e => rfl
  | ok params => exact compileBound_eq hparams

end EntitySql
