import EntitySql.Proofs.Failure
import EntitySql.Proofs.Link.Cycle

/-! Which catalogs link, and what their tables then hold. Tables are looked at one by one, so a catalog is refused for
the fault of one table, or else because tables depend on each other in a circle. -/
namespace EntitySql
variable {c : Catalog} {t : Table} {i : Fin c.size}

/-- The table that a name means: the one of that full name, or if there is none the first one of that bare name. -/
inductive Catalog.Means (c : Catalog) (name : String) (i : Fin c.size) : Prop where
  | full (hname : (c.table i).qualifiedName = name) (hfirst : ∀ j < i, (c.table j).qualifiedName ≠ name)
  | bare (hnone : ∀ j, (c.table j).qualifiedName ≠ name) (hname : (c.table i).name = name)
      (hfirst : ∀ j < i, (c.table j).name ≠ name)

/-- A join target gives a column by its physical name or by its field, not by both. -/
inductive JoinTarget.Gives (join : JoinTarget) (column : Column) : Prop where
  | byName (hcolumn : join.column = some column.name) (hfield : join.field = none)
  | byField (hcolumn : join.column = none) (hfield : join.field = some column.field)

/-- The rules for a join column: its target means a table, which is no view but for a view, and gives a column of it. -/
def JoinRules (c : Catalog) (t : Table) (join : JoinTarget) : Prop :=
  ∃ i, c.Means join.table i ∧ ((c.table i).isView = true → t.isView = true) ∧
    ∃ column ∈ (c.table i).columns.toList, join.Gives column

/-- The rules for a table of a catalog. -/
structure TableRules (c : Catalog) (t : Table) : Prop where
  no_duplicates : t.duplicates = []
  nodup_names : (t.columns.toList.map Column.name).Nodup
  view : ∀ base ∈ t.viewOf, base ≠ "" ∧ t.columns.toList ≠ [] ∧ ∃ i, c.Means base i
  joins : ∀ column ∈ t.columns.toList, ∀ join ∈ column.join, JoinRules c t join
  unique_fields : ∀ key ∈ t.uniqueConstraints, ∀ field ∈ key.fields, field ∈ t.columns.toList.map Column.field
  unique_names : ∀ key ∈ t.uniqueConstraints, ∀ name ∈ key.columns, name ∈ t.columns.toList.map Column.name

/-- The rules for a catalog, those on circles apart. -/
structure Catalog.WellFormed (c : Catalog) : Prop where
  nodup_names : (c.tables.map Table.qualifiedName).Nodup
  tables : ∀ t ∈ c.tables, TableRules c t

theorem Catalog.forall_table {P : Table → Prop} : (∀ t ∈ c.tables, P t) ↔ ∀ i, P (c.table i) := by
  constructor
  · exact fun h i => h _ (List.getElem_mem i.isLt)
  · intro h t ht
    obtain ⟨k, hk, rfl⟩ := List.getElem_of_mem ht
    exact h ⟨k, hk⟩

theorem Catalog.index?_eq_some {name : String} : c.index? name = some i ↔ c.Means name i := by
  have hfull : c.tables.findFinIdx? (·.qualifiedName == name) = some i ↔
      (c.table i).qualifiedName = name ∧ ∀ j < i, (c.table j).qualifiedName ≠ name := by
    rw [List.findFinIdx?_eq_some_iff]
    simp [Catalog.table]
  have hbare : c.tables.findFinIdx? (·.name == name) = some i ↔
      (c.table i).name = name ∧ ∀ j < i, (c.table j).name ≠ name := by
    rw [List.findFinIdx?_eq_some_iff]
    simp [Catalog.table]
  have hnone : c.tables.findFinIdx? (·.qualifiedName == name) = none ↔ ∀ j, (c.table j).qualifiedName ≠ name := by
    rw [List.findFinIdx?_eq_none_iff, ← forall_table (P := fun t => t.qualifiedName ≠ name)]
    simp
  rw [index?, Option.or_eq_some_iff, hfull, hnone, hbare]
  constructor
  · rintro (⟨hname, hfirst⟩ | ⟨hnone, hname, hfirst⟩)
    · exact .full hname hfirst
    · exact .bare hnone hname hfirst
  · intro h
    cases h with
    | full hname hfirst => exact .inl ⟨hname, hfirst⟩
    | bare hnone hname hfirst => exact .inr ⟨hnone, hname, hfirst⟩

namespace Link

theorem checkColumnNames_eq_ok :
    checkColumnNames t = .ok () ↔ t.duplicates = [] ∧ (t.columns.toList.map Column.name).Nodup := by
  have hrepeated := @firstRepeated_eq_none [] (t.columns.toList.map Column.name)
  unfold checkColumnNames
  cases hduplicates : t.duplicates with
  | cons name names => simp [throw_ne_ok]
  | nil =>
    cases h : firstRepeated [] (t.columns.toList.map Column.name) with
    | some name => simpa [h, throw_ne_ok] using hrepeated
    | none => simpa [h, pure_eq_ok] using hrepeated

theorem exists_resolveTable {name via : String} :
    (∃ i, resolveTable c t name via = .ok i) ↔ ∃ i, c.Means name i := by
  simp only [resolveTable_eq_ok, Catalog.index?_eq_some]

theorem exists_resolveBase :
    (∃ base, resolveBase c t = .ok base) ↔
      ∀ base ∈ t.viewOf, base ≠ "" ∧ t.columns.toList ≠ [] ∧ ∃ i, c.Means base i := by
  unfold resolveBase
  cases t.viewOf with
  | none => simp [pure_eq_ok]
  | some base =>
    dsimp only
    split
    · next hempty =>
      refine iff_of_false (fun ⟨_, h⟩ => throw_ne_ok h) fun h => ?_
      obtain ⟨hbase, hcolumns, -⟩ := h base rfl
      simp [hbase, hcolumns] at hempty
    · next hgiven =>
      simp only [exists_bind_eq_ok, pure_eq_ok, exists_eq', and_true, exists_resolveTable]
      simp only [Bool.or_eq_true, String.isEmpty_iff, List.isEmpty_iff, not_or] at hgiven
      simp [hgiven]

theorem mem_of_targetColumn {column found : Column} {join : JoinTarget} {target : Table}
    (h : targetColumn t column join target = .ok found) : found ∈ target.columns.toList ∧ join.Gives found := by
  unfold targetColumn at h
  split at h
  · exact absurd h throw_ne_ok
  · exact absurd h throw_ne_ok
  · next name hcolumn hfield =>
    dsimp only at h
    split at h
    · next found' hfound =>
      cases h
      have hname : found.name = name := by simpa using List.find?_some hfound
      exact ⟨List.mem_of_find?_eq_some hfound, .byName (hname ▸ hcolumn) hfield⟩
    · exact absurd h throw_ne_ok
  · next field hcolumn hfield =>
    dsimp only at h
    split at h
    · next found' hfound =>
      cases h
      have hname : found.field = field := by simpa using List.find?_some hfound
      exact ⟨List.mem_of_find?_eq_some hfound, .byField hcolumn (hname ▸ hfield)⟩
    · exact absurd h throw_ne_ok

theorem exists_targetColumn {column : Column} {join : JoinTarget} {target : Table} :
    (∃ found, targetColumn t column join target = .ok found) ↔
      ∃ found ∈ target.columns.toList, join.Gives found := by
  refine ⟨fun ⟨found, h⟩ => ⟨found, mem_of_targetColumn h⟩, ?_⟩
  rintro ⟨found, hfound, hgives⟩
  unfold targetColumn
  cases hgives with
  | byName hcolumn hfield =>
    obtain ⟨first, hfirst⟩ : ∃ first, target.columns.named? found.name = some first :=
      Option.isSome_iff_exists.1 (List.find?_isSome.2 ⟨found, hfound, by simp⟩)
    exact ⟨first, by simp [hcolumn, hfield, hfirst, pure_eq_ok]⟩
  | byField hcolumn hfield =>
    obtain ⟨first, hfirst⟩ : ∃ first, target.column? found.field = some first :=
      Option.isSome_iff_exists.1 (List.find?_isSome.2 ⟨found, hfound, by simp⟩)
    exact ⟨first, by simp [hcolumn, hfield, hfirst, pure_eq_ok]⟩

/-- The reference of a join column: both of its ends are columns, the other one of the table that is meant. -/
structure Resolves (c : Catalog) (t : Table) (column : Column) (join : JoinTarget) (r : Reference c.size) :
    Prop where
  field : r.field = column.field
  column : r.column = column.name
  means : c.Means join.table r.target
  view : (c.table r.target).isView = true → t.isView = true
  target : ∃ found ∈ (c.table r.target).columns.toList, join.Gives found ∧ r.targetField = found.field ∧
    r.targetColumn = found.name

theorem resolveJoin_eq_ok {column : Column} {join : JoinTarget} {r : Reference c.size} :
    resolveJoin c t column join = .ok r ↔ ∃ i found, c.Means join.table i ∧
      ((c.table i).isView = true → t.isView = true) ∧ targetColumn t column join (c.table i) = .ok found ∧
      r = ⟨column.field, column.name, i, found.field, found.name⟩ := by
  simp only [resolveJoin, bind_eq_ok, resolveTable_eq_ok, Catalog.index?_eq_some]
  constructor
  · rintro ⟨i, hmeans, h⟩
    split at h
    · exact absurd h throw_bind_ne_ok
    · next hview =>
      obtain ⟨found, hfound, hpure⟩ := bind_eq_ok.1 h
      exact ⟨i, found, hmeans, by simpa using hview, hfound, (pure_eq_ok.1 hpure).symm⟩
  · rintro ⟨i, found, hmeans, hview, hfound, rfl⟩
    refine ⟨i, hmeans, ?_⟩
    rw [if_neg (by simpa using hview)]
    exact bind_eq_ok.2 ⟨found, hfound, rfl⟩

theorem resolves_of_resolveJoin {column : Column} {join : JoinTarget} {r : Reference c.size}
    (h : resolveJoin c t column join = .ok r) : Resolves c t column join r := by
  obtain ⟨i, found, hmeans, hview, hfound, rfl⟩ := resolveJoin_eq_ok.1 h
  obtain ⟨hmem, hgives⟩ := mem_of_targetColumn hfound
  exact ⟨rfl, rfl, hmeans, hview, found, hmem, hgives, rfl, rfl⟩

theorem exists_resolveJoin {column : Column} {join : JoinTarget} :
    (∃ r, resolveJoin c t column join = .ok r) ↔ JoinRules c t join := by
  constructor
  · rintro ⟨r, h⟩
    obtain ⟨i, found, hmeans, hview, hfound, -⟩ := resolveJoin_eq_ok.1 h
    exact ⟨i, hmeans, hview, exists_targetColumn.1 ⟨found, hfound⟩⟩
  · rintro ⟨i, hmeans, hview, hgiven⟩
    obtain ⟨found, hfound⟩ := exists_targetColumn.2 hgiven
    exact ⟨_, resolveJoin_eq_ok.2 ⟨i, found, hmeans, hview, hfound, rfl⟩⟩

/-- The join columns among columns, with their targets. -/
def joinColumns (columns : List Column) : List (Column × JoinTarget) :=
  columns.filterMap fun column => column.join.map (column, ·)

/-- The references of columns are those of the join columns, one by one. -/
theorem resolveJoins_eq (columns : List Column) :
    resolveJoins c t columns = (joinColumns columns).mapM fun entry => resolveJoin c t entry.1 entry.2 := by
  induction columns with
  | nil => rfl
  | cons column columns ih =>
    rw [resolveJoins]
    cases hjoin : column.join with
    | none => simp [joinColumns, hjoin, ih]
    | some join => simp [joinColumns, hjoin, ih]

theorem mem_joinColumns {columns : List Column} {column : Column} {join : JoinTarget} :
    (column, join) ∈ joinColumns columns ↔ column ∈ columns ∧ join ∈ column.join := by
  unfold joinColumns
  rw [List.mem_filterMap]
  constructor
  · rintro ⟨column', hmem, hmap⟩
    obtain ⟨join', hjoin, heq⟩ := Option.map_eq_some_iff.1 hmap
    cases heq
    exact ⟨hmem, hjoin⟩
  · rintro ⟨hmem, hjoin⟩
    exact ⟨column, hmem, Option.map_eq_some_iff.2 ⟨join, hjoin, rfl⟩⟩

theorem exists_resolveJoins {columns : List Column} :
    (∃ refs, resolveJoins c t columns = .ok refs) ↔
      ∀ column ∈ columns, ∀ join ∈ column.join, JoinRules c t join := by
  simp only [resolveJoins_eq, exists_mapM_eq_ok, exists_resolveJoin]
  constructor
  · exact fun h column hcolumn join hjoin => h (column, join) (mem_joinColumns.2 ⟨hcolumn, hjoin⟩)
  · rintro h ⟨column, join⟩ hentry
    obtain ⟨hcolumn, hjoin⟩ := mem_joinColumns.1 hentry
    exact h column hcolumn join hjoin

theorem uniqueMember_eq_ok {member name : String} {column? : Option Column} :
    uniqueMember t member column? = .ok name ↔ ∃ column, column? = some column ∧ column.name = name := by
  cases column? with
  | none => simp [uniqueMember, throw_ne_ok]
  | some column => simp [uniqueMember, pure_eq_ok]

theorem exists_uniqueMember {member : String} {found : Column → Bool} :
    (∃ name, uniqueMember t member (t.columns.toList.find? found) = .ok name) ↔
      ∃ column ∈ t.columns.toList, found column = true := by
  simp only [uniqueMember_eq_ok, exists_comm (α := String), exists_and_left, exists_eq', and_true]
  rw [← Option.isSome_iff_exists, List.find?_isSome]

theorem exists_uniqueMembers {key : UniqueConstraint} :
    (∃ names, uniqueMembers t key = .ok names) ↔
      (∀ field ∈ key.fields, field ∈ t.columns.toList.map Column.field) ∧
        ∀ name ∈ key.columns, name ∈ t.columns.toList.map Column.name := by
  simp only [uniqueMembers, exists_bind_eq_ok, pure_eq_ok, exists_eq', and_true, exists_and_right,
    exists_mapM_eq_ok, Table.column?, Columns.get?, Columns.named?, exists_uniqueMember]
  simp

/-- The names that a declared key stands for: those of the columns of its fields, then its own. -/
def Spells (t : Table) (key : UniqueConstraint) (names : List String) : Prop :=
  ∃ fields, List.Forall₂ (fun field name => ∃ column ∈ t.columns.toList, column.field = field ∧ column.name = name)
    key.fields fields ∧ names = fields ++ key.columns

theorem spells_of_uniqueMembers {key : UniqueConstraint} {names : List String}
    (h : uniqueMembers t key = .ok names) :
    Spells t key names ∧ ∀ name ∈ names, name ∈ t.columns.toList.map Column.name := by
  obtain ⟨fields, hfields, h⟩ := bind_eq_ok.1 h
  obtain ⟨columns, hcolumns, hpure⟩ := bind_eq_ok.1 h
  rw [← pure_eq_ok.1 hpure]
  constructor
  · have hnamed : columns = key.columns := by
      refine (eq_map_of_mapM hcolumns fun name _ found hmember => ?_).trans (List.map_id _)
      obtain ⟨column, hfind, rfl⟩ := uniqueMember_eq_ok.1 hmember
      simpa using List.find?_some hfind
    refine ⟨fields, (mapM_eq_ok.1 hfields).imp fun field name hmember => ?_, by rw [hnamed]⟩
    obtain ⟨column, hfind, hname⟩ := uniqueMember_eq_ok.1 hmember
    exact ⟨column, List.mem_of_find?_eq_some hfind, by simpa using List.find?_some hfind, hname⟩
  · intro name hname
    obtain hname | hname := List.mem_append.1 hname
    · obtain ⟨field, -, hmember⟩ := exists_of_mem_mapM hfields hname
      obtain ⟨column, hfind, rfl⟩ := uniqueMember_eq_ok.1 hmember
      exact List.mem_map_of_mem (List.mem_of_find?_eq_some hfind)
    · obtain ⟨member, -, hmember⟩ := exists_of_mem_mapM hcolumns hname
      obtain ⟨column, hfind, rfl⟩ := uniqueMember_eq_ok.1 hmember
      exact List.mem_map_of_mem (List.mem_of_find?_eq_some hfind)

theorem exists_uniqueKeys :
    (∃ keys, uniqueKeys t = .ok keys) ↔ ∀ key ∈ t.uniqueConstraints,
      (∀ field ∈ key.fields, field ∈ t.columns.toList.map Column.field) ∧
        ∀ name ∈ key.columns, name ∈ t.columns.toList.map Column.name := by
  simp only [uniqueKeys, exists_bind_eq_ok, pure_eq_ok, exists_eq', and_true, exists_mapM_eq_ok, exists_uniqueMembers]

theorem exists_linkTable : (∃ linked, linkTable c i = .ok linked) ↔ TableRules c (c.table i) := by
  simp only [linkTable, exists_bind_eq_ok, pure_eq_ok, exists_eq', and_true, exists_and_right, exists_resolveBase,
    exists_resolveJoins, exists_uniqueKeys]
  constructor
  · rintro ⟨⟨⟨⟩, hnames⟩, hview, hjoins, hkeys⟩
    obtain ⟨hduplicates, hnodup⟩ := checkColumnNames_eq_ok.1 hnames
    exact ⟨hduplicates, hnodup, hview, hjoins, fun key hkey => (hkeys key hkey).1, fun key hkey => (hkeys key hkey).2⟩
  · intro h
    exact ⟨⟨(), checkColumnNames_eq_ok.2 ⟨h.no_duplicates, h.nodup_names⟩⟩, h.view, h.joins,
      fun key hkey => ⟨h.unique_fields key hkey, h.unique_names key hkey⟩⟩

theorem exists_linkTables : (∃ tables, linkTables c = .ok tables) ↔ c.WellFormed := by
  simp only [linkTables, exists_bind_eq_ok, exists_mapM_eq_ok, exists_linkTable, List.mem_finRange, true_implies]
  rw [← Catalog.forall_table]
  constructor
  · rintro ⟨⟨⟩, hnames, htables⟩
    exact ⟨checkTableNames_eq_ok.1 hnames, htables⟩
  · exact fun h => ⟨(), checkTableNames_eq_ok.2 h.nodup_names, h.tables⟩

/-- A fault in what a table refers to. -/
def ReferenceFault : CompileError → Prop
  | .unresolvedReference .. | .unresolvedColumn .. | .ambiguousJoinSpecifier .. | .missingJoinSpecifier .. => True
  | .foreignKeyTargetIsView .. | .emptyView .. => True
  | _ => False

theorem failsOnly_resolveTable {name via : String} : FailsOnly ReferenceFault (resolveTable c t name via) := by
  unfold resolveTable
  split
  · exact failsOnly_pure
  · exact failsOnly_throw trivial

theorem failsOnly_resolveBase : FailsOnly ReferenceFault (resolveBase c t) := by
  unfold resolveBase
  split
  · exact failsOnly_pure
  · split
    · exact failsOnly_throw trivial
    · exact failsOnly_resolveTable.bind fun _ _ => failsOnly_pure

theorem failsOnly_targetColumn {column : Column} {join : JoinTarget} {target : Table} :
    FailsOnly ReferenceFault (targetColumn t column join target) := by
  unfold targetColumn
  split
  · exact failsOnly_throw trivial
  · exact failsOnly_throw trivial
  · dsimp only
    split
    · exact failsOnly_pure
    · exact failsOnly_throw trivial
  · dsimp only
    split
    · exact failsOnly_pure
    · exact failsOnly_throw trivial

theorem failsOnly_resolveJoin {column : Column} {join : JoinTarget} :
    FailsOnly ReferenceFault (resolveJoin c t column join) := by
  refine failsOnly_resolveTable.bind fun i _ => ?_
  dsimp only
  split
  · exact (failsOnly_throw trivial).bind fun _ _ => failsOnly_targetColumn.bind fun _ _ => failsOnly_pure
  · exact failsOnly_targetColumn.bind fun _ _ => failsOnly_pure

theorem failsOnly_uniqueKeys : FailsOnly ReferenceFault (uniqueKeys t) := by
  have hmember : ∀ (member : String) (column? : Option Column),
      FailsOnly ReferenceFault (uniqueMember t member column?) := by
    intro member column?
    cases column? with
    | none => exact failsOnly_throw trivial
    | some column => exact failsOnly_pure
  have hmembers : ∀ key, FailsOnly ReferenceFault (uniqueMembers t key) := fun key =>
    (failsOnly_mapM fun _ _ => hmember _ _).bind fun _ _ =>
      (failsOnly_mapM fun _ _ => hmember _ _).bind fun _ _ => failsOnly_pure
  exact (failsOnly_mapM fun key _ => hmembers key).bind fun _ _ => failsOnly_pure

/-- A table is refused for the names of its columns, or else for what it refers to. -/
theorem failsOnly_linkTable :
    FailsOnly (fun e => checkColumnNames (c.table i) = .error e ∨ ReferenceFault e) (linkTable c i) := by
  refine FailsOnly.bind (fun e he => .inl he) fun _ _ => ?_
  refine FailsOnly.mono (P := ReferenceFault) ?_ fun _ => .inr
  refine failsOnly_resolveBase.bind fun _ _ => ?_
  rw [resolveJoins_eq]
  exact (failsOnly_mapM fun _ _ => failsOnly_resolveJoin).bind fun _ _ =>
    failsOnly_uniqueKeys.bind fun _ _ => failsOnly_pure

/-- Tables are looked at one by one only if no two have the same name. -/
theorem failsOnly_linkTables : FailsOnly (fun e => checkTableNames c = .error e ∨ checkTableNames c = .ok () ∧
    ∃ i, checkColumnNames (c.table i) = .error e ∨ ReferenceFault e) (linkTables c) :=
  FailsOnly.bind (fun _ => .inl) fun ⟨⟩ hnames =>
    failsOnly_mapM fun _ _ => failsOnly_linkTable.mono fun _ he => .inr ⟨hnames, _, he⟩

theorem eq_of_checkTableNames {e : CompileError} (h : checkTableNames c = .error e) :
    ∃ table, e = .duplicateTable table := by
  unfold checkTableNames at h
  split at h
  · exact ⟨_, (Except.error.inj h).symm⟩
  · cases h

theorem eq_of_checkColumnNames {e : CompileError} (h : checkColumnNames t = .error e) :
    ∃ column, e = .duplicateColumn t.qualifiedName column := by
  unfold checkColumnNames at h
  split at h
  · exact ⟨_, (Except.error.inj h).symm⟩
  · cases h

/-- A step that finds no circle, whatever else may be wrong. -/
def NoCycle {α : Type} (x : Except CompileError α) : Prop :=
  ∀ path, x ≠ .error (.dependencyCycle path)

theorem noCycle_linkTables : NoCycle (linkTables c) := by
  intro path h
  obtain hnames | ⟨-, i, hcolumns | hreference⟩ := failsOnly_linkTables _ h
  · obtain ⟨table, he⟩ := eq_of_checkTableNames hnames
    cases he
  · obtain ⟨column, he⟩ := eq_of_checkColumnNames hcolumns
    cases he
  · exact hreference

end Link

/-- What a linked table holds of its declaration: its primary key, its unique columns and then its declared keys that
have members, and one reference for each join column, all in physical order. -/
structure LinkedTable.Faithful (t : LinkedTable c) : Prop where
  primaryKey : t.primaryKey = (t.schema.columns.toList.filter (·.primaryKey)).map Column.name
  uniqueKeys : ∃ declared, List.Forall₂ (Link.Spells t.schema) t.schema.uniqueConstraints declared ∧
    t.uniqueKeys = (t.schema.columns.toList.filter (·.unique)).map (fun column => [column.name]) ++
      declared.filter fun key => !key.isEmpty
  existing : ∀ key ∈ t.uniqueKeys, ∀ name ∈ key, name ∈ t.schema.columns.toList.map Column.name
  references : List.Forall₂ (fun entry r => Link.Resolves c t.schema entry.1 entry.2 r)
    (Link.joinColumns t.schema.columns.toList) t.references

theorem Link.faithful_of_linkTable {t : LinkedTable c} (h : linkTable c i = .ok t) : t.Faithful := by
  obtain ⟨_, _, h⟩ := bind_eq_ok.1 h
  obtain ⟨base, _, h⟩ := bind_eq_ok.1 h
  obtain ⟨references, hreferences, h⟩ := bind_eq_ok.1 h
  obtain ⟨keys, hkeys, hpure⟩ := bind_eq_ok.1 h
  obtain ⟨declared, hdeclared, hkeys⟩ := bind_eq_ok.1 hkeys
  have hkeys := (pure_eq_ok.1 hkeys).symm
  rw [← pure_eq_ok.1 hpure]
  refine ⟨rfl, ⟨declared, ?_, hkeys⟩, ?_, ?_⟩
  · exact (mapM_eq_ok.1 hdeclared).imp fun key names hnames => (spells_of_uniqueMembers hnames).1
  · intro key hkey name hname
    rw [hkeys, List.mem_append] at hkey
    obtain hkey | hkey := hkey
    · obtain ⟨column, hcolumn, rfl⟩ := List.mem_map.1 hkey
      rw [List.mem_singleton.1 hname]
      exact List.mem_map_of_mem (List.mem_filter.1 hcolumn).1
    · obtain ⟨constraint, -, hnames⟩ := exists_of_mem_mapM hdeclared (List.mem_filter.1 hkey).1
      exact (spells_of_uniqueMembers hnames).2 name hname
  · rw [resolveJoins_eq] at hreferences
    exact (mapM_eq_ok.1 hreferences).imp fun entry r => resolves_of_resolveJoin

/-- A catalog links, or is refused for a circle only, exactly if it is well formed. The linked tables are those of the
catalog, each with the keys and references that it declares. -/
theorem links_iff (c : Catalog) :
    ((∃ l, c.link = .ok l) ∨ (∃ path, c.link = .error (.dependencyCycle path)) ↔ c.WellFormed) ∧
      ∀ l, c.link = .ok l → l.tables.map (·.index) = List.finRange c.size ∧ ∀ t ∈ l.tables, t.Faithful := by
  refine ⟨?_, fun l h => ⟨(placed_of_link h).1, fun t ht => ?_⟩⟩
  · -- The tables are linked before they are ordered, and ordering them can fail for a circle only.
    rw [← Link.exists_linkTables]
    constructor
    · rintro (⟨l, h⟩ | ⟨path, h⟩)
      · exact ⟨l.tables, tables_of_link h⟩
      · cases htables : Link.linkTables c with
        | ok tables => exact ⟨tables, rfl⟩
        | error e =>
          rw [Catalog.link, htables] at h
          rw [Except.error.inj h] at htables
          exact absurd htables (Link.noCycle_linkTables path)
    · rintro ⟨tables, htables⟩
      cases h : c.link with
      | ok l => exact .inl ⟨l, rfl⟩
      | error e =>
        obtain ⟨path, -, rfl⟩ := Link.isCycle_of_emissionOrder htables ((link_eq_error htables).1 h)
        exact .inr ⟨_, rfl⟩
  · exact Link.faithful_of_linkTable (Link.linkTable_index (tables_of_link h) ht)

/-- Accounts of a bank, and entries that refer to them by the bare name. -/
def ledger : Catalog where
  tables := [
    ((Table.ofName "ACCOUNT").inNamespace "bank").addColumn { field := "accountId", kind := .long, primaryKey := true }
      |>.addColumn { field := "number", kind := .string, unique := true },
    (Table.ofName "ENTRY").addColumn
        { field := "accountId", kind := .long, join := some { table := "ACCOUNT", column := some "ACCOUNT_ID" } }
      |>.addColumn { field := "line", kind := .int }
      |>.withUnique { fields := ["accountId"], columns := ["LINE"] }]

set_option maxRecDepth 8000 in
theorem ledger_links : ledger.WellFormed ∧ ∃ l, ledger.link = .ok l ∧ (∀ t ∈ l.tables, t.Faithful) ∧
    l.tables.map (fun t => (t.primaryKey, t.uniqueKeys)) =
      [(["ACCOUNT_ID"], [["NUMBER"]]), ([], [["ACCOUNT_ID", "LINE"]])] := by
  have hkeys : ledger.link.toOption.map (fun l => l.tables.map fun t => (t.primaryKey, t.uniqueKeys)) =
      some [(["ACCOUNT_ID"], [["NUMBER"]]), ([], [["ACCOUNT_ID", "LINE"]])] := by cbv
  obtain ⟨l, h, hlist⟩ := exists_ok_of_toOption hkeys
  obtain ⟨hlinks, hfaithful⟩ := links_iff ledger
  exact ⟨hlinks.1 (.inl ⟨l, h⟩), l, h, (hfaithful l h).2, hlist⟩

end EntitySql
