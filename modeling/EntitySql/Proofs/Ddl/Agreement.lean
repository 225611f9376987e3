import EntitySql.Proofs.Ddl.Names
import EntitySql.Proofs.Query.Inserted
import EntitySql.Proofs.Query.Named

/-! The statements that create tables and the statements that use them come from two generators. Main statement: in a
compiled catalog each table is created under the name by which its operations know it, and with the columns, in the
order, that they select. -/
namespace EntitySql
namespace Query
variable {d : Dialect} {t : Table} {op : Operation}

/-- The form of a row keeps to a table: a whole row has its columns in their order, a single column is one of them. -/
def RowShape.KeepsTo (names : List String) : RowShape → Prop
  | none => True
  | entity columns => columns = names
  | column name _ => name ∈ names
  | expression => True

theorem keepsTo_of_selectionOf {selection : Selection} {row : RowShape} (h : selectionOf t op = .ok (selection, row)) :
    row.KeepsTo (columnNames t) := by
  unfold selectionOf at h
  split at h
  · split at h
    · exact absurd h throw_ne_ok
    · split at h
      · exact absurd h throw_ne_ok
      · next column hcolumn =>
        cases h
        exact List.mem_map_of_mem (List.mem_of_find?_eq_some hcolumn)
  · split at h
    · exact absurd h throw_ne_ok
    · cases h
      trivial
  · cases h
    rfl

theorem Planned.row_keepsTo {p : Plan} (h : Planned t op p) : p.row.KeepsTo (columnNames t) := by
  cases h with
  | insert _ _ _ hresult =>
    obtain ⟨-, -, rfl⟩ | ⟨-, entity, -, -, -, rfl⟩ := insertResult_cases hresult
    · trivial
    · rfl
  | update _ _ _ hresult =>
    obtain ⟨-, -, -, rfl⟩ | ⟨-, -, -, rfl⟩ := updateResult_cases hresult
    · trivial
    · rfl
  | delete | count => trivial
  | select _ hselection => exact keepsTo_of_selectionOf hselection

theorem sql_select_columns (table : ObjectName) (columns : List String) (filter : Filter)
    (order : List (String × Direction)) (limit : Option UInt64) :
    (Statement.select table (.columns columns) filter order limit).sql d =
      "SELECT " ++ Ddl.nameList columns ++ " FROM " ++ d.qualify table ++
        render d (filter.pieces ++ orderPieces order ++ limitPieces limit) := by
  -- Columns take up no placeholder, so those of the filter are numbered from one.
  have hslots : slots (Selection.columns columns).pieces = [] := Selection.slots_columns columns
  have hselected : renderFrom d 1 (Selection.columns columns).pieces = Ddl.nameList columns := by
    rw [Selection.pieces, renderFrom_separated, renderEach_names]
    rfl
  rw [Statement.sql, Statement.pieces_select, render, renderFrom, renderFrom_append, hslots, hselected]
  simp [renderFrom, render, String.append_assoc]

/-- Entities are selected as whole rows. -/
theorem Planned.selectEntity_eq {p : Plan} (h : Planned t op p) (hkind : op.kind = .selectEntity) :
    p.row = .entity (columnNames t) ∧
      p.statement = .select t.objectName (.columns (columnNames t)) (fullFilter t op (boundParams t op))
        (orderColumns t op) op.limit := by
  cases h with
  | insert hinsert => simp [hkind, OperationKind.isInsert] at hinsert
  | update hupdate | delete hupdate => simp [hkind] at hupdate
  | count hcount => simp [hkind] at hcount
  | select _ hselection =>
    simp only [selectionOf, hkind] at hselection
    cases hselection
    exact ⟨rfl, rfl⟩

theorem Planned.row_of_followUp {p : Plan} (h : Planned t op p) {s : Statement} (hs : p.followUp = some s) :
    p.row = .entity (columnNames t) := by
  cases h with
  | update _ _ _ hresult =>
    obtain ⟨-, -, rfl, -⟩ | ⟨-, -, -, rfl⟩ := updateResult_cases hresult
    · cases hs
    · rfl
  | insert | delete | count | select => cases hs

end Query

variable {c : Catalog} {l : LinkedCatalog c} {t : LinkedTable c} {d : Dialect}

namespace Ddl

/-- The columns of what a statement creates, in order. -/
def Create.columnNames : Create → List String
  | table _ columns _ => columns.map (·.name)
  | view _ items _ _ => items.map (·.outputName)

theorem columnNames_of_create {s : Create} (h : create d t = .ok s) :
    s.columnNames = Query.columnNames t.schema := by
  unfold create at h
  split at h
  · obtain ⟨joins, -, h⟩ := bind_eq_ok.1 h
    obtain ⟨items, hitems, hpure⟩ := bind_eq_ok.1 h
    rw [← pure_eq_ok.1 hpure]
    exact map_eq_of_mapM hitems fun column item => outputName_of_itemOf
  · obtain ⟨lines, hlines, hpure⟩ := bind_eq_ok.1 h
    rw [← pure_eq_ok.1 hpure]
    exact map_eq_of_mapM hlines fun column line => name_of_columnLine

/-- How a select of all columns of what a statement creates begins. -/
def Create.selection (d : Dialect) (created : Create) : String :=
  "SELECT " ++ ", ".intercalate (created.columnNames.map quoteName) ++ " FROM " ++ d.qualify created.name

end Ddl

/-- A statement keeps to what another one creates: it names that and nothing else, and no columns but its. -/
structure Query.Statement.KeepsTo (s : Statement) (created : Ddl.Create) : Prop where
  object : ∀ name, .object name ∈ s.pieces ↔ name = created.name
  columns : ∀ name, .name name ∈ s.pieces → name ∈ created.columnNames

/-- A compiled operation agrees with the statement that creates its table. Its texts name the created table and no
columns but those created with it, as the statements of its plan do, and whole rows have these columns in their order. -/
structure CompiledOperation.AgreesWith (compiled : CompiledOperation) (d : Dialect) (op : Operation) (p : Query.Plan)
    (created : Ddl.Create) : Prop where
  planned : compiled = p.compile d op
  statement : p.statement.KeepsTo created
  followUp : ∀ s ∈ p.followUp, s.KeepsTo created
  named : Query.NamesOnly d created.name created.columnNames op compiled.statement.sql
  named_later : ∀ s ∈ compiled.followUp, Query.NamesOnly d created.name created.columnNames op s.sql
  row : compiled.row.KeepsTo created.columnNames
  selected : op.kind = .selectEntity →
    compiled.row = .entity created.columnNames ∧ ∃ rest, compiled.statement.sql = created.selection d ++ rest
  reselected : ∀ s ∈ compiled.followUp,
    compiled.row = .entity created.columnNames ∧ ∃ rest, s.sql = created.selection d ++ rest

section
variable {table : Table} {op : Operation} {p : Query.Plan} {s : Query.Statement} {created : Ddl.Create}
  (hname : created.name = table.objectName) (hcolumns : created.columnNames = Query.columnNames table)
include hname hcolumns

theorem keepsTo_of_planned (hp : Query.Planned table op p) (hs : s = p.statement ∨ p.followUp = some s) :
    s.KeepsTo created where
  object name := by
    rw [hname]
    exact hp.object_mem_iff hs
  columns name hmem := by
    rw [hcolumns]
    exact hp.allOn hs _ hmem

theorem namesOnly_of_planned (hp : Query.Planned table op p) (hs : s = p.statement ∨ p.followUp = some s) :
    Query.NamesOnly d created.name created.columnNames op (s.sql d) := by
  rw [hname, hcolumns]
  exact hp.namesOnly hs

/-- Whole rows are selected by the columns that are created, in their order. -/
theorem sql_select_created (filter : Query.Filter) (order : List (String × Direction)) (limit : Option UInt64) :
    ∃ rest, (Query.Statement.select table.objectName (.columns (Query.columnNames table)) filter order limit).sql d =
      created.selection d ++ rest := by
  rw [Ddl.Create.selection, hname, hcolumns]
  exact ⟨_, Query.sql_select_columns _ _ _ _ _⟩

theorem agreesWith_of_plan (hplan : Query.plan table op = .ok p) (d : Dialect) :
    (p.compile d op).AgreesWith d op p created := by
  have hp := Query.planned_of_plan hplan
  constructor
  case planned => rfl
  case statement => exact keepsTo_of_planned hname hcolumns hp (.inl rfl)
  case followUp => exact fun s hs => keepsTo_of_planned hname hcolumns hp (.inr hs)
  case named => exact namesOnly_of_planned hname hcolumns hp (.inl rfl)
  case named_later =>
    intro s hs
    obtain ⟨later, hlater, rfl⟩ := Option.map_eq_some_iff.1 hs
    exact namesOnly_of_planned hname hcolumns hp (.inr hlater)
  case row =>
    rw [hcolumns]
    exact hp.row_keepsTo
  case selected =>
    intro hkind
    obtain ⟨hrow, hstatement⟩ := hp.selectEntity_eq hkind
    refine ⟨hcolumns ▸ hrow, ?_⟩
    simp only [Query.Plan.compile, hstatement]
    exact sql_select_created hname hcolumns _ _ _
  case reselected =>
    intro s hs
    obtain ⟨later, hlater, rfl⟩ := Option.map_eq_some_iff.1 hs
    refine ⟨hcolumns ▸ hp.row_of_followUp hlater, ?_⟩
    rw [hp.followUp_eq hlater]
    exact sql_select_created hname hcolumns _ _ _

end

/-- A statement creates a table: its text creates what bears the name of the table and has its columns. -/
structure LinkedTable.CreatedBy (t : LinkedTable c) (d : Dialect) (s : Ddl.Create) : Prop where
  create : Ddl.create d t = .ok s
  name : s.name = t.schema.objectName
  columns : s.columnNames = Query.columnNames t.schema
  text : Ddl.Creates d s.name s.columnNames ((t.named d).map (·.2)) (s.sql d)

theorem createdBy_of_create {s : Ddl.Create} (h : Ddl.create d t = .ok s) : t.CreatedBy d s := by
  have hname := (Ddl.names_of_create h).1
  have hcolumns := Ddl.columnNames_of_create h
  refine ⟨h, hname, hcolumns, ?_⟩
  rw [hname, hcolumns]
  exact Ddl.creates_of_create h

/-- The tables and the operations of a compiled catalog, each with the statement that creates it: the tables of the
catalog in the order of their creation, the operations in the order of their declaration. -/
structure CompiledCatalog.Agrees (compiled : CompiledCatalog) (config : CompilerConfig) (l : LinkedCatalog c)
    (creates : List Ddl.Create) : Prop where
  order : l.ordered.map (·.index) = l.order
  each_once : l.order.Perm (List.finRange c.size)
  ddl : compiled.ddl = (if config.createSchemas then Ddl.createNamespaces config.dialect c else []) ++
    creates.map (Ddl.Create.sql config.dialect)
  created : List.Forall₂ (fun t s => t.CreatedBy config.dialect s) l.ordered creates
  tables : List.Forall₂ (fun entry table => table.table = entry.1.schema.qualifiedName ∧
    List.Forall₂ (fun op compiled => op.compile config.dialect entry.1.schema = .ok compiled ∧
      ∃ p, Query.plan entry.1.schema op = .ok p ∧ compiled.AgreesWith config.dialect op p entry.2)
      entry.1.schema.operations table.operations)
    (l.ordered.zip creates) compiled.tables

theorem forall₂_zip_left {α β γ : Type} {R : α → β → Prop} {S : α → γ → Prop} {xs : List α} {ys : List β} {zs : List γ}
    (hys : List.Forall₂ R xs ys) (hzs : List.Forall₂ S xs zs) :
    List.Forall₂ (fun entry z => R entry.1 entry.2 ∧ S entry.1 z) (xs.zip ys) zs := by
  induction hys generalizing zs with
  | nil =>
    cases hzs
    exact .nil
  | cons hy _ ih =>
    cases hzs with
    | cons hz hrest => exact .cons ⟨hy, hz⟩ (ih hrest)

/-- In a compiled catalog the statements that create tables and the statements of their operations agree. -/
theorem agrees_of_compile {config : CompilerConfig} {compiled : CompiledCatalog} (h : c.compile config = .ok compiled) :
    ∃ (l : LinkedCatalog c) (creates : List Ddl.Create), c.link = .ok l ∧ compiled.Agrees config l creates := by
  obtain ⟨l, hl, h⟩ := bind_eq_ok.1 h
  obtain ⟨ddl, hddl, h⟩ := bind_eq_ok.1 h
  obtain ⟨tables, htables, hpure⟩ := bind_eq_ok.1 h
  obtain ⟨creates, hcreates, rfl⟩ := generate_eq_ok.1 hddl
  rw [← pure_eq_ok.1 hpure]
  have hcreated : List.Forall₂ (fun t s => t.CreatedBy config.dialect s) l.ordered creates :=
    (mapM_eq_ok.1 hcreates).imp fun t s => createdBy_of_create
  refine ⟨l, creates, hl, map_index_ordered hl, perm_of_link hl, rfl, hcreated, ?_⟩
  refine (forall₂_zip_left hcreated (mapM_eq_ok.1 htables)).imp ?_
  rintro ⟨t, s⟩ table ⟨hcreated, htable⟩
  obtain ⟨operations, hoperations, hpure⟩ := bind_eq_ok.1 htable
  rw [← pure_eq_ok.1 hpure]
  refine ⟨rfl, (mapM_eq_ok.1 hoperations).imp fun op o ho => ⟨ho, ?_⟩⟩
  obtain ⟨p, hplan, rfl⟩ := Query.compile_eq_ok.1 ho
  exact ⟨p, hplan, agreesWith_of_plan hcreated.name hcreated.columns hplan _⟩

theorem exists_compile {config : CompilerConfig} (hl : c.link = .ok l)
    (hcreates : (l.ordered.mapM (Ddl.create config.dialect)).toBool)
    (htables : ∀ t ∈ c.tables, (t.compile config.dialect).toBool) : ∃ compiled, c.compile config = .ok compiled := by
  obtain ⟨ddl, hddl⟩ := exists_generate hcreates config.createSchemas
  refine exists_bind_eq_ok.2 ⟨l, hl, exists_bind_eq_ok.2 ⟨ddl, hddl, exists_bind_eq_ok.2 ?_⟩⟩
  obtain ⟨tables, hmap⟩ : ∃ tables, l.ordered.mapM (fun t => do
      return (⟨t.schema.qualifiedName, ← t.schema.compile config.dialect⟩ : CompiledTable)) = .ok tables := by
    refine exists_mapM_eq_ok.2 fun t _ => ?_
    obtain ⟨operations, hoperations⟩ := exists_ok_of_toBool (htables t.schema (List.getElem_mem t.index.isLt))
    exact exists_bind_eq_ok.2 ⟨operations, hoperations, _, rfl⟩
  exact ⟨tables, hmap, _, rfl⟩

/-- Posts, and a view of them that is declared first and renames their key. -/
def forum : Catalog where
  tables := [
    (Table.view "TOPIC" "POST").addColumn { field := "postId", name := "TOPIC_ID", kind := .long }
      |>.addOperation { name := "topics", kind := .selectEntity, returns := .many },
    (Table.ofName "POST").addColumn { field := "postId", kind := .long, primaryKey := true }
      |>.addColumn { field := "title", kind := .string }
      |>.addOperation {
        name := "rename"
        kind := .update
        returns := .one
        params := [{ Param.scalar "title" .string with role := .updateValue }, Param.scalar "postId" .long] }]

/-- The tables of the forum in the order of their creation: posts, topics. -/
def forumOrdered : List (LinkedTable forum) := [
  { index := ⟨1, by decide⟩, primaryKey := ["POST_ID"], uniqueKeys := [], references := [], foreignKeys := [],
    viewBase := none },
  { index := ⟨0, by decide⟩, primaryKey := [], uniqueKeys := [], references := [], foreignKeys := [],
    viewBase := some ⟨1, by decide⟩ }]

def forumDdl : List String := [
  "CREATE TABLE IF NOT EXISTS \"POST\" (\n    \"POST_ID\" BIGINT NOT NULL,\n    \"TITLE\" VARCHAR,\n" ++
    "    CONSTRAINT \"POST_PK\" PRIMARY KEY (\"POST_ID\")\n)",
  "CREATE OR REPLACE VIEW \"TOPIC\" AS SELECT B.\"POST_ID\" AS \"TOPIC_ID\"\nFROM \"POST\" B"]

set_option maxRecDepth 8000 in
theorem forum_agrees : ∃ compiled l creates, forum.compile {} = .ok compiled ∧ forum.link = .ok l ∧
    l.ordered = forumOrdered ∧ compiled.ddl = forumDdl ∧ compiled.Agrees {} l creates := by
  have hlinked : forum.link.toOption.map (·.ordered) = some forumOrdered := by cbv
  obtain ⟨l, hl, hordered⟩ := exists_ok_of_toOption hlinked
  have hcreates : (l.ordered.mapM (Ddl.create .postgres)).toBool := by
    rw [hordered]
    rfl
  have htables : ∀ t ∈ forum.tables, (t.compile .postgres).toBool := by decide
  obtain ⟨compiled, h⟩ := @exists_compile forum l {} hl hcreates htables
  obtain ⟨l', creates, hl', hagrees⟩ := agrees_of_compile h
  obtain rfl : l = l' := by simpa [hl] using hl'
  have hmap : forumOrdered.mapM (Ddl.createSql .postgres) = .ok forumDdl := by rfl
  have hddl : compiled.ddl = forumDdl := by
    obtain ⟨concrete, hconcrete, htexts⟩ := mapM_map_eq_ok.1 hmap
    have hsame := mapM_eq_ok.2 (hagrees.created.imp fun _ _ hcreated => hcreated.create)
    rw [hordered, hconcrete] at hsame
    rw [hagrees.ddl, ← Except.ok.inj hsame]
    exact htexts
  exact ⟨compiled, l, creates, h, hl, hordered, hddl, hagrees⟩

end EntitySql
