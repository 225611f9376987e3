import EntitySql.Ddl.Generate
import EntitySql.Proofs.Success

/-! The texts of the statements that create and drop tables and views: which names stand where in them, and in which
words. What is created is named first, then come its columns in their order, and then the tables that it refers to. -/
namespace EntitySql
variable {c : Catalog} {t : LinkedTable c} {d : Dialect}

/-- The tables that the statement of a table names, and the names they have there: the targets of its foreign keys, or
the base of a view and the tables that are joined to it. -/
def LinkedTable.named (d : Dialect) (t : LinkedTable c) : List (Fin c.size × ObjectName) :=
  match t.viewBase with
  | some base =>
    (base, (c.table base).objectName) ::
      (Ddl.joiningReferences [] t.references).map fun r => (r.target, Ddl.referenceName d t.schema (c.table r.target))
  | none => t.foreignKeys.map fun key => (key.target, Ddl.referenceName d t.schema (c.table key.target))

namespace Ddl

/-- The text that drops a table or view. -/
def Drops (d : Dialect) (t : LinkedTable c) (text : String) : Prop :=
  text = (if t.isView then "DROP VIEW IF EXISTS " else "DROP TABLE IF EXISTS ") ++ d.qualify t.schema.objectName

theorem drops_dropSql (d : Dialect) (t : LinkedTable c) : Drops d t (dropSql d t) := by
  unfold Drops dropSql
  split <;> rfl

/-- The text of a column of a table: what defines the column follows its name. -/
def ColumnText (name text : String) : Prop :=
  ∃ definition, text = quoteName name ++ " " ++ definition

/-- The text of the primary key or of a unique key. -/
def KeyText (text : String) : Prop :=
  ∃ (name : String) (columns : List String),
    text = "CONSTRAINT " ++ quoteName name ++ " PRIMARY KEY (" ++ ", ".intercalate (columns.map quoteName) ++ ")" ∨
    text = "CONSTRAINT " ++ quoteName name ++ " UNIQUE (" ++ ", ".intercalate (columns.map quoteName) ++ ")"

/-- The text of a foreign key to a table. -/
def ReferenceText (d : Dialect) (target : ObjectName) (text : String) : Prop :=
  ∃ (name : String) (columns targetColumns : List String),
    text = "CONSTRAINT " ++ quoteName name ++ " FOREIGN KEY (" ++ ", ".intercalate (columns.map quoteName) ++
      ") REFERENCES " ++ d.qualify target ++ " (" ++ ", ".intercalate (targetColumns.map quoteName) ++ ")"

/-- The text of a column of a view: its name comes last. -/
def ItemText (name text : String) : Prop :=
  ∃ source, text = source ++ "." ++ quoteName name ∨ text = source ++ " AS " ++ quoteName name

/-- The text of a join of a table to the base of a view. -/
def JoinText (d : Dialect) (table : ObjectName) (text : String) : Prop :=
  ∃ condition, text = "\nJOIN " ++ d.qualify table ++ " ON B." ++ condition

/-- The text that creates a table or view of a name, with columns. It names further tables: those that foreign keys
refer to, or the base of a view and the tables joined to it. -/
inductive Creates (d : Dialect) (name : ObjectName) (columns : List String) : List ObjectName → String → Prop where
  | table {targets : List ObjectName} {lines keys references : List String}
      (hlines : List.Forall₂ ColumnText columns lines) (hkeys : ∀ key ∈ keys, KeyText key)
      (hreferences : List.Forall₂ (ReferenceText d) targets references) :
      Creates d name columns targets ("CREATE TABLE IF NOT EXISTS " ++ d.qualify name ++ " (\n" ++
        ",\n".intercalate ((lines ++ keys ++ references).map ("    " ++ ·)) ++ "\n)")
  | view {base : ObjectName} {joined : List ObjectName} {items joins : List String}
      (hitems : List.Forall₂ ItemText columns items) (hjoins : List.Forall₂ (JoinText d) joined joins) :
      Creates d name columns (base :: joined) (d.createView ++ " " ++ d.qualify name ++ " AS SELECT " ++
        ", ".intercalate items ++ "\nFROM " ++ d.qualify base ++ " B" ++ String.join joins)

/-- A view gives a column its name, by renaming the column it takes unless that has the name. -/
theorem outputName_of_itemOf {view base : Table} {joined : List (Reference c.size)} {column : Column}
    {item : SelectItem} (h : itemOf d view base joined column = .ok item) : item.outputName = column.name := by
  unfold itemOf at h
  split at h
  · next source found _ =>
    rw [← pure_eq_ok.1 h, SelectItem.outputName]
    dsimp only
    split
    · next hname => exact hname
    · rfl
  · exact absurd h throw_ne_ok

theorem name_of_columnLine {table : Table} {column : Column} {line : ColumnLine}
    (h : columnLine d table column = .ok line) : line.name = column.name := by
  obtain ⟨type, -, hpure⟩ := bind_eq_ok.1 h
  rw [← pure_eq_ok.1 hpure]

theorem table_of_joinOf {view base : Table} {r : Reference c.size} {join : Join}
    (h : joinOf d view base r = .ok join) : join.table = referenceName d view (c.table r.target) := by
  unfold joinOf at h
  split at h
  · rw [← pure_eq_ok.1 h]
  · exact absurd h throw_ne_ok

theorem columnText_sql (line : ColumnLine) : ColumnText line.name line.sql :=
  ⟨_, by rw [ColumnLine.sql, String.append_assoc, String.append_assoc]⟩

theorem itemText_sql (d : Dialect) (item : SelectItem) : ItemText item.outputName (item.sql d) := by
  unfold SelectItem.outputName SelectItem.sql
  cases item.newName? with
  | none => exact ⟨(item.source.map d.qualify).getD "B", .inl (String.append_empty)⟩
  | some name =>
    exact ⟨(item.source.map d.qualify).getD "B" ++ "." ++ quoteName item.column, .inr (String.append_assoc).symm⟩

theorem joinText_sql (d : Dialect) (join : Join) : JoinText d join.table (join.sql d) :=
  ⟨_, by rw [Join.sql, String.append_assoc, String.append_assoc, String.append_assoc, String.append_assoc]⟩

/-- The constraints of a table end with its foreign keys. -/
theorem constraints_eq (d : Dialect) (t : LinkedTable c) : ∃ keys : List Constraint,
    (∀ key ∈ keys, KeyText (key.sql d)) ∧ constraints d t = keys ++ t.foreignKeys.map fun key =>
      .foreignKey (constraintName t.schema key.columns "FK") key.columns
        (referenceName d t.schema (c.table key.target)) key.targetColumns := by
  refine ⟨_, fun key hkey => ?_, rfl⟩
  obtain hkey | hkey := List.mem_append.1 hkey
  · split at hkey
    · cases hkey
    · rw [List.mem_singleton.1 hkey]
      exact ⟨constraintName t.schema [] "PK", t.primaryKey, .inl rfl⟩
  · obtain ⟨columns, -, rfl⟩ := List.mem_map.1 hkey
    exact ⟨constraintName t.schema columns "UK", columns, .inr rfl⟩

theorem Create.sql_table (d : Dialect) (name : ObjectName) (lines : List ColumnLine) (constraints : List Constraint) :
    (table name lines constraints).sql d = "CREATE TABLE IF NOT EXISTS " ++ d.qualify name ++ " (\n" ++
      ",\n".intercalate ((lines.map ColumnLine.sql ++ constraints.map (Constraint.sql d)).map ("    " ++ ·)) ++ "\n)" :=
  rfl

theorem creates_of_createTable {s : Create} (h : createTable d t = .ok s) :
    Creates d t.schema.objectName (t.schema.columns.toList.map (·.name))
      (t.foreignKeys.map fun key => referenceName d t.schema (c.table key.target)) (s.sql d) := by
  obtain ⟨lines, hlines, hpure⟩ := bind_eq_ok.1 h
  obtain ⟨keys, hkeys, hconstraints⟩ := constraints_eq d t
  obtain rfl := pure_eq_ok.1 hpure
  rw [Create.sql_table, hconstraints, List.map_append (f := Constraint.sql d), ← List.append_assoc]
  refine .table ?_ (List.forall_mem_map.2 hkeys) ?_
  · exact forall₂_map_of_mapM hlines fun column line hline => name_of_columnLine hline ▸ columnText_sql line
  · simp only [List.map_map, List.forall₂_map_left_iff, List.forall₂_map_right_iff, List.forall₂_same]
    exact fun key _ => ⟨constraintName t.schema key.columns "FK", key.columns, key.targetColumns, rfl⟩

theorem creates_of_createView {base : Table} {s : Create} (h : createView d t base = .ok s) :
    Creates d t.schema.objectName (t.schema.columns.toList.map (·.name))
      (base.objectName ::
        (joiningReferences [] t.references).map fun r => referenceName d t.schema (c.table r.target)) (s.sql d) := by
  obtain ⟨joins, hjoins, h⟩ := bind_eq_ok.1 h
  obtain ⟨items, hitems, hpure⟩ := bind_eq_ok.1 h
  obtain rfl := pure_eq_ok.1 hpure
  refine .view ?_ ?_
  · exact forall₂_map_of_mapM hitems fun column item hitem => outputName_of_itemOf hitem ▸ itemText_sql d item
  · exact forall₂_map_of_mapM hjoins fun r join hjoin => table_of_joinOf hjoin ▸ joinText_sql d join

/-- What the statement of a table says: the name and the columns of the table, and the tables that it refers to. -/
theorem creates_of_create {s : Create} (h : create d t = .ok s) :
    Creates d t.schema.objectName (t.schema.columns.toList.map (·.name)) ((t.named d).map (·.2)) (s.sql d) := by
  unfold create at h
  unfold LinkedTable.named
  cases hbase : t.viewBase with
  | none =>
    rw [hbase] at h
    rw [List.map_map]
    exact creates_of_createTable h
  | some base =>
    rw [hbase] at h
    rw [List.map_cons, List.map_map]
    exact creates_of_createView h

end Ddl
end EntitySql
