import EntitySql.Proofs.Ddl.Created
import EntitySql.Proofs.Text.Quoted

/-! The names of the constraints of a table. A name joins the table, the columns and a mark of the kind by underscores,
and columns may have underscores themselves. Main statement: the names differ exactly if no two unique keys and no two
foreign keys have columns that are made up of the same words. -/
namespace EntitySql
variable {c : Catalog} {l : LinkedCatalog c} {t : LinkedTable c} {d : Dialect}

/-- The words that names are made up of: what stands between underscores. -/
def words (names : List String) : List (List Char) :=
  names.flatMap fun name => name.toList.splitOn '_'

@[simp]
theorem words_nil : words [] = [] :=
  rfl

theorem words_cons (name : String) (names : List String) :
    words (name :: names) = name.toList.splitOn '_' ++ words names :=
  List.flatMap_cons

theorem words_append (a b : List String) : words (a ++ b) = words a ++ words b :=
  List.flatMap_append

theorem splitOn_underscore (before after : List Char) :
    (before ++ '_' :: after).splitOn '_' = before.splitOn '_' ++ after.splitOn '_' := by
  rw [List.splitOn_eq_splitOnP, List.splitOn_eq_splitOnP, List.splitOn_eq_splitOnP]
  exact List.splitOnP_append_cons before after (by decide)

/-- Joined by underscores names leave nothing but their words. -/
theorem splitOn_joined {names : List String} (h : names ≠ []) :
    ("_".intercalate names).toList.splitOn '_' = words names := by
  rw [String.toList_intercalate]
  induction names with
  | nil => exact absurd rfl h
  | cons name names ih =>
    cases names with
    | nil => simp [words_cons]
    | cons next rest =>
      have hrest := ih (List.cons_ne_nil next rest)
      rw [List.map_cons] at hrest
      rw [words_cons, ← hrest, List.map_cons, List.map_cons, List.intercalate_cons_cons, List.append_assoc]
      exact splitOn_underscore _ _

theorem joined_inj {a b : List String} (ha : a ≠ []) (hb : b ≠ []) :
    "_".intercalate a = "_".intercalate b ↔ words a = words b := by
  rw [← splitOn_joined ha, ← splitOn_joined hb]
  have hback : ∀ s : String, ['_'].intercalate (s.toList.splitOn '_') = s.toList :=
    fun s => List.intercalate_splitOn '_'
  refine ⟨fun h => by rw [h], fun h => String.toList_inj.1 ?_⟩
  rw [← hback, h, hback]

namespace Ddl

/-- Marks are single words, so that names with different marks differ. -/
theorem constraintName_inj {table : Table} {a b : List String} {mark mark' : String} (hmark : '_' ∉ mark.toList)
    (hmark' : '_' ∉ mark'.toList) :
    constraintName table a mark = constraintName table b mark' ↔ words a = words b ∧ mark = mark' := by
  have hword : ∀ mark : String, '_' ∉ mark.toList → words [mark] = [mark.toList] := by
    intro mark hmark
    have hsplit : (['_'].intercalate [mark.toList]).splitOn '_' = [mark.toList] :=
      List.splitOn_intercalate '_' (by simpa using hmark) (by simp)
    simpa [words_cons] using hsplit
  rw [constraintName, constraintName, joined_inj (by simp) (by simp), words_append, words_append, hword mark hmark,
    hword mark' hmark', words_cons, words_cons, List.append_assoc, List.append_assoc, List.append_cancel_left_eq]
  constructor
  · intro h
    obtain ⟨hwords, hlast⟩ := List.append_inj' h rfl
    exact ⟨hwords, String.toList_inj.1 (List.singleton_inj.1 hlast)⟩
  · rintro ⟨hwords, rfl⟩
    rw [hwords]

theorem constraintName_ne {table : Table} {a b : List String} {mark mark' : String} (hmark : '_' ∉ mark.toList)
    (hmark' : '_' ∉ mark'.toList) (hne : mark ≠ mark') : constraintName table a mark ≠ constraintName table b mark' :=
  fun h => hne ((constraintName_inj hmark hmark').1 h).2

theorem nodup_constraintNames_iff {α : Type} (table : Table) {mark : String} (hmark : '_' ∉ mark.toList)
    (columns : α → List String) (keys : List α) :
    (keys.map fun key => constraintName table (columns key) mark).Nodup ↔
      (keys.map fun key => words (columns key)).Nodup := by
  simp only [List.Nodup, List.pairwise_map, ne_eq, constraintName_inj hmark hmark, and_true]

def Constraint.columns : Constraint → List String
  | primaryKey _ columns => columns
  | unique _ columns => columns
  | foreignKey _ columns _ _ => columns

def Create.constraints : Create → List Constraint
  | table _ _ constraints => constraints
  | view _ _ _ _ => []

theorem Constraint.sql_eq_name (d : Dialect) (k : Constraint) :
    ∃ rest, k.sql d = "CONSTRAINT " ++ quoteName k.name ++ rest := by
  have hkey : ∀ a b x y z : String, ∃ rest, a ++ b ++ x ++ y ++ z = a ++ b ++ rest :=
    fun a b x y z => ⟨x ++ (y ++ z), by simp only [String.append_assoc]⟩
  have hreference : ∀ a b x y z q r w v : String, ∃ rest, a ++ b ++ x ++ y ++ z ++ q ++ r ++ w ++ v = a ++ b ++ rest :=
    fun a b x y z q r w v => ⟨x ++ (y ++ (z ++ (q ++ (r ++ (w ++ v))))), by simp only [String.append_assoc]⟩
  cases k with
  | primaryKey name columns => exact hkey _ _ _ _ _
  | unique name columns => exact hkey _ _ _ _ _
  | foreignKey name columns target targetColumns => exact hreference _ _ _ _ _ _ _ _ _

theorem columns_constraints : (constraints d t).map Constraint.columns =
    (if t.primaryKey.isEmpty then [] else [t.primaryKey]) ++ t.uniqueKeys ++ t.foreignKeys.map (·.columns) := by
  unfold constraints
  split <;> simp [Constraint.columns, Function.comp_def]

theorem names_constraints : (constraints d t).map Constraint.name =
    (if t.primaryKey.isEmpty then [] else [constraintName t.schema [] "PK"]) ++
      t.uniqueKeys.map (fun key => constraintName t.schema key "UK") ++
      t.foreignKeys.map fun key => constraintName t.schema key.columns "FK" := by
  unfold constraints
  split <;> simp [Constraint.name, Function.comp_def]

/-- Names of different kinds differ by their marks, so names can only meet within a kind. -/
theorem nodup_names_iff : ((constraints d t).map Constraint.name).Nodup ↔
    (t.uniqueKeys.map words).Nodup ∧ (t.foreignKeys.map fun key => words key.columns).Nodup := by
  have hpk : '_' ∉ "PK".toList := by decide
  have huk : '_' ∉ "UK".toList := by decide
  have hfk : '_' ∉ "FK".toList := by decide
  rw [names_constraints, ← nodup_constraintNames_iff t.schema huk (fun key => key),
    ← nodup_constraintNames_iff t.schema hfk (fun key : ForeignKey c.size => key.columns)]
  have hprimary : (if t.primaryKey.isEmpty then [] else [constraintName t.schema [] "PK"]).Nodup := by
    split <;> simp
  have hmem : ∀ name ∈ if t.primaryKey.isEmpty then [] else [constraintName t.schema [] "PK"],
      name = constraintName t.schema [] "PK" := by
    split <;> simp
  generalize (if t.primaryKey.isEmpty then [] else [constraintName t.schema [] "PK"]) = names at hprimary hmem
  have hother : ∀ mark : String, '_' ∉ mark.toList → "PK" ≠ mark → ∀ a ∈ names, ∀ key,
      a ≠ constraintName t.schema key mark := by
    intro mark hmark hne a ha key
    rw [hmem a ha]
    exact constraintName_ne hpk hmark hne
  have hkeys : ∀ key key' : List String, constraintName t.schema key "UK" ≠ constraintName t.schema key' "FK" :=
    fun _ _ => constraintName_ne huk hfk (by decide)
  simp only [List.nodup_append, List.mem_append, List.mem_map]
  constructor
  · rintro ⟨⟨-, hukeys, -⟩, hfkeys, -⟩
    exact ⟨hukeys, hfkeys⟩
  · rintro ⟨hukeys, hfkeys⟩
    refine ⟨⟨hprimary, hukeys, ?_⟩, hfkeys, ?_⟩
    · rintro a ha b ⟨key, -, rfl⟩
      exact hother "UK" huk (by decide) a ha key
    · rintro a (ha | ⟨key, -, rfl⟩) b ⟨key', -, rfl⟩
      · exact hother "FK" hfk (by decide) a ha key'.columns
      · exact hkeys key key'.columns

theorem eq_table_of_create (hbase : t.viewBase = none) {s : Create} (hs : create d t = .ok s) :
    ∃ lines, s = .table t.schema.objectName lines (constraints d t) := by
  simp only [create, hbase] at hs
  obtain ⟨lines, -, hpure⟩ := bind_eq_ok.1 hs
  exact ⟨lines, (pure_eq_ok.1 hpure).symm⟩

end Ddl

/-- The statement of a table has a constraint for the primary key if there is one, one for each unique key and one for
each foreign key. Their names differ exactly if neither two unique keys nor two foreign keys have columns of the same
words. -/
theorem named_apart_iff (h : c.link = .ok l) (ht : t ∈ l.tables) (htable : t.isView = false) {s : Ddl.Create}
    (hs : Ddl.create d t = .ok s) :
    (∃ lines, s = .table t.schema.objectName lines s.constraints) ∧
    s.constraints.map Ddl.Constraint.columns =
      (if t.primaryKey.isEmpty then [] else [t.primaryKey]) ++ t.uniqueKeys ++ t.foreignKeys.map (·.columns) ∧
    (∀ k ∈ s.constraints, ∃ rest, k.sql d = "CONSTRAINT " ++ quoteName k.name ++ rest) ∧
    ((s.constraints.map fun k => quoteName k.name).Nodup ↔
      (t.uniqueKeys.map words).Nodup ∧ (t.foreignKeys.map fun key => words key.columns).Nodup) := by
  have hview := Link.isView_of_linkTables (tables_of_link h) ht
  rw [htable, Option.isSome_eq_false_iff, Option.isNone_iff_eq_none] at hview
  obtain ⟨lines, rfl⟩ := Ddl.eq_table_of_create hview hs
  refine ⟨⟨lines, rfl⟩, Ddl.columns_constraints, fun k _ => k.sql_eq_name d, ?_⟩
  rw [← Ddl.nodup_names_iff (d := d)]
  simp only [List.Nodup, List.pairwise_map, ne_eq, quoteName_inj, Ddl.Create.constraints]

/-- Ports, and ships with a port where they are at home, given by its country and place and again by its code. -/
def fleet : Catalog where
  tables := [
    (Table.ofName "PORT").addColumn { field := "country", kind := .string, primaryKey := true }
      |>.addColumn { field := "place", kind := .string, primaryKey := true }
      |>.addColumn { field := "code", kind := .string, unique := true }
      |>.addColumn { field := "mainCode", kind := .string, join := some { table := "PORT", field := some "code" } }
      |>.withUnique { fields := ["place", "code"] },
    (Table.ofName "SHIP").addColumn { field := "id", kind := .long, primaryKey := true }
      |>.addColumn { field := "home", kind := .string, join := some { table := "PORT", field := some "country" } }
      |>.addColumn { field := "port", kind := .string, join := some { table := "PORT", field := some "place" } }
      |>.addColumn { field := "homePort", kind := .string, join := some { table := "PORT", field := some "code" } }
      |>.addColumn { field := "nextPort", kind := .string, join := some { table := "PORT", field := some "code" } }]

def fleetPort : LinkedTable fleet where
  index := ⟨0, by decide⟩
  primaryKey := ["COUNTRY", "PLACE"]
  uniqueKeys := [["CODE"], ["PLACE", "CODE"]]
  references := [⟨"mainCode", "MAIN_CODE", ⟨0, by decide⟩, "code", "CODE"⟩]
  foreignKeys := [⟨⟨0, by decide⟩, [("MAIN_CODE", "CODE")]⟩]
  viewBase := none

def fleetShip : LinkedTable fleet where
  index := ⟨1, by decide⟩
  primaryKey := ["ID"]
  uniqueKeys := []
  references := [
    ⟨"home", "HOME", ⟨0, by decide⟩, "country", "COUNTRY"⟩,
    ⟨"port", "PORT", ⟨0, by decide⟩, "place", "PLACE"⟩,
    ⟨"homePort", "HOME_PORT", ⟨0, by decide⟩, "code", "CODE"⟩,
    ⟨"nextPort", "NEXT_PORT", ⟨0, by decide⟩, "code", "CODE"⟩]
  foreignKeys := [
    ⟨⟨0, by decide⟩, [("HOME", "COUNTRY"), ("PORT", "PLACE")]⟩,
    ⟨⟨0, by decide⟩, [("HOME_PORT", "CODE")]⟩,
    ⟨⟨0, by decide⟩, [("NEXT_PORT", "CODE")]⟩]
  viewBase := none

set_option maxRecDepth 8000 in
theorem fleetPort_named_apart : ∃ l s, fleet.link = .ok l ∧ fleetPort ∈ l.tables ∧ fleetPort.isView = false ∧
    Ddl.create .postgres fleetPort = .ok s ∧
    s.constraints.map Ddl.Constraint.name = ["PORT_PK", "PORT_CODE_UK", "PORT_PLACE_CODE_UK", "PORT_MAIN_CODE_FK"] ∧
    (s.constraints.map fun k => quoteName k.name).Nodup := by
  have hlinked : fleet.link.toOption.map (·.tables) = some [fleetPort, fleetShip] := by cbv
  obtain ⟨l, hl, htables⟩ := exists_ok_of_toOption hlinked
  have ht : fleetPort ∈ l.tables := by simp [htables]
  have hnames : (Ddl.create .postgres fleetPort).toOption.map (fun s => s.constraints.map Ddl.Constraint.name) =
      some ["PORT_PK", "PORT_CODE_UK", "PORT_PLACE_CODE_UK", "PORT_MAIN_CODE_FK"] := by rfl
  obtain ⟨s, hs, hlist⟩ := exists_ok_of_toOption hnames
  obtain ⟨-, -, -, hiff⟩ := named_apart_iff hl ht rfl hs
  exact ⟨l, s, hl, ht, rfl, hs, hlist, hiff.2 (by decide)⟩

set_option maxRecDepth 8000 in
/-- Two foreign keys of one name: that on country and place, and that on the code. -/
theorem fleetShip_named_alike : ∃ l s, fleet.link = .ok l ∧ fleetShip ∈ l.tables ∧ fleetShip.isView = false ∧
    Ddl.create .postgres fleetShip = .ok s ∧
    s.constraints.map Ddl.Constraint.columns = [["ID"], ["HOME", "PORT"], ["HOME_PORT"], ["NEXT_PORT"]] ∧
    s.constraints.map Ddl.Constraint.name =
      ["SHIP_PK", "SHIP_HOME_PORT_FK", "SHIP_HOME_PORT_FK", "SHIP_NEXT_PORT_FK"] ∧
    ¬(s.constraints.map Ddl.Constraint.name).Nodup := by
  have hlinked : fleet.link.toOption.map (·.tables) = some [fleetPort, fleetShip] := by cbv
  obtain ⟨l, hl, htables⟩ := exists_ok_of_toOption hlinked
  have hcreated : (Ddl.create .postgres fleetShip).toOption.map (fun s =>
      (s.constraints.map Ddl.Constraint.columns, s.constraints.map Ddl.Constraint.name)) =
      some ([["ID"], ["HOME", "PORT"], ["HOME_PORT"], ["NEXT_PORT"]],
        ["SHIP_PK", "SHIP_HOME_PORT_FK", "SHIP_HOME_PORT_FK", "SHIP_NEXT_PORT_FK"]) := by rfl
  obtain ⟨s, hs, hlists⟩ := exists_ok_of_toOption hcreated
  obtain ⟨hcolumns, hnames⟩ := Prod.mk.inj hlists
  refine ⟨l, s, hl, by simp [htables], rfl, hs, hcolumns, hnames, ?_⟩
  rw [hnames]
  decide

end EntitySql
