import EntitySql.Proofs.Ddl.Created
import EntitySql.Proofs.Query.Named
import EntitySql.Proofs.Text.Quoted

/-! The names of tables in the statements of a linked catalog. Linking tells tables apart by their full names; a dialect
without namespaces writes the bare names only, so there tables of one bare name meet, and only those. -/
namespace EntitySql
variable {c : Catalog} {l : LinkedCatalog c} {t u : LinkedTable c} {d : Dialect}

theorem Table.qualifiedName_eq (a : Table) : a.qualifiedName = (a.ns.map (· ++ ".")).getD "" ++ a.name := by
  unfold Table.qualifiedName
  cases a.ns <;> simp

/-- Tables of different places differ in their namespaces or in their bare names. -/
theorem objectName_ne_of_link (h : c.link = .ok l) (hne : t.index ≠ u.index) :
    t.schema.objectName ≠ u.schema.objectName := by
  intro heq
  obtain ⟨hns, hname⟩ := ObjectName.mk.inj heq
  have hqualified : (c.table t.index).qualifiedName = (c.table u.index).qualifiedName := by
    rw [Table.qualifiedName_eq, Table.qualifiedName_eq]
    exact congrArg₂ (fun ns name => (Option.map (· ++ ".") ns).getD "" ++ name) hns hname
  exact hne ((Link.qualifiedName_inj (tables_of_link h)).1 hqualified)

theorem qualify_eq_iff_of_link (h : c.link = .ok l) (hne : t.index ≠ u.index) :
    d.qualify t.schema.objectName = d.qualify u.schema.objectName ↔
      d.hasNamespaces = false ∧ t.schema.name = u.schema.name := by
  have hobjects := objectName_ne_of_link h hne
  rw [Dialect.qualify_inj]
  cases hd : d.hasNamespaces with
  | false => simp [Table.objectName]
  | true =>
    simp only [true_implies, Bool.true_eq_false, false_and, iff_false]
    rintro ⟨hname, hns⟩
    exact hobjects (by rw [ObjectName.mk.injEq]; exact ⟨hns, hname⟩)

/-- What stands before the name of what a statement creates. -/
def Ddl.Create.opening (d : Dialect) : Create → String
  | table _ _ _ => "CREATE TABLE IF NOT EXISTS "
  | view _ _ _ _ => d.createView ++ " "

theorem Ddl.Create.sql_eq_opening (d : Dialect) (s : Create) :
    ∃ rest, s.sql d = s.opening d ++ d.qualify s.name ++ rest := by
  cases s with
  | table name columns constraints =>
    have hrest : ∀ a b x y z : String, ∃ rest, a ++ b ++ x ++ y ++ z = a ++ b ++ rest :=
      fun a b x y z => ⟨x ++ (y ++ z), by simp only [String.append_assoc]⟩
    exact hrest _ _ _ _ _
  | view name items base joins =>
    have hrest : ∀ a b x y z q r w : String, ∃ rest, a ++ b ++ x ++ y ++ z ++ q ++ r ++ w = a ++ b ++ rest :=
      fun a b x y z q r w => ⟨x ++ (y ++ (z ++ (q ++ (r ++ w)))), by simp only [String.append_assoc]⟩
    exact hrest _ _ _ _ _ _ _ _

/-- Each statement that creates a table of a linked catalog, and each statement of an operation, writes the name of its
own table; a compiled operation works on that and names no other. Of two tables these names differ, unless the dialect
writes no namespaces and the bare names are the same. -/
theorem tables_told_apart (h : c.link = .ok l) (d : Dialect) :
    (∀ t ∈ l.tables,
      (∀ s, Ddl.create d t = .ok s →
        ∃ rest, s.sql d = s.opening d ++ d.qualify t.schema.objectName ++ rest) ∧
      (∀ op p, Query.plan t.schema op = .ok p → ∀ s, s = p.statement ∨ p.followUp = some s →
        ∀ name, Query.Piece.object name ∈ s.pieces ↔ name = t.schema.objectName) ∧
      ∀ op compiled, op.compile d t.schema = .ok compiled →
        Query.NamesOnly d t.schema.objectName (Query.columnNames t.schema) op compiled.statement.sql ∧
        ∀ s ∈ compiled.followUp,
          Query.NamesOnly d t.schema.objectName (Query.columnNames t.schema) op s.sql) ∧
    ∀ t ∈ l.tables, ∀ u ∈ l.tables, t.index ≠ u.index →
      (d.qualify t.schema.objectName = d.qualify u.schema.objectName ↔
        d.hasNamespaces = false ∧ t.schema.name = u.schema.name) := by
  refine ⟨fun t _ => ⟨?_, ?_, fun op compiled => Query.namesOnly_of_compile⟩,
    fun t _ u _ hne => qualify_eq_iff_of_link h hne⟩
  · intro s hs
    have hopening := s.sql_eq_opening d
    rwa [(Ddl.names_of_create hs).1] at hopening
  · intro op p hp s hs name
    exact (Query.planned_of_plan hp).object_mem_iff hs

theorem Dialect.qualify_sqlite (name : ObjectName) : sqlite.qualify name = quoteName name.name := by
  unfold Dialect.qualify
  cases name.ns <;> rfl

/-- Two tables of one bare name, one of them in a namespace. -/
def trail : Catalog where
  tables := [
    (Table.ofName "T").addColumn { field := "id", kind := .long, primaryKey := true },
    ((Table.ofName "T").inNamespace "audit").addColumn { field := "id", kind := .long, primaryKey := true }]

set_option maxRecDepth 8000 in
theorem trail_told_apart : ∃ l, trail.link = .ok l ∧ ∃ t ∈ l.tables, ∃ u ∈ l.tables,
    t.schema.objectName = ⟨none, "T"⟩ ∧ u.schema.objectName = ⟨some "audit", "T"⟩ ∧
      Dialect.postgres.qualify t.schema.objectName ≠ Dialect.postgres.qualify u.schema.objectName := by
  have hlinked : (trail.link.toOption.map fun l => l.tables.map fun t => (t.index.val, t.schema.objectName)) =
      some [(0, ⟨none, "T"⟩), (1, ⟨some "audit", "T"⟩)] := by cbv
  obtain ⟨l, h, hlist⟩ := exists_ok_of_toOption hlinked
  obtain ⟨t, rest, htables, ht, hrest⟩ := List.map_eq_cons_iff.1 hlist
  obtain ⟨u, rfl, hu⟩ := List.map_eq_singleton_iff.1 hrest
  obtain ⟨htindex, htname⟩ := Prod.mk.inj ht
  obtain ⟨huindex, huname⟩ := Prod.mk.inj hu
  have hne : t.index ≠ u.index := by
    intro heq
    rw [heq] at htindex
    omega
  have happart := (tables_told_apart h .postgres).2 t (by simp [htables]) u (by simp [htables]) hne
  refine ⟨l, h, t, by simp [htables], u, by simp [htables], htname, huname, ?_⟩
  rw [Ne, happart]
  simp [Dialect.hasNamespaces]

set_option maxRecDepth 8000 in
/-- Without namespaces both statements create the same table, the second one none at all. -/
theorem trail_meets : ∃ l, trail.link = .ok l ∧ ∃ t ∈ l.tables, ∃ u ∈ l.tables, t.index ≠ u.index ∧
    ∀ v, v = t ∨ v = u → ∃ s rest, Ddl.create .sqlite v = .ok s ∧
      s.sql .sqlite = "CREATE TABLE IF NOT EXISTS " ++ quoteName "T" ++ rest := by
  have hlinked : (trail.link.toOption.map fun l => l.tables.map fun t =>
      (t.index.val, (Ddl.create .sqlite t).toOption.map fun s => (s.opening .sqlite, s.name.name))) =
      some [(0, some ("CREATE TABLE IF NOT EXISTS ", "T")), (1, some ("CREATE TABLE IF NOT EXISTS ", "T"))] := by cbv
  have hcreated (v : LinkedTable trail) (hv : (Ddl.create .sqlite v).toOption.map
      (fun s => (s.opening .sqlite, s.name.name)) = some ("CREATE TABLE IF NOT EXISTS ", "T")) :
      ∃ s rest, Ddl.create .sqlite v = .ok s ∧
        s.sql .sqlite = "CREATE TABLE IF NOT EXISTS " ++ quoteName "T" ++ rest := by
    obtain ⟨s, hs, htext⟩ := exists_ok_of_toOption hv
    obtain ⟨hopening, hname⟩ := Prod.mk.inj htext
    obtain ⟨rest, hsql⟩ := s.sql_eq_opening .sqlite
    refine ⟨s, rest, hs, ?_⟩
    rw [hsql, hopening, Dialect.qualify_sqlite, hname]
  obtain ⟨l, h, hlist⟩ := exists_ok_of_toOption hlinked
  obtain ⟨t, rest, htables, ht, hrest⟩ := List.map_eq_cons_iff.1 hlist
  obtain ⟨u, rfl, hu⟩ := List.map_eq_singleton_iff.1 hrest
  obtain ⟨htindex, ht⟩ := Prod.mk.inj ht
  obtain ⟨huindex, hu⟩ := Prod.mk.inj hu
  refine ⟨l, h, t, by simp [htables], u, by simp [htables], ?_, ?_⟩
  · intro heq
    rw [heq] at htindex
    omega
  · intro v hv
    obtain rfl | rfl := hv
    · exact hcreated _ ht
    · exact hcreated _ hu

end EntitySql
