import EntitySql.Proofs.Link.Accepted
import EntitySql.Proofs.Schema.Added
import EntitySql.Proofs.Schema.CamelCase

/-! Catalogs that are refused for the names of columns. Such a refusal tells which table is at fault, and it is never one
whose columns have the names derived from camel-case fields, unless a field was added to it twice. -/
namespace EntitySql
variable {c : Catalog} {t : Table} {cs : List Column}

namespace Link

theorem duplicateColumn_of_link {table column : String} (h : c.link = .error (.duplicateColumn table column)) :
    (c.tables.map Table.qualifiedName).Nodup ∧
      ∃ i, checkColumnNames (c.table i) = .error (.duplicateColumn table column) := by
  cases htables : linkTables c with
  | ok tables =>
    obtain ⟨path, -, he⟩ := isCycle_of_emissionOrder htables ((link_eq_error htables).1 h)
    cases he
  | error e =>
    rw [Catalog.link, htables] at h
    rw [Except.error.inj h] at htables
    obtain hnames | ⟨hnames, i, hcolumns | hreference⟩ := failsOnly_linkTables _ htables
    · obtain ⟨_, he⟩ := eq_of_checkTableNames hnames
      cases he
    · exact ⟨checkTableNames_eq_ok.1 hnames, i, hcolumns⟩
    · exact hreference.elim

theorem link_singleton {e : CompileError} (h : checkColumnNames t = .error e) : (Catalog.mk [t]).link = .error e := by
  have htable : linkTable ⟨[t]⟩ 0 = .error e := by
    unfold linkTable
    change (checkColumnNames t >>= _) = _
    rw [h]
    rfl
  have htables : linkTables ⟨[t]⟩ = .error e := by
    unfold linkTables
    change ([(0 : Fin 1)].mapM (linkTable ⟨[t]⟩)) = _
    rw [List.mapM_cons, htable]
    rfl
  rw [Catalog.link, htables]
  rfl

/-- The names of a table's columns are in order exactly if no catalog is refused for them. -/
theorem checkColumnNames_eq_ok_iff : checkColumnNames t = .ok () ↔
    ∀ c : Catalog, t ∈ c.tables → ∀ column, c.link ≠ .error (.duplicateColumn t.qualifiedName column) := by
  constructor
  · intro hok c ht column he
    obtain ⟨hnodup, i, hi⟩ := duplicateColumn_of_link he
    obtain ⟨column', heq⟩ := eq_of_checkColumnNames hi
    have hname : (c.table i).qualifiedName = t.qualifiedName := (CompileError.duplicateColumn.inj heq).1.symm
    -- no other table of the catalog has this name
    have htable : c.table i = t := List.inj_on_of_nodup_map hnodup (List.getElem_mem i.isLt) ht hname
    rw [htable, hok] at hi
    cases hi
  · intro hnone
    cases h : checkColumnNames t with
    | ok => rfl
    | error e =>
      obtain ⟨column, rfl⟩ := eq_of_checkColumnNames h
      exact absurd (link_singleton h) (hnone ⟨[t]⟩ List.mem_cons_self column)

end Link

/-- A column with a camel-case field and the name derived from it. -/
def Column.IsDerived (c : Column) : Prop :=
  isCamelCase c.field = true ∧ c.name = derivedName c.field

instance (c : Column) : Decidable c.IsDerived :=
  inferInstanceAs (Decidable (_ ∧ _))

theorem nodup_names_of_derived (hfields : (cs.map Column.field).Nodup) (h : ∀ column ∈ cs, column.IsDerived) :
    (cs.map Column.name).Nodup := by
  rw [List.Nodup, List.pairwise_map] at hfields ⊢
  refine hfields.imp_of_mem fun {a b} ha hb hne heq => hne ?_
  obtain ⟨hcamel, hname⟩ := h a ha
  obtain ⟨hcamel', hname'⟩ := h b hb
  rw [hname, hname'] at heq
  exact (derivedName_inj hcamel hcamel').1 heq

/-- Of columns with derived names those are kept that are the first of their fields, so a name comes twice exactly if a
field does. -/
theorem Table.Gathers.checkColumnNames_iff (h : t.Gathers cs) (hderived : ∀ column ∈ cs, column.nameFilled.IsDerived) :
    Link.checkColumnNames t = .ok () ↔ (cs.map Column.field).Nodup := by
  have hcolumns : ∀ column ∈ t.columns.toList, column.IsDerived := by
    intro column hcolumn
    rw [h.columns_eq] at hcolumn
    obtain ⟨added, hadded, rfl⟩ := List.mem_map.1 hcolumn
    exact hderived added (mem_of_mem_firsts hadded)
  rw [Link.checkColumnNames_eq_ok, and_iff_left (nodup_names_of_derived t.columns.nodup_fields hcolumns),
    h.duplicates_eq, List.map_eq_nil_iff, repeated_eq_nil_iff]

/-- Different camel-case names have different derived names. So no catalog is refused for the column names of a table
whose fields are camel-case, each added once, and whose columns have the names derived from them. A table that is built
from such columns, with their names given or left out, is refused for them exactly if a field was added twice. -/
theorem derived_names_differ :
    (∀ name other, isCamelCase name = true → isCamelCase other = true → name ≠ other →
      derivedName name ≠ derivedName other) ∧
    (∀ t : Table, t.duplicates = [] → (∀ column ∈ t.columns.toList, column.IsDerived) →
      ∀ c : Catalog, t ∈ c.tables → ∀ column, c.link ≠ .error (.duplicateColumn t.qualifiedName column)) ∧
    ∀ (start : Table.Start) (edits : List Table.Edit),
      (∀ column ∈ Table.added edits, column.nameFilled.IsDerived) →
      (((Table.added edits).map Column.field).Nodup ↔
        ∀ c : Catalog, start.table.edited edits ∈ c.tables →
          ∀ column, c.link ≠ .error (.duplicateColumn (start.table.edited edits).qualifiedName column)) := by
  refine ⟨?_, ?_, ?_⟩
  · intro name other hname hother hne heq
    exact hne ((derivedName_inj hname hother).1 heq)
  · intro t hadded hderived
    have hnames := nodup_names_of_derived t.columns.nodup_fields hderived
    exact Link.checkColumnNames_eq_ok_iff.1 (Link.checkColumnNames_eq_ok.2 ⟨hadded, hnames⟩)
  · intro start edits hderived
    have hgathers := start.gathers.edited edits
    rw [List.nil_append] at hgathers
    rw [← hgathers.checkColumnNames_iff hderived]
    exact Link.checkColumnNames_eq_ok_iff

/-- Steps that add fields which differ in the case of letters only. -/
def profileEdits : List Table.Edit := [
  .addColumn { field := "userId", kind := .long }, .inNamespace "app", .addColumn { field := "userID", kind := .string },
  .addColumn { field := "userid", name := "USERID", kind := .string }]

def profile : Table :=
  (Table.Start.ofEntity "profile").table.edited profileEdits

/-- The profile, and a table where a field that is not camel-case has the derived name of another. -/
def profiles : Catalog where
  tables := [profile,
    (Table.ofName "LEGACY").addColumn { field := "userId", kind := .long }
      |>.addColumn { field := "user_id", kind := .long }]

set_option maxRecDepth 8000 in
/-- The catalog is refused for the other table, and none for the profile unless a field is added to it again. -/
theorem profile_names_differ :
    derivedName "userId" ≠ derivedName "userID" ∧
    profile.columns.toList.map Column.name = ["USER_ID", "USER_I_D", "USERID"] ∧
    profiles.link = .error (.duplicateColumn "LEGACY" "USER_ID") ∧
    (∀ column, profiles.link ≠ .error (.duplicateColumn "app.PROFILE" column)) ∧
    (∀ c : Catalog, profile ∈ c.tables → ∀ column, c.link ≠ .error (.duplicateColumn "app.PROFILE" column)) ∧
    (Catalog.mk [profile.addColumn { field := "userID", kind := .int }]).link =
      .error (.duplicateColumn "app.PROFILE" "USER_I_D") := by
  obtain ⟨hnames, htables, hedits⟩ := derived_names_differ
  have hprofile : profile.qualifiedName = "app.PROFILE" := by cbv
  have hderived : ∀ column ∈ Table.added profileEdits, column.nameFilled.IsDerived := by decide
  have hcolumns : ∀ column ∈ profile.columns.toList, column.IsDerived := by decide
  refine ⟨hnames "userId" "userID" (by decide) (by decide) (by decide), by cbv, by cbv, ?_, ?_, by cbv⟩
  · rw [← hprofile]
    exact htables profile (by cbv) hcolumns profiles List.mem_cons_self
  · rw [← hprofile]
    exact (hedits (.ofEntity "profile") profileEdits hderived).1 (by decide)

end EntitySql
