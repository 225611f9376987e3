import EntitySql.Proofs.Json.Yielded
import EntitySql.Proofs.Schema.Encoded

/-! A catalog that was decoded from a text is encoded and decoded again. A table of it owns its columns and has named
them all, so adding the columns that it wrote gives the same columns back. The names of columns that it could not add
are not written, and so they are all that is lost. -/
namespace EntitySql
open Json
open Json.Fields (denote_defaulted denote_list)
variable {depth : Nat} {t : Table} {c : Column} {owner : String}

namespace Column

theorem nameFilled_nameFilled (c : Column) : c.nameFilled.nameFilled = c.nameFilled := by
  by_cases hname : c.name.isEmpty
  · have hfilled : c.nameFilled = { c with name := derivedName c.field } := if_pos hname
    rw [hfilled, nameFilled]
    exact ite_self _
  · have hfilled : c.nameFilled = c := if_neg hname
    rw [hfilled, hfilled]

theorem nameFilled_owner (c : Column) (owner : String) :
    { c with owner }.nameFilled = { c.nameFilled with owner } := by
  rw [nameFilled, nameFilled]
  split <;> rfl

/-- A column as a table holds it: it has the table as owner, and its derived name if it was added without a name. -/
structure Settled (owner : String) (c : Column) : Prop where
  owned : c.owner = owner
  named : c.nameFilled = c

theorem settled_added (c : Column) (owner : String) : Settled owner { c.nameFilled with owner } :=
  ⟨rfl, by rw [nameFilled_owner, nameFilled_nameFilled]⟩

theorem Settled.added_disowned (h : c.Settled owner) : { c.disowned.nameFilled with owner } = c := by
  have hnamed : c.disowned.nameFilled = { c.nameFilled with owner := "" } := nameFilled_owner c ""
  rw [hnamed, h.named, ← h.owned]

end Column

namespace Columns

theorem eq_of_toList {a b : Columns} (h : a.toList = b.toList) : a = b := by
  cases a
  cases b
  simpa using h

theorem get?_eq_none_of_prefix {before after : Columns} {cs : List Column}
    (h : after.toList = before.toList ++ c :: cs) : before.get? c.field = none := by
  have hnodup := after.nodup_fields
  rw [h, List.map_append, List.nodup_append] at hnodup
  rw [get?, List.find?_eq_none]
  intro c' hc' heq
  exact hnodup.2.2 c'.field (List.mem_map_of_mem hc') c.field (by simp) (by simpa using heq)

end Columns

namespace Table

/-- A table that has settled all its columns. -/
def Settled (t : Table) : Prop :=
  ∀ c ∈ t.columns.toList, c.Settled t.name

theorem Settled.addColumn (h : t.Settled) (c : Column) : (t.addColumn c).Settled := by
  rw [Table.addColumn]
  split
  · exact List.forall_mem_append.2 ⟨h, List.forall_mem_singleton.2 (c.settled_added t.name)⟩
  · exact h

theorem Settled.addColumns (h : t.Settled) (cs : List Column) : (cs.foldl Table.addColumn t).Settled := by
  induction cs generalizing t with
  | nil => exact h
  | cons c cs ih => exact ih (h.addColumn c)

theorem settled_of_table? {form : TableForm} (h : form.table? = some t) : t.Settled := by
  obtain ⟨name, -, hbuilt⟩ := Option.map_eq_some_iff.1 h
  rw [← hbuilt]
  apply Settled.addColumns
  exact List.forall_mem_nil _

theorem yields_settled : Yields decode Settled := by
  intro x t hx
  obtain ⟨form, -, hbuilt⟩ := bind_eq_ok.1 hx
  cases htable : form.table? with
  | none =>
    rw [htable] at hbuilt
    exact absurd hbuilt throw_ne_ok
  | some t' =>
    rw [htable] at hbuilt
    obtain rfl := pure_eq_ok.1 hbuilt
    exact settled_of_table? htable

/-- The table without the names of the columns that it could not add. -/
def withoutDuplicates (t : Table) : Table :=
  { t with duplicates := [] }

theorem addColumn_new {d : Column} (hd : { d.nameFilled with owner := t.name } = c)
    (hnew : t.columns.get? c.field = none) : t.addColumn d = { t with columns := t.columns.push c hnew } := by
  subst hd
  exact dif_pos hnew

/-- Adding settled columns in their order, as they were written, gives these columns. -/
theorem addColumns_disowned {cs : List Column} {columns : Columns} (hcs : ∀ c ∈ cs, c.Settled t.name)
    (hcolumns : columns.toList = t.columns.toList ++ cs) :
    (cs.map Column.disowned).foldl addColumn t = { t with columns } := by
  induction cs generalizing t with
  | nil =>
    have heq : columns = t.columns := Columns.eq_of_toList (hcolumns.trans (List.append_nil _))
    rw [heq]
    rfl
  | cons c cs ih =>
    obtain ⟨hc, hcs⟩ := List.forall_mem_cons.1 hcs
    have hnew : t.columns.get? c.field = none := Columns.get?_eq_none_of_prefix hcolumns
    rw [List.map_cons, List.foldl_cons, addColumn_new hc.added_disowned hnew]
    exact ih hcs (by rw [hcolumns, Columns.push]; simp)

/-- The form in which a table is written. -/
def form (t : Table) : TableForm where
  name := some t.name
  entity := none
  ns := t.ns
  columns := t.columns.toList.map Column.disowned
  uniqueConstraints := t.uniqueConstraints
  viewOf := t.viewOf
  operations := t.operations

theorem denotes_form (t : Table) : Denotes (depth + 8) (record "struct TableDef" TableForm.fields) t.toJson t.form := by
  have hcolumns : Denotes (depth + 7) (list Column.decode) (.arr (t.columns.toList.map Column.toJson))
      (t.columns.toList.map Column.disowned) := denotes_map fun c _ => c.denotes_toJson
  exact (denote_option "name" (some t.name)).map TableForm.mk
    |>.seq (denote_option "entity" none) (by decide)
    |>.seq (denote_option "namespace" t.ns) (by decide)
    |>.seq (denote_defaulted "columns" [] hcolumns) (by decide)
    |>.seq (denote_list "unique_constraints" UniqueConstraint.toJson t.uniqueConstraints fun u _ => u.denotes_toJson)
      (by decide)
    |>.seq (denote_option "view_of" t.viewOf) (by decide)
    |>.seq (denote_list "operations" Operation.toJson t.operations fun op _ => op.denotes_toJson) (by decide)
    |>.record

theorem table?_form (h : t.Settled) : t.form.table? = some t.withoutDuplicates :=
  congrArg some (addColumns_disowned h rfl)

theorem Settled.denotes_toJson (h : t.Settled) : Denotes (depth + 8) decode t.toJson t.withoutDuplicates := by
  have hform : Denotes (depth + 8) _ t.toJson t.form := t.denotes_form
  refine ⟨hform.exact, ?_⟩
  rw [decode, hform.decodes, bind_eq_ok]
  refine ⟨t.form, rfl, ?_⟩
  rw [table?_form h]
  rfl

end Table

namespace Catalog
variable {c : Catalog} {text : String}

/-- The catalog without the names of the columns that its tables could not add. -/
def withoutDuplicates (c : Catalog) : Catalog :=
  ⟨c.tables.map Table.withoutDuplicates⟩

theorem withoutDuplicates_eq_iff (c : Catalog) : c.withoutDuplicates = c ↔ ∀ t ∈ c.tables, t.duplicates = [] := by
  have htable (t : Table) : t.withoutDuplicates = t ↔ t.duplicates = [] := by
    rw [Table.withoutDuplicates, Table.mk.injEq]
    simp [eq_comm]
  have hcatalog : c.withoutDuplicates = c ↔ c.tables.map Table.withoutDuplicates = c.tables.map id := by
    rw [List.map_id, withoutDuplicates, Catalog.mk.injEq]
  rw [hcatalog, List.map_inj_left]
  simp only [id_eq, htable]

theorem yields_settled : Yields decode fun c => ∀ t ∈ c.tables, t.Settled :=
  yields_record ((Fields.yields_defaulted (List.forall_mem_nil _) (yields_list Table.yields_settled)).map fun _ h => h)

theorem denotes_toJson (h : ∀ t ∈ c.tables, t.Settled) : Denotes (depth + 10) decode c.toJson c.withoutDuplicates := by
  have htables : Denotes (depth + 9) (list Table.decode) (.arr (c.tables.map Table.toJson))
      (c.tables.map Table.withoutDuplicates) := denotes_map fun t ht => (h t ht).denotes_toJson
  exact ((denote_defaulted "tables" [] htables).map Catalog.mk).record

/-- Writing a catalog that was read from a text and reading it again loses the recorded names of columns that were not
added, and nothing else. So it gives the same catalog if and only if there are no such names. -/
theorem ofText_toText (h : ofText text = .ok c) :
    ofText c.toText = .ok c.withoutDuplicates ∧
      (ofText c.toText = .ok c ↔ ∀ t ∈ c.tables, t.duplicates = []) := by
  have hsettled : ∀ t ∈ c.tables, t.Settled := yields_decodeText yields_settled h
  have hdenotes : Denotes 10 decode c.toJson c.withoutDuplicates := denotes_toJson hsettled
  have hread : ofText c.toText = .ok c.withoutDuplicates := by
    rw [ofText, toText, decodeText_compact hdenotes.exact (by decide), hdenotes.decodes]
  refine ⟨hread, ?_⟩
  rw [hread, Except.ok.injEq]
  exact c.withoutDuplicates_eq_iff

/-- A table that is named by its entity, with a column whose name is derived. -/
def postText : String :=
  "\x7b\"tables\":[\x7b\"entity\":\"Post\",\"columns\":[\x7b\"kind\":\"long\",\"field\":\"postId\"\x7d]," ++
    "\"operations\":[\x7b\"name\":\"wipe\",\"kind\":\"delete\",\"returns\":\"void\"\x7d]\x7d]\x7d"

def post : Table where
  name := "POST"
  columns := ⟨[{ field := "postId", name := "POST_ID", owner := "POST", kind := .long }], by decide⟩
  operations := [{ name := "wipe", kind := .delete, returns := .void }]

set_option maxRecDepth 8000 in
theorem post_comes_back : ofText postText = .ok ⟨[post]⟩ ∧ ofText (toText ⟨[post]⟩) = .ok ⟨[post]⟩ := by
  have hread : ofText postText = .ok ⟨[post]⟩ := by cbv
  exact ⟨hread, (ofText_toText hread).2.2 (by decide)⟩

end Catalog

end EntitySql
