import EntitySql.Proofs.Ddl.Created
import EntitySql.Proofs.Text.Quoted
import EntitySql.Proofs.Link.Accepted

/-! What the joins of a view equate. A view joins a table once, whatever the number of its columns that refer to it, on
the first of them. Main statement: of the references that make up one key the join equates the first one to its target
and no other, so that it equates all of them exactly if that is the only one. -/
namespace EntitySql
variable {c : Catalog} {l : LinkedCatalog c} {t : LinkedTable c} {d : Dialect}

/-- The references to a target that make up a key together: no others have their target columns. -/
def ForeignKey.joint {n : ℕ} (refs : List (Reference n)) (target : Fin n) : List (Reference n) :=
  refs.filter fun r => r.target = target && !collides refs r

namespace ForeignKey
variable {n : ℕ} {refs : List (Reference n)} {target : Fin n} {r o : Reference n}

theorem mem_joint : r ∈ joint refs target ↔ r ∈ refs ∧ r.target = target ∧ collides refs r = false := by
  simp [joint]

/-- References that make up a key together are listed as one key, in their order. -/
theorem joint_mem_ofReferences (h : joint refs target ≠ []) :
    ⟨target, (joint refs target).map fun r => (r.column, r.targetColumn)⟩ ∈ ofReferences refs := by
  obtain ⟨first, rest, hjoint⟩ := List.exists_cons_of_ne_nil h
  have hfirst : first ∈ joint refs target := hjoint ▸ List.mem_cons_self
  obtain ⟨hmem, htarget, hcollides⟩ := mem_joint.1 hfirst
  have hcompanions : companions refs first = joint refs target := by
    rw [companions, if_neg (by simp [hcollides]), htarget, joint]
  refine List.mem_map.2 ⟨first, List.mem_filter.2 ⟨hmem, ?_⟩, by rw [hcompanions, htarget]⟩
  rw [leads, hcompanions, hjoint]
  simp

/-- Two references of one key lead to different columns. -/
theorem targetColumn_ne_of_joint (hfields : (refs.map (·.field)).Nodup) (hr : r ∈ refs) (ho : o ∈ joint refs r.target)
    (hne : o ≠ r) : o.targetColumn ≠ r.targetColumn := by
  obtain ⟨hmem, htarget, hcollides⟩ := mem_joint.1 ho
  have hfield : r.field ≠ o.field := fun heq => hne (List.inj_on_of_nodup_map hfields hmem hr heq.symm)
  intro hcolumn
  have hnone := List.any_eq_false.1 hcollides r hr
  simp [hfield, htarget, hcolumn] at hnone

end ForeignKey

/-- No two references of a linked table are of one field. -/
theorem nodup_fields_references (h : Link.linkTables c = .ok l.tables) (ht : t ∈ l.tables) :
    (t.references.map (·.field)).Nodup := by
  obtain ⟨-, hreferences, -⟩ := Link.parts_of_linkTable (Link.linkTable_index h ht)
  rw [Link.resolveJoins_eq] at hreferences
  have hfields : t.references.map (·.field) =
      (Link.joinColumns (c.table t.index).columns.toList).map fun entry => entry.1.field :=
    map_eq_of_mapM hreferences fun entry r hr => (Link.resolves_of_resolveJoin hr).field
  have hjoin : ∀ (column : Column) (entry : Column × JoinTarget), column.join.map (column, ·) = some entry →
      entry.1.field = column.field := by
    intro column entry hentry
    obtain ⟨join, -, rfl⟩ := Option.map_eq_some_iff.1 hentry
    rfl
  rw [hfields]
  exact (c.table t.index).columns.nodup_fields.sublist (sublist_of_filterMap hjoin _)

namespace Ddl
variable {seen : List (Fin c.size)} {refs : List (Reference c.size)} {r : Reference c.size}

/-- The joined references are the first ones to their targets. -/
theorem mem_joiningReferences :
    r ∈ joiningReferences seen refs ↔ r.target ∉ seen ∧ refs.find? (·.target = r.target) = some r := by
  induction refs generalizing seen with
  | nil => simp [joiningReferences_nil]
  | cons first refs ih =>
    rw [joiningReferences_cons, List.find?_cons]
    by_cases hsame : first.target = r.target
    · by_cases hseen : first.target ∈ seen
      · rw [if_pos hseen, ih]
        simp [← hsame, hseen]
      · rw [if_neg hseen, List.mem_cons, ih]
        simp [← hsame, hseen, eq_comm]
    · have hne : r ≠ first := fun heq => hsame (heq ▸ rfl)
      by_cases hseen : first.target ∈ seen
      · rw [if_pos hseen, ih]
        simp [hsame]
      · rw [if_neg hseen, List.mem_cons, ih]
        simp [hsame, hne, Ne.symm hsame]

theorem nodup_targets_joining : ((joiningReferences seen refs).map (·.target)).Nodup := by
  induction refs generalizing seen with
  | nil => exact List.nodup_nil
  | cons first refs ih =>
    rw [joiningReferences_cons]
    split
    · exact ih
    · rw [List.map_cons, List.nodup_cons]
      refine ⟨fun hmem => ?_, ih⟩
      obtain ⟨r, hr, htarget⟩ := List.mem_map.1 hmem
      exact (mem_joiningReferences.1 hr).1 (by simp [htarget])

/-- The text of a join that equates the column of the base that has the field of a reference with the column of the
target that the reference leads to, and nothing else. -/
def Equates (d : Dialect) (view base : Table) (r : Reference c.size) (text : String) : Prop :=
  ∃ column, base.column? r.field = some column ∧
    text = "\nJOIN " ++ d.qualify (referenceName d view (c.table r.target)) ++ " ON B." ++ quoteName column.name ++
      " = " ++ d.qualify (referenceName d view (c.table r.target)) ++ "." ++ quoteName r.targetColumn

theorem equates_of_joinOf {view base : Table} {join : Join} (h : joinOf d view base r = .ok join) :
    Equates d view base r (join.sql d) := by
  unfold joinOf at h
  split at h
  · next column hcolumn =>
    rw [← pure_eq_ok.1 h]
    exact ⟨column, hcolumn, rfl⟩
  · exact absurd h throw_ne_ok

/-- The text of a join tells which column of its table it equates. -/
theorem Equates.targetColumn_eq {view base : Table} {o : Reference c.size} {text : String}
    (hr : Equates d view base r text) (ho : Equates d view base o text) (htarget : o.target = r.target) :
    o.targetColumn = r.targetColumn := by
  obtain ⟨first, -, htext⟩ := hr
  obtain ⟨other, -, hsame⟩ := ho
  rw [htext, htarget] at hsame
  have hchars := congrArg String.toList hsame
  simp only [String.toList_append, List.append_assoc, List.append_cancel_left_eq] at hchars
  obtain ⟨-, hrest⟩ := quoteName_append_inj (by simp) (by simp) hchars
  simp only [List.append_cancel_left_eq] at hrest
  exact (quoteName_inj.1 (String.toList_inj.1 hrest)).symm

/-- The text of the join of a reference, seen with all references that make up a key to its target. -/
structure OnFirst (d : Dialect) (view base : Table) (refs : List (Reference c.size)) (r : Reference c.size)
    (text : String) : Prop where
  equates : Equates d view base r text
  equates_iff : ∀ o ∈ ForeignKey.joint refs r.target, Equates d view base o text ↔ o = r
  /-- It equates the whole key exactly if the key is of this reference alone. -/
  whole_iff : ForeignKey.joint refs r.target ≠ [] →
    ((∀ o ∈ ForeignKey.joint refs r.target, Equates d view base o text) ↔ ForeignKey.joint refs r.target = [r])

theorem onFirst_of_joinOf (hfields : (refs.map (·.field)).Nodup) (hr : r ∈ refs) {view base : Table} {join : Join}
    (h : joinOf d view base r = .ok join) : OnFirst d view base refs r (join.sql d) := by
  have hequates := equates_of_joinOf h
  have hiff : ∀ o ∈ ForeignKey.joint refs r.target, Equates d view base o (join.sql d) ↔ o = r := by
    intro o ho
    constructor
    · intro hother
      by_contra hne
      have htarget := (ForeignKey.mem_joint.1 ho).2.1
      exact ForeignKey.targetColumn_ne_of_joint hfields hr ho hne (hequates.targetColumn_eq hother htarget)
    · rintro rfl
      exact hequates
  refine ⟨hequates, hiff, fun hne => ⟨fun hall => ?_, fun hone o ho => ?_⟩⟩
  · -- All of them are the joined reference, and it stands there once.
    have hsame : ∀ o ∈ ForeignKey.joint refs r.target, o = r := fun o ho => (hiff o ho).1 (hall o ho)
    have hnodup : (ForeignKey.joint refs r.target).Nodup := (List.Nodup.of_map _ hfields).filter _
    obtain ⟨first, rest, hjoint⟩ := List.exists_cons_of_ne_nil hne
    rw [hjoint] at hsame hnodup ⊢
    obtain rfl := hsame first List.mem_cons_self
    have hrest : rest = [] := List.eq_nil_iff_forall_not_mem.2 fun o ho =>
      (List.nodup_cons.1 hnodup).1 (hsame o (List.mem_cons_of_mem _ ho) ▸ ho)
    rw [hrest]
  · rw [hone, List.mem_singleton] at ho
    exact ho ▸ hequates

end Ddl

/-- The texts of the joins of a view: one for each target of its references, on the first reference to it. -/
structure LinkedTable.JoinsFirst (t : LinkedTable c) (d : Dialect) (base : Table) (joins : List String)
    (firsts : List (Reference c.size)) : Prop where
  mem_iff : ∀ r, r ∈ firsts ↔ t.references.find? (·.target = r.target) = some r
  once : (firsts.map (·.target)).Nodup
  ordered : firsts.Sublist t.references
  joined : List.Forall₂ (Ddl.OnFirst d t.schema base t.references) firsts joins
  keys : ∀ target, ForeignKey.joint t.references target ≠ [] →
    ⟨target, (ForeignKey.joint t.references target).map fun r => (r.column, r.targetColumn)⟩ ∈ t.foreignKeys

/-- The statement of a view joins each target of its references once, on the first reference to it, and equates no other
column of the key to that target. -/
theorem joins_on_first (h : c.link = .ok l) (ht : t ∈ l.tables) {base : Fin c.size} (hbase : t.viewBase = some base)
    {text : String} (htext : Ddl.createSql d t = .ok text) : ∃ (items : String) (joins : List String) (firsts : List _),
      text = d.createView ++ " " ++ d.qualify t.schema.objectName ++ " AS SELECT " ++ items ++ "\nFROM " ++
        d.qualify (c.table base).objectName ++ " B" ++ String.join joins ∧
      t.JoinsFirst d (c.table base) joins firsts := by
  have htables := tables_of_link h
  have hfields := nodup_fields_references htables ht
  obtain ⟨s, hs, rfl⟩ := map_eq_ok.1 htext
  simp only [Ddl.create, hbase] at hs
  obtain ⟨joins, hjoins, hs⟩ := bind_eq_ok.1 hs
  obtain ⟨items, -, hpure⟩ := bind_eq_ok.1 hs
  rw [← pure_eq_ok.1 hpure]
  refine ⟨_, joins.map (Ddl.Join.sql d), Ddl.joiningReferences [] t.references, rfl, ?_⟩
  constructor
  case mem_iff => exact fun r => by simp [Ddl.mem_joiningReferences]
  case once => exact Ddl.nodup_targets_joining
  case ordered => exact Ddl.joiningReferences_sublist
  case joined =>
    have hmem : ∀ r ∈ Ddl.joiningReferences [] t.references, r ∈ t.references :=
      fun r hr => Ddl.joiningReferences_sublist.subset hr
    rw [List.forall₂_map_right_iff]
    refine ((List.forall₂_and_left _ _).2 ⟨hmem, mapM_eq_ok.1 hjoins⟩).imp ?_
    rintro r join ⟨hr, hjoin⟩
    exact Ddl.onFirst_of_joinOf hfields hr hjoin
  case keys =>
    intro target hjoint
    rw [Link.foreignKeys_of_linkTable (Link.linkTable_index htables ht)]
    exact ForeignKey.joint_mem_ofReferences hjoint

/-- The view of posts by their users. -/
def feedView : LinkedTable feed :=
  feedOrdered.get ⟨2, by decide⟩

def feedText : String :=
  "CREATE OR REPLACE VIEW \"FEED\" AS SELECT B.\"USER_ID\"\nFROM \"POST\" B\n" ++
    "JOIN \"USERS\" ON B.\"USER_ID\" = \"USERS\".\"USER_ID\""

set_option maxRecDepth 8000 in
/-- The view joins users on the only column that refers to them. -/
theorem feed_joins_users : ∃ l, feed.link = .ok l ∧ feedView ∈ l.tables ∧
    feedView.viewBase = some ⟨1, by decide⟩ ∧ Ddl.createSql .postgres feedView = .ok feedText ∧
    ∃ items joins firsts, feedText = "CREATE OR REPLACE VIEW \"FEED\" AS SELECT " ++ items ++ "\nFROM \"POST\" B" ++
      String.join joins ∧ feedView.JoinsFirst .postgres (feed.table ⟨1, by decide⟩) joins firsts := by
  have hlinked : feed.link.toOption.map (·.ordered) = some feedOrdered := by cbv
  obtain ⟨l, hl, hordered⟩ := exists_ok_of_toOption hlinked
  have ht : feedView ∈ l.tables := by
    refine mem_tables_of_mem_ordered ?_
    rw [hordered]
    exact List.mem_of_getElem? (i := 2) rfl
  have hcreate : Ddl.createSql .postgres feedView = .ok feedText := rfl
  obtain ⟨items, joins, firsts, hview, hfirst⟩ := joins_on_first hl ht rfl hcreate
  have hopening : Dialect.postgres.createView ++ " " ++ Dialect.postgres.qualify feedView.schema.objectName ++
      " AS SELECT " = "CREATE OR REPLACE VIEW \"FEED\" AS SELECT " := by decide
  have hbase : Dialect.postgres.qualify (feed.table ⟨1, by decide⟩).objectName = "\"POST\"" := by decide
  rw [hopening, hbase] at hview
  refine ⟨l, hl, ht, rfl, hcreate, items, joins, firsts, ?_, hfirst⟩
  rw [hview]
  simp [String.append_assoc]

/-- Places in rooms, seats in them, and a view of the seats that joins their places. -/
def theatre : Catalog where
  tables := [
    (Table.ofName "PLACE").addColumn { field := "room", kind := .int, primaryKey := true }
      |>.addColumn { field := "row", kind := .int, primaryKey := true }
      |>.addColumn { field := "label", kind := .string },
    (Table.ofName "SEAT").addColumn { field := "id", kind := .long, primaryKey := true }
      |>.addColumn { field := "room", kind := .int }
      |>.addColumn { field := "row", kind := .int },
    (Table.view "SEATING" "SEAT").addColumn { field := "id", kind := .long }
      |>.addColumn { field := "room", kind := .int, join := some { table := "PLACE", field := some "room" } }
      |>.addColumn { field := "row", kind := .int, join := some { table := "PLACE", field := some "row" } }
      |>.addColumn { field := "label", kind := .string }]

def seating : LinkedTable theatre where
  index := ⟨2, by decide⟩
  primaryKey := []
  uniqueKeys := []
  references := [⟨"room", "ROOM", ⟨0, by decide⟩, "room", "ROOM"⟩, ⟨"row", "ROW", ⟨0, by decide⟩, "row", "ROW"⟩]
  foreignKeys := [⟨⟨0, by decide⟩, [("ROOM", "ROOM"), ("ROW", "ROW")]⟩]
  viewBase := some ⟨1, by decide⟩

def theatreTables : List (LinkedTable theatre) := [
  { index := ⟨0, by decide⟩, primaryKey := ["ROOM", "ROW"], uniqueKeys := [], references := [], foreignKeys := [],
    viewBase := none },
  { index := ⟨1, by decide⟩, primaryKey := ["ID"], uniqueKeys := [], references := [], foreignKeys := [],
    viewBase := none },
  seating]

set_option maxRecDepth 8000 in
/-- Both columns make up one key, but seats are joined to all places in their room. -/
theorem seating_ignores_rows : ∃ l, theatre.link = .ok l ∧ seating ∈ l.tables ∧
    seating.foreignKeys = [⟨⟨0, by decide⟩, [("ROOM", "ROOM"), ("ROW", "ROW")]⟩] ∧
    ForeignKey.joint seating.references ⟨0, by decide⟩ = seating.references ∧
    Ddl.createSql .postgres seating = .ok
      ("CREATE OR REPLACE VIEW \"SEATING\" AS SELECT B.\"ID\", B.\"ROOM\", B.\"ROW\", \"PLACE\".\"LABEL\"\n" ++
        "FROM \"SEAT\" B" ++ "\nJOIN \"PLACE\" ON B.\"ROOM\" = \"PLACE\".\"ROOM\"") ∧
    ¬Ddl.Equates .postgres seating.schema (theatre.table ⟨1, by decide⟩)
      (⟨"row", "ROW", ⟨0, by decide⟩, "row", "ROW"⟩ : Reference theatre.size)
      "\nJOIN \"PLACE\" ON B.\"ROOM\" = \"PLACE\".\"ROOM\"" := by
  have htables : Link.linkTables theatre = .ok theatreTables := rfl
  have horder : Link.emissionOrder theatreTables = .ok [⟨0, by decide⟩, ⟨1, by decide⟩, ⟨2, by decide⟩] := by cbv
  have hl : theatre.link = .ok ⟨theatreTables, [⟨0, by decide⟩, ⟨1, by decide⟩, ⟨2, by decide⟩]⟩ :=
    bind_eq_ok.2 ⟨_, htables, bind_eq_ok.2 ⟨_, horder, rfl⟩⟩
  have ht : seating ∈ theatreTables := List.mem_of_getElem? (i := 2) rfl
  refine ⟨_, hl, ht, rfl, by decide, rfl, ?_⟩
  rintro ⟨column, hcolumn, htext⟩
  cases hcolumn
  exact absurd htext (by decide)

end EntitySql
