import EntitySql.Proofs.Ddl.Agreement
import EntitySql.Proofs.Ddl.Joined

/-! The statements of views. A view joins the targets of its join columns to its base and takes each of its fields from
the first of these tables that has it. Main statement: it can be composed exactly if the base has the fields it is
joined on and all fields of the view are found, and what is composed has one join for each target and one item for
each column of the view. -/
namespace EntitySql
variable {c : Catalog} {l : LinkedCatalog c} {t : LinkedTable c} {d : Dialect}

def Table.fields (t : Table) : List String :=
  t.columns.toList.map Column.field

theorem Table.exists_column? {t : Table} {field : String} :
    (∃ column, t.column? field = some column) ↔ field ∈ t.fields := by
  simp only [column?_eq_some, fields, List.mem_map]

theorem Table.column?_eq_none {t : Table} {field : String} : t.column? field = none ↔ field ∉ t.fields := by
  rw [← exists_column?, ← Option.isSome_iff_exists, Option.not_isSome_iff_eq_none]

namespace Ddl
variable {refs joined : List (Reference c.size)} {r : Reference c.size} {view base : Table} {column : Column}
  {item : SelectItem} {text : String}

/-- The references that are the first ones to their targets. -/
def firstReferences (refs : List (Reference c.size)) : List (Reference c.size) :=
  refs.filter fun r => refs.find? (·.target = r.target) = some r

/-- Going through the references with the targets seen so far finds the same as looking each one up. -/
theorem joiningReferences_eq_filter {seen : List (Fin c.size)} (h : refs.Nodup) :
    joiningReferences seen refs =
      refs.filter fun r => r.target ∉ seen ∧ refs.find? (·.target = r.target) = some r := by
  induction refs generalizing seen with
  | nil => rfl
  | cons first refs ih =>
    obtain ⟨hfirst, hrefs⟩ := List.nodup_cons.1 h
    -- A later reference is the first one to its target if the first of all has another one.
    have hlater : ∀ r ∈ refs, (first :: refs).find? (·.target = r.target) = some r ↔
        r.target ≠ first.target ∧ refs.find? (·.target = r.target) = some r := by
      intro r hr
      have hne : first ≠ r := fun heq => hfirst (heq ▸ hr)
      rw [List.find?_cons]
      by_cases htarget : first.target = r.target
      · simp [htarget, hne]
      · simp [htarget, Ne.symm htarget]
    rw [joiningReferences_cons, List.filter_cons]
    by_cases hseen : first.target ∈ seen
    · rw [if_pos hseen, if_neg (by simp [hseen]), ih hrefs]
      refine List.filter_congr fun r hr => decide_eq_decide.2 ?_
      rw [hlater r hr]
      have hother : r.target ∉ seen → r.target ≠ first.target := fun hr heq => hr (heq ▸ hseen)
      tauto
    · rw [if_neg hseen, if_pos (by simp [hseen]), ih hrefs]
      refine congrArg _ (List.filter_congr fun r hr => decide_eq_decide.2 ?_)
      rw [hlater r hr, List.mem_cons]
      tauto

theorem joiningReferences_eq (h : refs.Nodup) : joiningReferences [] refs = firstReferences refs := by
  rw [joiningReferences_eq_filter h, firstReferences]
  simp

theorem exists_joinOf : (∃ join, joinOf d view base r = .ok join) ↔ r.field ∈ base.fields := by
  rw [← Table.exists_column?]
  unfold joinOf
  cases base.column? r.field with
  | none => simp [throw_ne_ok]
  | some column => simp [pure_eq_ok]

theorem exists_itemOf : (∃ item, itemOf d view base joined column = .ok item) ↔
    column.field ∈ base.fields ∨ ∃ r ∈ joined, column.field ∈ (c.table r.target).fields := by
  have hsource : (∃ item, itemOf d view base joined column = .ok item) ↔
      (itemSource? d view base joined column.field).isSome := by
    unfold itemOf
    cases itemSource? d view base joined column.field with
    | none => simp [throw_ne_ok]
    | some source => simp [pure_eq_ok]
  rw [hsource, itemSource?]
  cases hbase : base.column? column.field with
  | some found => simp [← Table.exists_column?, hbase]
  | none =>
    have hnone := Table.column?_eq_none.1 hbase
    dsimp only
    rw [List.findSome?_isSome_iff]
    simp only [Option.isSome_map, Option.isSome_iff_exists, Table.exists_column?, hnone, false_or]

/-- What stands after a column that is selected under a name: nothing if that is its own name. -/
def underName (own name : String) : String :=
  if own = name then "" else " AS " ++ quoteName name

/-- The text by which a view takes a column under its name: from the base if that has the field, otherwise from the
first joined table that has it. -/
inductive Takes (d : Dialect) (view base : Table) (joined : List (Reference c.size)) (column : Column) :
    String → Prop where
  | base {found : Column} (hfound : found ∈ base.columns.toList) (hfield : found.field = column.field) :
      Takes d view base joined column ("B." ++ quoteName found.name ++ underName found.name column.name)
  | joined {before after : List (Reference c.size)} {r : Reference c.size} {found : Column}
      (hbase : column.field ∉ base.fields) (hsplit : joined = before ++ r :: after)
      (hbefore : ∀ o ∈ before, column.field ∉ (c.table o.target).fields)
      (hfound : found ∈ (c.table r.target).columns.toList) (hfield : found.field = column.field) :
      Takes d view base joined column (d.qualify (referenceName d view (c.table r.target)) ++ "." ++
        quoteName found.name ++ underName found.name column.name)

theorem sql_of_source {source : Option ObjectName} {own name : String} :
    (⟨source, own, if own = name then none else some name⟩ : SelectItem).sql d =
      (source.map d.qualify).getD "B" ++ "." ++ quoteName own ++ underName own name := by
  unfold SelectItem.sql underName
  split <;> rfl

theorem takes_of_itemOf (h : itemOf d view base joined column = .ok item) :
    Takes d view base joined column (item.sql d) := by
  unfold itemOf at h
  split at h
  · next source found hsource =>
    rw [← pure_eq_ok.1 h, sql_of_source]
    unfold itemSource? at hsource
    split at hsource
    · next column' hcolumn =>
      cases hsource
      obtain ⟨hmem, hfield⟩ := Table.column?_eq_some.1 hcolumn
      exact .base hmem hfield
    · next hnone =>
      obtain ⟨before, r, after, hsplit, hr, hbefore⟩ := List.findSome?_eq_some_iff.1 hsource
      obtain ⟨column', hcolumn, heq⟩ := Option.map_eq_some_iff.1 hr
      cases heq
      obtain ⟨hmem, hfield⟩ := Table.column?_eq_some.1 hcolumn
      refine .joined (Table.column?_eq_none.1 hnone) hsplit (fun o ho => ?_) hmem hfield
      exact Table.column?_eq_none.1 (Option.map_eq_none_iff.1 (hbefore o ho))
  · exact absurd h throw_ne_ok

/-- What a text takes from a table stands after its qualifier: that of the base, or the name of a joined table. -/
def Qualified (d : Dialect) (joins : List String) (text : String) : Prop :=
  (∃ rest, text = "B." ++ rest) ∨
    ∃ table, ∃ join ∈ joins, JoinText d table join ∧ ∃ rest, text = d.qualify table ++ "." ++ rest

/-- An item is qualified by the base or by one of the joined tables. -/
theorem Takes.qualified {joins : List String} (h : Takes d view base joined column text)
    (hjoins : ∀ r ∈ joined, ∃ join ∈ joins, JoinText d (referenceName d view (c.table r.target)) join) :
    Qualified d joins text := by
  cases h with
  | base => exact .inl ⟨_, String.append_assoc⟩
  | joined _ hsplit =>
    obtain ⟨join, hmem, hjoin⟩ := hjoins _ (hsplit ▸ List.mem_append_right _ List.mem_cons_self)
    exact .inr ⟨_, join, hmem, hjoin, _, String.append_assoc⟩

end Ddl

/-- What it takes to compose a view: the base has the fields on which it is joined, one for each target, and all fields
of the view are found on the base or on a target. -/
structure LinkedTable.Composable (t : LinkedTable c) (base : Table) : Prop where
  joined : ∀ r ∈ Ddl.firstReferences t.references, r.field ∈ base.fields
  found : ∀ column ∈ t.schema.columns.toList,
    column.field ∈ base.fields ∨ ∃ r ∈ t.references, column.field ∈ (c.table r.target).fields

/-- The texts that a view is composed of: one join for each target, on the first reference to it, and one item for each
column, which gives it its name. -/
structure LinkedTable.Composed (t : LinkedTable c) (d : Dialect) (base : Table) (items joins : List String) : Prop where
  once : ((Ddl.firstReferences t.references).map (·.target)).Nodup
  all : ∀ r ∈ t.references, r.target ∈ (Ddl.firstReferences t.references).map (·.target)
  joined : List.Forall₂ (Ddl.Equates d t.schema base) (Ddl.firstReferences t.references) joins
  selected : List.Forall₂ (Ddl.Takes d t.schema base (Ddl.firstReferences t.references)) t.schema.columns.toList items
  named : List.Forall₂ (fun column item => Ddl.ItemText column.name item) t.schema.columns.toList items
  qualified : ∀ item ∈ items, Ddl.Qualified d joins item

theorem joiningReferences_of_link (h : c.link = .ok l) (ht : t ∈ l.tables) :
    Ddl.joiningReferences [] t.references = Ddl.firstReferences t.references :=
  Ddl.joiningReferences_eq (List.Nodup.of_map _ (nodup_fields_references (tables_of_link h) ht))

/-- Each target of a view is that of the first reference to it. -/
theorem exists_firstReference (h : c.link = .ok l) (ht : t ∈ l.tables) {r : Reference c.size} (hr : r ∈ t.references) :
    ∃ first ∈ Ddl.firstReferences t.references, first.target = r.target := by
  rw [← joiningReferences_of_link h ht]
  obtain hseen | hjoined := @Ddl.target_mem_joining c [] t.references r hr
  · cases hseen
  · exact List.mem_map.1 hjoined

theorem exists_createView (h : c.link = .ok l) (ht : t ∈ l.tables) {base : Table} :
    (∃ s, Ddl.createView d t base = .ok s) ↔ t.Composable base := by
  have htargets : ∀ field, (∃ r ∈ Ddl.firstReferences t.references, field ∈ (c.table r.target).fields) ↔
      ∃ r ∈ t.references, field ∈ (c.table r.target).fields := by
    intro field
    constructor
    · rintro ⟨r, hr, hfield⟩
      exact ⟨r, (List.mem_filter.1 hr).1, hfield⟩
    · rintro ⟨r, hr, hfield⟩
      obtain ⟨first, hfirst, htarget⟩ := exists_firstReference h ht hr
      exact ⟨first, hfirst, htarget ▸ hfield⟩
  simp only [Ddl.createView, joiningReferences_of_link h ht, exists_bind_eq_ok, exists_mapM_eq_ok, pure_eq_ok,
    exists_eq', and_true, exists_and_right, Ddl.exists_joinOf, Ddl.exists_itemOf, htargets]
  exact ⟨fun ⟨hjoined, hfound⟩ => ⟨hjoined, hfound⟩, fun hcomposable => ⟨hcomposable.joined, hcomposable.found⟩⟩

theorem composed_of_createView (h : c.link = .ok l) (ht : t ∈ l.tables) {base : Table} {s : Ddl.Create}
    (hs : Ddl.createView d t base = .ok s) : ∃ items joins,
      s.sql d = d.createView ++ " " ++ d.qualify t.schema.objectName ++ " AS SELECT " ++ ", ".intercalate items ++
        "\nFROM " ++ d.qualify base.objectName ++ " B" ++ String.join joins ∧ t.Composed d base items joins := by
  obtain ⟨joins, hjoins, hs⟩ := bind_eq_ok.1 hs
  obtain ⟨items, hitems, hpure⟩ := bind_eq_ok.1 hs
  rw [joiningReferences_of_link h ht] at hjoins hitems
  rw [← pure_eq_ok.1 hpure]
  refine ⟨items.map (Ddl.SelectItem.sql d), joins.map (Ddl.Join.sql d), rfl, ?_⟩
  constructor
  case once =>
    rw [← joiningReferences_of_link h ht]
    exact Ddl.nodup_targets_joining
  case all => exact fun r hr => List.mem_map.2 (exists_firstReference h ht hr)
  case joined =>
    rw [List.forall₂_map_right_iff]
    exact (mapM_eq_ok.1 hjoins).imp fun r join hjoin => Ddl.equates_of_joinOf hjoin
  case selected =>
    rw [List.forall₂_map_right_iff]
    exact (mapM_eq_ok.1 hitems).imp fun column item hitem => Ddl.takes_of_itemOf hitem
  case named =>
    rw [List.forall₂_map_right_iff]
    exact (mapM_eq_ok.1 hitems).imp fun column item hitem =>
      Ddl.outputName_of_itemOf hitem ▸ Ddl.itemText_sql d item
  case qualified =>
    refine List.forall_mem_map.2 fun item hitem => ?_
    obtain ⟨column, -, hcolumn⟩ := exists_of_mem_mapM hitems hitem
    refine (Ddl.takes_of_itemOf hcolumn).qualified fun r hr => ?_
    obtain ⟨join, hmem, hjoin⟩ := exists_of_mapM hjoins hr
    exact ⟨_, List.mem_map_of_mem hmem, Ddl.table_of_joinOf hjoin ▸ Ddl.joinText_sql d join⟩

/-- The statement of a view of a linked catalog can be composed exactly if the base has the fields it is joined on and
the fields of the view are found. Its text joins each target once, in the order of the join columns, and gives each
column of the view from the base or from the first joined table that has its field. -/
theorem view_composes (h : c.link = .ok l) (ht : t ∈ l.tables) (hview : t.isView = true) (d : Dialect) :
    ∃ base name, t.viewBase = some base ∧ t.schema.viewOf = some name ∧ c.Means name base ∧
    List.Forall₂ (fun entry r => Link.Resolves c t.schema entry.1 entry.2 r)
      (Link.joinColumns t.schema.columns.toList) t.references ∧
    ((∃ text, Ddl.createSql d t = .ok text) ↔ t.Composable (c.table base)) ∧
    ∀ text, Ddl.createSql d t = .ok text → ∃ items joins,
      text = d.createView ++ " " ++ d.qualify t.schema.objectName ++ " AS SELECT " ++ ", ".intercalate items ++
        "\nFROM " ++ d.qualify (c.table base).objectName ++ " B" ++ String.join joins ∧
      t.Composed d (c.table base) items joins := by
  have hlinked := Link.linkTable_index (tables_of_link h) ht
  obtain ⟨base, hbase⟩ := Option.isSome_iff_exists.1 ((Link.isView_of_linkTables (tables_of_link h) ht).trans hview)
  obtain ⟨name, hname, hindex⟩ := (Link.mem_of_resolveBase (Link.parts_of_linkTable hlinked).1).1 hbase
  have hcreate : Ddl.create d t = Ddl.createView d t (c.table base) := by rw [Ddl.create, hbase]
  refine ⟨base, name, hbase, hname, Catalog.index?_eq_some.1 hindex, (Link.faithful_of_linkTable hlinked).references, ?_, ?_⟩
  · rw [← exists_createView h ht (d := d), ← hcreate]
    constructor
    · rintro ⟨text, htext⟩
      obtain ⟨s, hs, -⟩ := map_eq_ok.1 htext
      exact ⟨s, hs⟩
    · rintro ⟨s, hs⟩
      exact ⟨s.sql d, map_eq_ok.2 ⟨s, hs, rfl⟩⟩
  · intro text htext
    obtain ⟨s, hs, rfl⟩ := map_eq_ok.1 htext
    exact composed_of_createView h ht (hcreate ▸ hs)

/-- Books with their authors, editors and shops, and a list of them with a name and a city. -/
def bookshop : Catalog where
  tables := [
    (Table.ofName "PERSON").addColumn { field := "id", kind := .long, primaryKey := true }
      |>.addColumn { field := "name", kind := .string },
    (Table.ofName "SHOP").addColumn { field := "id", kind := .long, primaryKey := true }
      |>.addColumn { field := "name", kind := .string }
      |>.addColumn { field := "city", kind := .string },
    (Table.ofName "BOOK").addColumn { field := "id", kind := .long, primaryKey := true }
      |>.addColumn { field := "author", kind := .long }
      |>.addColumn { field := "editor", kind := .long }
      |>.addColumn { field := "shop", kind := .long },
    (Table.view "LISTING" "BOOK").addColumn { field := "id", kind := .long }
      |>.addColumn { field := "author", kind := .long, join := some { table := "PERSON", field := some "id" } }
      |>.addColumn { field := "editor", kind := .long, join := some { table := "PERSON", field := some "id" } }
      |>.addColumn { field := "shop", kind := .long, join := some { table := "SHOP", field := some "id" } }
      |>.addColumn { field := "name", name := "WRITTEN_BY", kind := .string }
      |>.addColumn { field := "city", kind := .string }]

def listing : LinkedTable bookshop where
  index := ⟨3, by decide⟩
  primaryKey := []
  uniqueKeys := []
  references := [⟨"author", "AUTHOR", ⟨0, by decide⟩, "id", "ID"⟩, ⟨"editor", "EDITOR", ⟨0, by decide⟩, "id", "ID"⟩,
    ⟨"shop", "SHOP", ⟨1, by decide⟩, "id", "ID"⟩]
  foreignKeys := [⟨⟨0, by decide⟩, [("AUTHOR", "ID")]⟩, ⟨⟨0, by decide⟩, [("EDITOR", "ID")]⟩,
    ⟨⟨1, by decide⟩, [("SHOP", "ID")]⟩]
  viewBase := some ⟨2, by decide⟩

def listingText : String :=
  "CREATE OR REPLACE VIEW \"LISTING\" AS SELECT B.\"ID\", B.\"AUTHOR\", B.\"EDITOR\", B.\"SHOP\", " ++
    "\"PERSON\".\"NAME\" AS \"WRITTEN_BY\", \"SHOP\".\"CITY\"\nFROM \"BOOK\" B\n" ++
    "JOIN \"PERSON\" ON B.\"AUTHOR\" = \"PERSON\".\"ID\"\nJOIN \"SHOP\" ON B.\"SHOP\" = \"SHOP\".\"ID\""

set_option maxRecDepth 8000 in
/-- Persons are joined once, as authors, and the name is theirs though shops have one as well. -/
theorem listing_composes : ∃ l, bookshop.link = .ok l ∧ listing ∈ l.tables ∧ listing.isView = true ∧
    Ddl.createSql .postgres listing = .ok listingText ∧
    listing.Composable (bookshop.table ⟨2, by decide⟩) ∧
    ∃ items joins, listing.Composed .postgres (bookshop.table ⟨2, by decide⟩) items joins := by
  have hlinked : bookshop.link.toOption.map (fun l => l.tables[3]?) = some (some listing) := by cbv
  obtain ⟨l, hl, hlisting⟩ := exists_ok_of_toOption hlinked
  have ht : listing ∈ l.tables := List.mem_of_getElem? hlisting
  have hcreate : Ddl.createSql .postgres listing = .ok listingText := by rfl
  obtain ⟨base, name, hbase, -, -, -, hiff, hcomposed⟩ := view_composes hl ht rfl .postgres
  cases hbase
  obtain ⟨items, joins, -, hcomposed⟩ := hcomposed _ hcreate
  exact ⟨l, hl, ht, rfl, hcreate, hiff.1 ⟨_, hcreate⟩, items, joins, hcomposed⟩

end EntitySql
