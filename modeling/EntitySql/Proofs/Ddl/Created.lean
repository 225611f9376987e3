import EntitySql.Proofs.Link.Cycle

/-! The statements that create a linked catalog, one after another. What a statement names after FROM, JOIN or
REFERENCES is created before it, but for the table it creates itself. The order leaves such references out of account;
a table may well refer to itself, but a view that joins itself is read before it is there. -/
namespace EntitySql
variable {c : Catalog} {l : LinkedCatalog c} {t : LinkedTable c} {d : Dialect}

namespace Link

theorem foreignKeys_of_linkTable {i : Fin c.size} (h : linkTable c i = .ok t) :
    t.foreignKeys = ForeignKey.ofReferences t.references := by
  obtain ⟨_, _, h⟩ := bind_eq_ok.1 h
  obtain ⟨base, _, h⟩ := bind_eq_ok.1 h
  obtain ⟨references, _, h⟩ := bind_eq_ok.1 h
  obtain ⟨keys, _, h⟩ := bind_eq_ok.1 h
  rw [← pure_eq_ok.1 h]

theorem isSome_of_resolveBase {view : Table} {base : Option (Fin c.size)} (h : resolveBase c view = .ok base) :
    base.isSome = view.isView := by
  unfold resolveBase at h
  unfold Table.isView
  cases hview : view.viewOf with
  | none =>
    rw [hview] at h
    rw [← pure_eq_ok.1 h]
    rfl
  | some name =>
    simp only [hview] at h
    split at h
    · exact absurd h throw_ne_ok
    · obtain ⟨i, _, hpure⟩ := bind_eq_ok.1 h
      rw [← pure_eq_ok.1 hpure]
      rfl

theorem isView_of_linkTables {tables : List (LinkedTable c)} (h : linkTables c = .ok tables) (ht : t ∈ tables) :
    t.viewBase.isSome = t.isView := by
  have hparts := parts_of_linkTable (linkTable_index h ht)
  exact isSome_of_resolveBase hparts.1

end Link

theorem ForeignKey.exists_reference {n : Nat} {refs : List (Reference n)} {key : ForeignKey n}
    (h : key ∈ ofReferences refs) : ∃ r ∈ refs, r.target = key.target := by
  obtain ⟨r, hr, rfl⟩ := List.mem_map.1 h
  exact ⟨r, (List.mem_filter.1 hr).1, rfl⟩

namespace Ddl

theorem joiningReferences_nil (seen : List (Fin c.size)) : joiningReferences seen [] = [] :=
  rfl

theorem joiningReferences_cons (seen : List (Fin c.size)) (r : Reference c.size) (refs : List (Reference c.size)) :
    joiningReferences seen (r :: refs) =
      if r.target ∈ seen then joiningReferences seen refs else r :: joiningReferences (r.target :: seen) refs :=
  rfl

theorem joiningReferences_sublist {seen : List (Fin c.size)} {refs : List (Reference c.size)} :
    (joiningReferences seen refs).Sublist refs := by
  induction refs generalizing seen with
  | nil => exact .slnil
  | cons r refs ih =>
    rw [joiningReferences_cons]
    split
    · exact ih.cons _
    · exact ih.cons_cons _

/-- Each target of a reference is joined, once it is seen. -/
theorem target_mem_joining {seen : List (Fin c.size)} {refs : List (Reference c.size)} {r : Reference c.size}
    (hr : r ∈ refs) : r.target ∈ seen ∨ r.target ∈ (joiningReferences seen refs).map (·.target) := by
  induction refs generalizing seen with
  | nil => cases hr
  | cons first refs ih =>
    have hrest : ∀ seen, r ∈ refs → r.target ∈ seen ∨ r.target ∈ (joiningReferences seen refs).map (·.target) :=
      fun seen hr => @ih seen hr
    rw [joiningReferences_cons]
    obtain rfl | hr := List.mem_cons.1 hr
    · by_cases hseen : r.target ∈ seen
      · exact .inl hseen
      · exact .inr (by simp [hseen])
    · by_cases hseen : first.target ∈ seen
      · rw [if_pos hseen]
        exact hrest seen hr
      · rw [if_neg hseen, List.map_cons, List.mem_cons]
        have hlater := hrest (first.target :: seen) hr
        rw [List.mem_cons] at hlater
        tauto

theorem referenced_constraints :
    (constraints d t).filterMap (fun
      | .foreignKey _ _ target _ => some target
      | _ => none) = t.foreignKeys.map fun key => referenceName d t.schema (c.table key.target) := by
  unfold constraints
  rw [List.filterMap_append, List.filterMap_append, List.filterMap_map, List.filterMap_map]
  have hprimary : (if t.primaryKey.isEmpty then [] else
      [Constraint.primaryKey (constraintName t.schema [] "PK") t.primaryKey]).filterMap (fun
        | .foreignKey _ _ target _ => some target
        | _ => none) = [] := by
    split <;> rfl
  rw [hprimary]
  simp

/-- The names that a statement puts after FROM, JOIN or REFERENCES, and the name of what it creates. -/
theorem names_of_create {s : Create} (h : create d t = .ok s) :
    s.name = t.schema.objectName ∧ s.referenced = (t.named d).map (·.2) := by
  unfold create at h
  unfold LinkedTable.named
  cases hbase : t.viewBase with
  | none =>
    simp only [hbase] at h
    obtain ⟨lines, _, hpure⟩ := bind_eq_ok.1 h
    rw [← pure_eq_ok.1 hpure, List.map_map]
    exact ⟨rfl, referenced_constraints⟩
  | some base =>
    simp only [hbase] at h
    obtain ⟨joins, hjoins, h⟩ := bind_eq_ok.1 h
    obtain ⟨items, _, hpure⟩ := bind_eq_ok.1 h
    have htables := map_eq_of_mapM (g := fun join : Join => join.table) hjoins fun r join => table_of_joinOf
    rw [← pure_eq_ok.1 hpure]
    refine ⟨rfl, ?_⟩
    simp [Create.referenced, htables, Function.comp_def]

theorem mem_insertSorted {a s : String} {texts : List String} :
    a ∈ insertSorted s texts ↔ a = s ∨ a ∈ texts := by
  induction texts with
  | nil => simp [insertSorted]
  | cons b texts ih =>
    rw [insertSorted]
    split
    · rw [List.mem_cons]
    · split
      · next heq => simp [heq]
      · rw [List.mem_cons, ih, List.mem_cons]
        exact or_left_comm

theorem increasing_insertSorted {s : String} {texts : List String} (h : texts.Pairwise (· < ·)) :
    (insertSorted s texts).Pairwise (· < ·) := by
  induction texts with
  | nil => exact List.pairwise_singleton _ _
  | cons b texts ih =>
    obtain ⟨hb, htexts⟩ := List.pairwise_cons.1 h
    rw [insertSorted]
    split
    · next hlt =>
      refine List.pairwise_cons.2 ⟨?_, h⟩
      intro a ha
      obtain rfl | ha := List.mem_cons.1 ha
      · exact hlt
      · exact hlt.trans (hb a ha)
    · next hle =>
      split
      · exact h
      · next hne =>
        have hlt : b < s := lt_of_le_of_ne (not_lt.1 hle) (Ne.symm hne)
        refine List.pairwise_cons.2 ⟨?_, ih htexts⟩
        intro a ha
        obtain rfl | ha := mem_insertSorted.1 ha
        · exact hlt
        · exact hb a ha

theorem mem_namespaces {ns : String} : ns ∈ namespaces c ↔ ∃ table ∈ c.tables, table.ns = some ns := by
  have hfold : ∀ texts : List String, ns ∈ texts.foldr insertSorted [] ↔ ns ∈ texts := by
    intro texts
    induction texts with
    | nil => rfl
    | cons s texts ih => rw [List.foldr_cons, mem_insertSorted, ih, List.mem_cons]
  rw [namespaces, hfold, List.mem_filterMap]

theorem increasing_namespaces (c : Catalog) : (namespaces c).Pairwise (· < ·) := by
  unfold namespaces
  induction c.tables.filterMap Table.ns with
  | nil => exact .nil
  | cons s texts ih => exact increasing_insertSorted ih

theorem createNamespaces_eq (d : Dialect) (c : Catalog) :
    createNamespaces d c =
      if d.hasNamespaces then (namespaces c).map fun ns => "CREATE SCHEMA IF NOT EXISTS " ++ quoteName ns else [] := by
  unfold createNamespaces Dialect.createNamespace?
  cases d.hasNamespaces <;> simp

end Ddl

theorem mem_tables_of_mem_ordered (ht : t ∈ l.ordered) : t ∈ l.tables := by
  obtain ⟨i, _, hi⟩ := List.mem_filterMap.1 ht
  exact List.mem_of_getElem? hi

theorem map_index_ordered (h : c.link = .ok l) : l.ordered.map (·.index) = l.order := by
  have hindices := (placed_of_link h).1
  have hlookup : ∀ i ∈ l.order, (l.tables[i.val]?).map (·.index) = some i := by
    intro i _
    obtain ⟨t, ht, rfl⟩ := Link.exists_index hindices i
    rw [Link.getElem?_index hindices ht]
    rfl
  rw [LinkedCatalog.ordered, List.map_filterMap, List.filterMap_congr hlookup, List.filterMap_some]

/-- At its turn a table can be created: all that it waits for is there, and it is not. -/
theorem ready_at_turn (h : c.link = .ok l) {before after : List (LinkedTable c)}
    (hsplit : l.ordered = before ++ t :: after) : t.Ready (before.map (·.index)) := by
  have hindices := (placed_of_link h).1
  have ht : t ∈ l.tables := mem_tables_of_mem_ordered (hsplit ▸ by simp)
  have horder : l.order = before.map (·.index) ++ t.index :: after.map (·.index) := by
    rw [← map_index_ordered h, hsplit]
    simp
  obtain ⟨u, hu, hindex, hready, -⟩ := next_of_link h horder
  rwa [Link.eq_of_index_eq hindices hu ht hindex] at hready

/-- What a statement names is what its table waits for, and the table itself if it refers to itself. -/
theorem named_cases (h : Link.linkTables c = .ok l.tables) (ht : t ∈ l.tables) {u : Fin c.size × ObjectName}
    (hu : u ∈ t.named d) : u.1 ∈ t.dependencies ∨ u.1 = t.index ∧ ∃ r ∈ t.references, r.target = t.index := by
  have hreference : ∀ r ∈ t.references, r.target = u.1 →
      u.1 ∈ t.dependencies ∨ u.1 = t.index ∧ ∃ r ∈ t.references, r.target = t.index := by
    intro r hr htarget
    by_cases hself : r.target = t.index
    · exact .inr ⟨htarget ▸ hself, r, hr, hself⟩
    · exact .inl (htarget ▸ reference_mem_dependencies hr hself)
  unfold LinkedTable.named at hu
  cases hbase : t.viewBase with
  | none =>
    simp only [hbase] at hu
    obtain ⟨key, hkey, rfl⟩ := List.mem_map.1 hu
    rw [Link.foreignKeys_of_linkTable (Link.linkTable_index h ht)] at hkey
    obtain ⟨r, hr, htarget⟩ := ForeignKey.exists_reference hkey
    exact hreference r hr htarget
  | some base =>
    simp only [hbase] at hu
    obtain rfl | hu := List.mem_cons.1 hu
    · exact .inl (viewBase_mem_dependencies hbase)
    · obtain ⟨r, hr, rfl⟩ := List.mem_map.1 hu
      exact hreference r (Ddl.joiningReferences_sublist.subset hr) rfl

theorem target_mem_named {base : Fin c.size} (hbase : t.viewBase = some base) {r : Reference c.size}
    (hr : r ∈ t.references) : ∃ u ∈ t.named d, u.1 = r.target := by
  obtain hseen | hjoined := @Ddl.target_mem_joining c [] t.references r hr
  · cases hseen
  · obtain ⟨joined, hmem, htarget⟩ := List.mem_map.1 hjoined
    unfold LinkedTable.named
    rw [hbase]
    exact ⟨_, List.mem_cons_of_mem _ (List.mem_map_of_mem hmem), htarget⟩

/-- All that a statement names was created before, a table that refers to itself apart, unless it is that of a view
which joins itself. -/
theorem created_before_iff (h : c.link = .ok l) {before after : List (LinkedTable c)}
    (hsplit : l.ordered = before ++ t :: after) :
    (∀ u ∈ t.named d, (∃ b ∈ before, b.index = u.1) ∨ t.isView = false ∧ u.1 = t.index) ↔
      (t.isView = true → ∀ r ∈ t.references, r.target ≠ t.index) := by
  have htables := tables_of_link h
  have ht : t ∈ l.tables := mem_tables_of_mem_ordered (hsplit ▸ by simp)
  have hready := ready_at_turn h hsplit
  have hview := Link.isView_of_linkTables htables ht
  constructor
  · intro hnamed hisView r hr hself
    rw [hisView] at hview
    obtain ⟨base, hbase⟩ := Option.isSome_iff_exists.1 hview
    obtain ⟨u, hu, htarget⟩ := target_mem_named (d := d) hbase hr
    obtain ⟨b, hb, hindex⟩ | ⟨htable, -⟩ := hnamed u hu
    · have hmem := List.mem_map_of_mem (f := fun b : LinkedTable c => b.index) hb
      rw [hindex, htarget, hself] at hmem
      exact hready.unplaced hmem
    · rw [hisView] at htable
      cases htable
  · intro hother u hu
    obtain hdepends | ⟨hself, r, hr, htarget⟩ := named_cases htables ht hu
    · obtain ⟨b, hb, hindex⟩ := List.mem_map.1 (hready.placed u.1 hdepends)
      exact .inl ⟨b, hb, hindex⟩
    · cases hisView : t.isView with
      | true => exact absurd htarget (hother hisView r hr)
      | false => exact .inr ⟨rfl, hself⟩

theorem generate_eq_ok {withNamespaces : Bool} {statements : List String} :
    Ddl.generate d withNamespaces l = .ok statements ↔ ∃ creates, l.ordered.mapM (Ddl.create d) = .ok creates ∧
      statements = (if withNamespaces then Ddl.createNamespaces d c else []) ++ creates.map (Ddl.Create.sql d) := by
  constructor
  · intro h
    obtain ⟨texts, htexts, hpure⟩ := bind_eq_ok.1 h
    obtain ⟨creates, hcreates, rfl⟩ := mapM_map_eq_ok.1 htexts
    exact ⟨creates, hcreates, (pure_eq_ok.1 hpure).symm⟩
  · rintro ⟨creates, hcreates, rfl⟩
    exact bind_eq_ok.2 ⟨_, mapM_map_eq_ok.2 ⟨creates, hcreates, rfl⟩, rfl⟩

theorem exists_generate (h : (l.ordered.mapM (Ddl.create d)).toBool) (withNamespaces : Bool) :
    ∃ statements, Ddl.generate d withNamespaces l = .ok statements := by
  obtain ⟨creates, hcreates⟩ := exists_ok_of_toBool h
  exact ⟨_, generate_eq_ok.2 ⟨creates, hcreates, rfl⟩⟩

/-- The statements of a linked catalog: first the namespaces in use if they are to be created, in increasing order and
each once; then one statement for each table, in the order of the catalog, whose text creates the table and refers to
those it names. Every table that a statement names stands before it, or is the very table that it creates; but not so
for a view, which must not join itself. -/
theorem generate_in_order (h : c.link = .ok l) {withNamespaces : Bool} {statements : List String}
    (hgen : Ddl.generate d withNamespaces l = .ok statements) :
    (∃ creates : List Ddl.Create,
      List.Forall₂ (fun t s => s.name = t.schema.objectName ∧ s.referenced = (t.named d).map (·.2) ∧
        Ddl.Creates d t.schema.objectName (t.schema.columns.toList.map (·.name)) ((t.named d).map (·.2)) (s.sql d))
        l.ordered creates ∧
      statements =
        (if withNamespaces && d.hasNamespaces then
          (Ddl.namespaces c).map fun ns => "CREATE SCHEMA IF NOT EXISTS " ++ quoteName ns else []) ++
        creates.map (Ddl.Create.sql d)) ∧
    (∀ before t after, l.ordered = before ++ t :: after →
      ((∀ u ∈ t.named d, (∃ b ∈ before, b.index = u.1) ∨ t.isView = false ∧ u.1 = t.index) ↔
        (t.isView = true → ∀ r ∈ t.references, r.target ≠ t.index))) ∧
    (∀ ns, ns ∈ Ddl.namespaces c ↔ ∃ table ∈ c.tables, table.ns = some ns) ∧
    (Ddl.namespaces c).Pairwise (· < ·) := by
  refine ⟨?_, fun _ _ _ => created_before_iff h, fun _ => Ddl.mem_namespaces, Ddl.increasing_namespaces c⟩
  obtain ⟨creates, hcreates, rfl⟩ := generate_eq_ok.1 hgen
  refine ⟨creates, (mapM_eq_ok.1 hcreates).imp fun t s hs => ?_, ?_⟩
  · exact ⟨(Ddl.names_of_create hs).1, (Ddl.names_of_create hs).2, Ddl.creates_of_create hs⟩
  rw [Ddl.createNamespaces_eq]
  cases withNamespaces <;> simp

/-- The tables of the feed in the order of their creation: users, posts, view. -/
def feedOrdered : List (LinkedTable feed) := [
  { index := ⟨2, by decide⟩, primaryKey := ["USER_ID"], uniqueKeys := [], references := [], foreignKeys := [],
    viewBase := none },
  { index := ⟨1, by decide⟩
    primaryKey := ["POST_ID"]
    uniqueKeys := []
    references := [⟨"userId", "USER_ID", ⟨2, by decide⟩, "userId", "USER_ID"⟩,
      ⟨"replyTo", "REPLY_TO", ⟨1, by decide⟩, "postId", "POST_ID"⟩]
    foreignKeys := [⟨⟨2, by decide⟩, [("USER_ID", "USER_ID")]⟩, ⟨⟨1, by decide⟩, [("REPLY_TO", "POST_ID")]⟩]
    viewBase := none },
  { index := ⟨0, by decide⟩
    primaryKey := []
    uniqueKeys := []
    references := [⟨"userId", "USER_ID", ⟨2, by decide⟩, "userId", "USER_ID"⟩]
    foreignKeys := [⟨⟨2, by decide⟩, [("USER_ID", "USER_ID")]⟩]
    viewBase := some ⟨1, by decide⟩ }]

set_option maxRecDepth 8000 in
/-- Posts may reply to posts: their statement names the very table that it creates. -/
theorem feed_created_in_order : ∃ l statements, feed.link = .ok l ∧ Ddl.generate .sqlite false l = .ok statements ∧
    ∀ before t after, l.ordered = before ++ t :: after →
      ∀ u ∈ t.named .sqlite, (∃ b ∈ before, b.index = u.1) ∨ t.isView = false ∧ u.1 = t.index := by
  have hlinked : feed.link.toOption.map (·.ordered) = some feedOrdered := by cbv
  obtain ⟨l, hl, hordered⟩ := exists_ok_of_toOption hlinked
  have hcreated : (l.ordered.mapM (Ddl.create .sqlite)).toBool := by
    rw [hordered]
    rfl
  have hviews : feedOrdered.all fun t => !t.isView || t.references.all fun r => r.target != t.index := by rfl
  obtain ⟨statements, hgen⟩ := exists_generate hcreated false
  obtain ⟨-, horder, -⟩ := generate_in_order hl hgen
  refine ⟨l, statements, hl, hgen, fun before t after hsplit => (horder before t after hsplit).2 ?_⟩
  intro hview r hr
  have ht : t ∈ feedOrdered := by
    rw [← hordered, hsplit]
    exact List.mem_append_right before List.mem_cons_self
  have hother := List.all_eq_true.1 hviews t ht
  rw [hview] at hother
  simpa using List.all_eq_true.1 hother r hr

/-- The staff with their bosses, and a view of them that joins itself. -/
def orgChart : Catalog where
  tables := [
    (Table.ofName "STAFF").addColumn { field := "id", kind := .long, primaryKey := true }
      |>.addColumn { field := "bossId", kind := .long },
    (Table.view "TREE" "STAFF").addColumn { field := "id", kind := .long }
      |>.addColumn { field := "bossId", kind := .long, join := some { table := "TREE", field := some "id" } }]

def orgStaff : LinkedTable orgChart :=
  { index := ⟨0, by decide⟩, primaryKey := ["ID"], uniqueKeys := [], references := [], foreignKeys := [],
    viewBase := none }

def orgTree : LinkedTable orgChart where
  index := ⟨1, by decide⟩
  primaryKey := []
  uniqueKeys := []
  references := [⟨"bossId", "BOSS_ID", ⟨1, by decide⟩, "id", "ID"⟩]
  foreignKeys := [⟨⟨1, by decide⟩, [("BOSS_ID", "ID")]⟩]
  viewBase := some ⟨0, by decide⟩

set_option maxRecDepth 8000 in
/-- The view is linked and created, though nothing before it is what it joins. -/
theorem tree_joins_itself : ∃ l statements, orgChart.link = .ok l ∧
    Ddl.generate .postgres true l = .ok statements ∧
    ∃ before t, l.ordered = before ++ [t] ∧ t.isView = true ∧
      (t.index, ⟨none, "TREE"⟩) ∈ t.named .postgres ∧ t.schema.objectName = ⟨none, "TREE"⟩ ∧
      Ddl.createSql .postgres t = .ok ("CREATE OR REPLACE VIEW \"TREE\" AS SELECT B.\"ID\", B.\"BOSS_ID\"\n" ++
        "FROM \"STAFF\" B\nJOIN \"TREE\" ON B.\"BOSS_ID\" = \"TREE\".\"ID\"") ∧
      ∀ b ∈ before, b.index ≠ t.index := by
  have hlinked : orgChart.link.toOption.map (·.ordered) = some ([orgStaff] ++ [orgTree]) := by cbv
  obtain ⟨l, hl, hordered⟩ := exists_ok_of_toOption hlinked
  have hcreated : (l.ordered.mapM (Ddl.create .postgres)).toBool := by
    rw [hordered]
    rfl
  have hnamed : orgTree.named .postgres = [(⟨0, by decide⟩, ⟨none, "STAFF"⟩), (orgTree.index, ⟨none, "TREE"⟩)] := by rfl
  obtain ⟨statements, hgen⟩ := exists_generate hcreated true
  refine ⟨l, statements, hl, hgen, [orgStaff], orgTree, hordered, rfl, ?_, rfl, rfl, ?_⟩
  · rw [hnamed]
    exact List.mem_cons_of_mem _ List.mem_cons_self
  · intro b hb heq
    rw [List.mem_singleton.1 hb] at heq
    cases heq

end EntitySql
