import EntitySql.Proofs.Ddl.Printed
import EntitySql.Proofs.Link.Placement

/-! The order in which the tables of a catalog are created: all of them, each at its turn. What depends on others
comes after them, and is dropped before them. -/
namespace EntitySql
variable {c : Catalog} {tables : List (LinkedTable c)} {l : LinkedCatalog c} {t u : LinkedTable c}

/-- A table that can be created next: all it depends on is there. -/
structure LinkedTable.Ready (placed : List (Fin c.size)) (t : LinkedTable c) : Prop where
  unplaced : t.index ∉ placed
  placed : ∀ i ∈ t.dependencies, i ∈ placed

/-- Whether a table is created before another if both can be: it is no view, or it is declared first. -/
def LinkedTable.Precedes (t u : LinkedTable c) : Prop :=
  t.isView < u.isView ∨ t.isView = u.isView ∧ t.index < u.index

namespace Link

theorem parts_of_linkTable {i : Fin c.size} (h : linkTable c i = .ok t) :
    resolveBase c (c.table i) = .ok t.viewBase ∧
      resolveJoins c (c.table i) (c.table i).columns.toList = .ok t.references ∧ t.index = i := by
  obtain ⟨_, _, h⟩ := bind_eq_ok.1 h
  obtain ⟨base, hbase, h⟩ := bind_eq_ok.1 h
  obtain ⟨references, hreferences, h⟩ := bind_eq_ok.1 h
  obtain ⟨keys, _, h⟩ := bind_eq_ok.1 h
  rw [← pure_eq_ok.1 h]
  exact ⟨hbase, hreferences, rfl⟩

theorem index_of_linkTable {i : Fin c.size} (h : linkTable c i = .ok t) : t.index = i :=
  (parts_of_linkTable h).2.2

theorem map_index_linkTables (h : linkTables c = .ok tables) : tables.map (·.index) = List.finRange c.size := by
  obtain ⟨_, _, h⟩ := bind_eq_ok.1 h
  have hindex : List.Forall₂ (fun i t => i = t.index) (List.finRange c.size) tables :=
    (mapM_eq_ok.1 h).imp fun i t ht => (index_of_linkTable ht).symm
  rw [← List.forall₂_map_right_iff, List.forall₂_eq_eq_eq] at hindex
  exact hindex.symm

section
variable (htables : tables.map (·.index) = List.finRange c.size)
include htables

theorem getElem?_index (ht : t ∈ tables) : tables[t.index.val]? = some t := by
  obtain ⟨k, hk, rfl⟩ := List.getElem_of_mem ht
  have hindex : (List.finRange c.size)[k]? = some tables[k].index := by
    rw [← htables]
    simp [hk]
  obtain ⟨hlt, hget⟩ := List.getElem?_eq_some_iff.1 hindex
  have hval : tables[k].index.val = k := by
    rw [← hget]
    simp
  rw [hval]
  exact List.getElem?_eq_getElem hk

theorem eq_of_index_eq (ht : t ∈ tables) (hu : u ∈ tables) (h : t.index = u.index) : t = u := by
  have hsome := getElem?_index htables ht
  rw [h, getElem?_index htables hu] at hsome
  exact (Option.some.inj hsome).symm

theorem exists_index (i : Fin c.size) : ∃ t ∈ tables, t.index = i := by
  have hmem : i ∈ tables.map (·.index) := by
    rw [htables]
    exact List.mem_finRange i
  exact List.mem_map.1 hmem

theorem dependsOn_graphOf (ht : t ∈ tables) {j : Fin c.size} :
    (graphOf tables).dependsOn t.index j ↔ j ∈ t.dependencies := by
  simp only [graphOf, List.any_eq_true, Bool.and_eq_true, decide_eq_true_eq, List.contains_iff_mem]
  constructor
  · rintro ⟨u, hu, hindex, hj⟩
    rwa [eq_of_index_eq htables hu ht hindex] at hj
  · exact fun hj => ⟨t, ht, rfl, hj⟩

theorem ready_graphOf (ht : t ∈ tables) {placed : List (Fin c.size)} :
    (graphOf tables).Ready placed t.index ↔ t.Ready placed := by
  constructor
  · exact fun h => ⟨h.unplaced, fun i hi => h.placed i ((dependsOn_graphOf htables ht).2 hi)⟩
  · exact fun h => ⟨h.unplaced, fun i hi => h.placed i ((dependsOn_graphOf htables ht).1 hi)⟩

end

theorem precedes_graphOf (h : (graphOf tables).precedes t.index u.index) : t.Precedes u := by
  change (if t.isView = u.isView then decide (t.index < u.index) else u.isView) = true at h
  split at h
  · next heq => exact .inr ⟨heq, of_decide_eq_true h⟩
  · next hne =>
    rw [h] at hne
    have ht : t.isView = false := Bool.eq_false_iff.2 hne
    refine .inl ?_
    rw [ht, h]
    decide

theorem placed_of_emissionOrder {order : List (Fin c.size)} (h : emissionOrder tables = .ok order) :
    ∃ s, (graphOf tables).Placed s ∧ s.order = order ∧ c.size ≤ order.length := by
  unfold emissionOrder at h
  split at h
  · exact absurd h throw_ne_ok
  · dsimp only at h
    split at h
    · exact absurd h throw_ne_ok
    · next hlength =>
      rw [← pure_eq_ok.1 h]
      exact ⟨_, Graph.placed_place Graph.placed_start, rfl, by omega⟩

end Link

theorem perm_finRange {n : Nat} {order : List (Fin n)} (hnodup : order.Nodup) (hlength : n ≤ order.length) :
    order.Perm (List.finRange n) := by
  have hsubperm : order.Subperm (List.finRange n) :=
    List.subperm_of_subset hnodup fun i _ => List.mem_finRange i
  exact hsubperm.perm_of_length_le (by simpa using hlength)

theorem idxOf_lt_idxOf {n : Nat} {before after : List (Fin n)} {i j : Fin n} (hj : j ∈ before) (hi : i ∉ before) :
    (before ++ i :: after).idxOf j < (before ++ i :: after).idxOf i := by
  rw [List.idxOf_append_of_mem hj, List.idxOf_append_of_notMem hi, List.idxOf_cons_self]
  have hlt := List.idxOf_lt_length_of_mem hj
  omega

theorem placed_of_link (h : c.link = .ok l) :
    l.tables.map (·.index) = List.finRange c.size ∧
      ∃ s, (Link.graphOf l.tables).Placed s ∧ s.order = l.order ∧ c.size ≤ l.order.length := by
  obtain ⟨tables, htables, h⟩ := bind_eq_ok.1 h
  obtain ⟨order, horder, h⟩ := bind_eq_ok.1 h
  rw [← pure_eq_ok.1 h]
  exact ⟨Link.map_index_linkTables htables, Link.placed_of_emissionOrder horder⟩

/-- Each table is created at its turn: it can be, and no table that could be as well precedes it. -/
theorem next_of_link (h : c.link = .ok l) {before after : List (Fin c.size)} {i : Fin c.size}
    (hsplit : l.order = before ++ i :: after) :
    ∃ t ∈ l.tables, t.index = i ∧ t.Ready before ∧
      ∀ u ∈ l.tables, u.Ready before → u = t ∨ t.Precedes u := by
  obtain ⟨htables, s, hplaced, horder, -⟩ := placed_of_link h
  obtain ⟨t, ht, rfl⟩ := Link.exists_index htables i
  have hnext := hplaced.next before t.index after (horder.trans hsplit)
  refine ⟨t, ht, rfl, (Link.ready_graphOf htables ht).1 hnext.ready, fun u hu hready => ?_⟩
  obtain hindex | hprecedes := hnext.least u.index ((Link.ready_graphOf htables hu).2 hready)
  · exact .inl (Link.eq_of_index_eq htables hu ht hindex)
  · exact .inr (Link.precedes_graphOf hprecedes)

theorem perm_of_link (h : c.link = .ok l) : l.order.Perm (List.finRange c.size) := by
  obtain ⟨-, s, hplaced, horder, hlength⟩ := placed_of_link h
  exact perm_finRange (horder ▸ hplaced.nodup) hlength

theorem split_of_link (h : c.link = .ok l) (ht : t ∈ l.tables) :
    ∃ before after, l.order = before ++ t.index :: after ∧ t.Ready before := by
  obtain ⟨htables, -⟩ := placed_of_link h
  obtain ⟨before, after, hsplit⟩ :=
    List.append_of_mem ((perm_of_link h).mem_iff.2 (List.mem_finRange t.index))
  obtain ⟨t', ht', hindex, hready, -⟩ := next_of_link h hsplit
  rw [Link.eq_of_index_eq htables ht' ht hindex] at hready
  exact ⟨before, after, hsplit, hready⟩

theorem idxOf_dependency_lt (h : c.link = .ok l) (ht : t ∈ l.tables) {i : Fin c.size} (hi : i ∈ t.dependencies) :
    l.order.idxOf i < l.order.idxOf t.index := by
  obtain ⟨before, after, hsplit, hready⟩ := split_of_link h ht
  rw [hsplit]
  exact idxOf_lt_idxOf (hready.placed i hi) hready.unplaced

theorem drops_of_link (h : c.link = .ok l) (ht : t ∈ l.tables) :
    ∃ first rest, l.ordered.reverse = first ++ t :: rest ∧
      ∀ u ∈ l.tables, u.index ∈ t.dependencies → u ∈ rest := by
  obtain ⟨htables, -⟩ := placed_of_link h
  obtain ⟨before, after, hsplit, hready⟩ := split_of_link h ht
  have hlookup := Link.getElem?_index htables ht
  have hordered : l.ordered = before.filterMap (l.tables[·.val]?) ++ t :: after.filterMap (l.tables[·.val]?) := by
    simp [LinkedCatalog.ordered, hsplit, hlookup]
  refine ⟨(after.filterMap (l.tables[·.val]?)).reverse, (before.filterMap (l.tables[·.val]?)).reverse, ?_, ?_⟩
  · simp [hordered]
  · intro u hu hdepends
    have hmem := hready.placed u.index hdepends
    exact List.mem_reverse.2 (List.mem_filterMap.2 ⟨u.index, hmem, Link.getElem?_index htables hu⟩)

theorem reference_mem_dependencies {r : Reference c.size} (hr : r ∈ t.references) (hne : r.target ≠ t.index) :
    r.target ∈ t.dependencies :=
  List.mem_append_left _ (List.mem_filter.2 ⟨List.mem_map_of_mem hr, by simpa using hne⟩)

theorem viewBase_mem_dependencies {base : Fin c.size} (h : base ∈ t.viewBase) : base ∈ t.dependencies :=
  List.mem_append_right _ (Option.mem_toList.2 h)

/-- The order of a linked catalog has every table once, after the other tables it refers to and after its base; at
each place stands the first of the tables that can be created there. The statements that drop the catalog are those of
its tables, each with the name of its table, and a table is dropped before all it depends on. -/
theorem order_of_link (h : c.link = .ok l) :
    l.tables.map (·.index) = List.finRange c.size ∧
    l.order.Perm (List.finRange c.size) ∧
    (∀ t ∈ l.tables,
      (∀ r ∈ t.references, r.target ≠ t.index → l.order.idxOf r.target < l.order.idxOf t.index) ∧
      ∀ base ∈ t.viewBase, l.order.idxOf base < l.order.idxOf t.index) ∧
    (∀ before i after, l.order = before ++ i :: after →
      ∃ t ∈ l.tables, t.index = i ∧ t.Ready before ∧ ∀ u ∈ l.tables, u.Ready before → u = t ∨ t.Precedes u) ∧
    ∀ d, ∀ t ∈ l.tables, ∃ first rest,
      l.ordered.reverse = first ++ t :: rest ∧
      (∀ u ∈ l.tables, u.index ∈ t.dependencies → u ∈ rest) ∧
      List.Forall₂ (Ddl.Drops d) (first ++ t :: rest) (Ddl.drops d l) := by
  refine ⟨(placed_of_link h).1, perm_of_link h, fun t ht => ⟨?_, ?_⟩, fun _ _ _ => next_of_link h, fun d t ht => ?_⟩
  · exact fun r hr hne => idxOf_dependency_lt h ht (reference_mem_dependencies hr hne)
  · exact fun base hbase => idxOf_dependency_lt h ht (viewBase_mem_dependencies hbase)
  · obtain ⟨first, rest, hreverse, hrest⟩ := drops_of_link h ht
    refine ⟨first, rest, hreverse, hrest, ?_⟩
    rw [Ddl.drops, hreverse, List.forall₂_map_right_iff, List.forall₂_same]
    exact fun u _ => Ddl.drops_dropSql d u

/-- Posts of users, which may reply to each other, and a view of the posts with their users. -/
def feed : Catalog where
  tables := [
    (Table.view "FEED" "POST").addColumn
      { field := "userId", kind := .long, join := some { table := "USERS", field := some "userId" } },
    (Table.ofName "POST").addColumn { field := "postId", kind := .long, primaryKey := true }
      |>.addColumn { field := "userId", kind := .long, join := some { table := "USERS", field := some "userId" } }
      |>.addColumn { field := "replyTo", kind := .long, join := some { table := "POST", field := some "postId" } },
    (Table.ofName "USERS").addColumn { field := "userId", kind := .long, primaryKey := true }]

set_option maxRecDepth 8000 in
/-- Users, posts, view: the declaration order turned around. The view is dropped first. -/
theorem feed_in_order : ∃ l, feed.link = .ok l ∧ l.order.map Fin.val = [2, 1, 0] ∧
    l.order.Perm (List.finRange feed.size) ∧
    (∀ t ∈ l.tables, ∀ r ∈ t.references, r.target ≠ t.index → l.order.idxOf r.target < l.order.idxOf t.index) ∧
    Ddl.drops .postgres l =
      ["DROP VIEW IF EXISTS \"FEED\"", "DROP TABLE IF EXISTS \"POST\"", "DROP TABLE IF EXISTS \"USERS\""] := by
  have hlinked : feed.link.toOption.map (fun l => (l.order.map Fin.val, Ddl.drops .postgres l)) = some ([2, 1, 0],
      ["DROP VIEW IF EXISTS \"FEED\"", "DROP TABLE IF EXISTS \"POST\"", "DROP TABLE IF EXISTS \"USERS\""]) := by cbv
  obtain ⟨l, h, hlist⟩ := exists_ok_of_toOption hlinked
  obtain ⟨horder, hdrops⟩ := Prod.mk.inj hlist
  obtain ⟨-, hperm, hbefore, -⟩ := order_of_link h
  exact ⟨l, h, horder, hperm, fun t ht => (hbefore t ht).1, hdrops⟩

end EntitySql
