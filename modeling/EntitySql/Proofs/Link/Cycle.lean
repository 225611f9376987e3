import EntitySql.Proofs.Link.Order

/-! Catalogs that cannot be created in any order: linking fails exactly if tables depend on each other in a circle,
and the error names such a circle. It is found by a walk among the unplaced tables, each of which waits for another
one, so the walk goes on until it meets its own path. -/
namespace EntitySql
variable {c : Catalog} {tables : List (LinkedTable c)} {t u : LinkedTable c} {i j : Fin c.size}

/-- A table depends on the other tables that its columns join; a view depends on its base, even if that is itself. -/
def Catalog.Depends (c : Catalog) (i j : Fin c.size) : Prop :=
  (∃ column ∈ (c.table i).columns.toList, ∃ join ∈ column.join, c.index? join.table = some j ∧ j ≠ i) ∨
    ∃ base ∈ (c.table i).viewOf, c.index? base = some j

/-- A path that ends where it began, and else names no table twice. -/
structure Catalog.IsCycle (c : Catalog) (path : List (Fin c.size)) : Prop where
  two_le_length : 2 ≤ path.length
  closed : path.head? = path.getLast?
  depends : path.IsChain c.Depends
  nodup_names : (path.dropLast.map fun i => (c.table i).qualifiedName).Nodup

namespace Link

theorem resolveTable_eq_ok {t : Table} {name via : String} :
    resolveTable c t name via = .ok j ↔ c.index? name = some j := by
  unfold resolveTable
  cases c.index? name with
  | none => simp [throw_ne_ok]
  | some k => simp [pure_eq_ok]

theorem mem_of_resolveBase {t : Table} {base : Option (Fin c.size)} (h : resolveBase c t = .ok base) :
    base = some j ↔ ∃ name ∈ t.viewOf, c.index? name = some j := by
  unfold resolveBase at h
  cases hview : t.viewOf with
  | none =>
    rw [hview] at h
    simp [← pure_eq_ok.1 h]
  | some name =>
    simp only [hview] at h
    split at h
    · exact absurd h throw_ne_ok
    · obtain ⟨k, hk, hpure⟩ := bind_eq_ok.1 h
      rw [← pure_eq_ok.1 hpure]
      simp [resolveTable_eq_ok.1 hk]

theorem target_of_resolveJoin {t : Table} {column : Column} {join : JoinTarget} {r : Reference c.size}
    (h : resolveJoin c t column join = .ok r) : c.index? join.table = some r.target := by
  obtain ⟨k, hk, h⟩ := bind_eq_ok.1 h
  dsimp only at h
  have hrest : ∃ found, targetColumn t column join (c.table k) = .ok found ∧
      pure ⟨column.field, column.name, k, found.field, found.name⟩ =
        (.ok r : Except CompileError (Reference c.size)) := by
    split at h
    · obtain ⟨_, hthrow, _⟩ := bind_eq_ok.1 h
      exact absurd hthrow throw_ne_ok
    · exact bind_eq_ok.1 h
  obtain ⟨found, _, hpure⟩ := hrest
  rw [← pure_eq_ok.1 hpure]
  exact resolveTable_eq_ok.1 hk

theorem mem_targets_of_resolveJoins {t : Table} {columns : List Column} {refs : List (Reference c.size)}
    (h : resolveJoins c t columns = .ok refs) :
    j ∈ refs.map (·.target) ↔ ∃ column ∈ columns, ∃ join ∈ column.join, c.index? join.table = some j := by
  induction columns generalizing refs with
  | nil => simp [← pure_eq_ok.1 h]
  | cons column columns ih =>
    rw [resolveJoins] at h
    cases hjoin : column.join with
    | none =>
      simp only [hjoin] at h
      simp [ih h, hjoin]
    | some join =>
      simp only [hjoin] at h
      obtain ⟨r, hr, h⟩ := bind_eq_ok.1 h
      obtain ⟨rest, hrest, hpure⟩ := bind_eq_ok.1 h
      have htarget := target_of_resolveJoin hr
      rw [← pure_eq_ok.1 hpure, List.map_cons, List.mem_cons, ih hrest]
      simp [hjoin, htarget, eq_comm]

theorem linkTable_index (h : linkTables c = .ok tables) (ht : t ∈ tables) : linkTable c t.index = .ok t := by
  obtain ⟨_, _, h⟩ := bind_eq_ok.1 h
  obtain ⟨i, -, hi⟩ := exists_of_mem_mapM h ht
  rwa [index_of_linkTable hi]

/-- What a linked table waits for is what the declared table depends on. -/
theorem mem_dependencies_iff (h : linkTables c = .ok tables) (ht : t ∈ tables) :
    j ∈ t.dependencies ↔ c.Depends t.index j := by
  obtain ⟨hbase, hjoins, -⟩ := parts_of_linkTable (linkTable_index h ht)
  have hjoined := mem_targets_of_resolveJoins (j := j) hjoins
  have hview := mem_of_resolveBase (j := j) hbase
  rw [LinkedTable.dependencies, List.mem_append, List.mem_filter, hjoined, Option.mem_toList, hview, Catalog.Depends]
  simp only [decide_not, Bool.not_eq_eq_eq_not, Bool.not_true, decide_eq_false_iff_not]
  refine or_congr_left ⟨?_, ?_⟩
  · rintro ⟨⟨column, hcolumn, join, hjoin, hindex⟩, hne⟩
    exact ⟨column, hcolumn, join, hjoin, hindex, hne⟩
  · rintro ⟨column, hcolumn, join, hjoin, hindex, hne⟩
    exact ⟨⟨column, hcolumn, join, hjoin, hindex⟩, hne⟩

theorem firstRepeated_eq_none {seen texts : List String} :
    firstRepeated seen texts = none ↔ texts.Nodup ∧ ∀ s ∈ texts, s ∉ seen := by
  induction texts generalizing seen with
  | nil => simp [firstRepeated]
  | cons s texts ih =>
    have hrest : (∀ s' ∈ texts, s' ∉ s :: seen) ↔ s ∉ texts ∧ ∀ s' ∈ texts, s' ∉ seen := by
      simp only [List.mem_cons, not_or, forall_and]
      rw [← List.forall_mem_ne']
    rw [firstRepeated, List.nodup_cons, List.forall_mem_cons]
    by_cases hs : s ∈ seen
    · simp [hs]
    · rw [if_neg hs, ih, hrest, and_iff_right hs, and_assoc, and_left_comm]

theorem checkTableNames_eq_ok : checkTableNames c = .ok () ↔ (c.tables.map Table.qualifiedName).Nodup := by
  have hrepeated := @firstRepeated_eq_none [] (c.tables.map Table.qualifiedName)
  unfold checkTableNames
  cases h : firstRepeated [] (c.tables.map Table.qualifiedName) with
  | some name => simpa [h, throw_ne_ok] using hrepeated
  | none => simpa [h, pure_eq_ok] using hrepeated

theorem nodup_qualifiedNames (h : linkTables c = .ok tables) : (c.tables.map Table.qualifiedName).Nodup := by
  obtain ⟨_, hnames, _⟩ := bind_eq_ok.1 h
  exact checkTableNames_eq_ok.1 hnames

theorem eq_of_qualifiedName (hnames : (c.tables.map Table.qualifiedName).Nodup)
    (h : (c.table i).qualifiedName = (c.table j).qualifiedName) : i = j := by
  have hi : (c.tables.map Table.qualifiedName)[i.val]? = some (c.table i).qualifiedName := by
    simp [Catalog.table]
  have hj : (c.tables.map Table.qualifiedName)[j.val]? = some (c.table j).qualifiedName := by
    simp [Catalog.table]
  have hlt : i.val < (c.tables.map Table.qualifiedName).length := by simp
  refine Fin.ext ((List.getElem?_inj hlt hnames).1 ?_)
  rw [hi, hj, h]

theorem qualifiedName_inj (h : linkTables c = .ok tables) :
    (c.table i).qualifiedName = (c.table j).qualifiedName ↔ i = j :=
  ⟨eq_of_qualifiedName (nodup_qualifiedNames h), fun heq => congrArg (fun i => (c.table i).qualifiedName) heq⟩

/-- The search, whether or not it comes to an end: it goes on from a path that leads to a table, and after some
rounds finds a path. -/
inductive Finds (waiting : List (LinkedTable c)) :
    List (LinkedTable c) → LinkedTable c → Nat → List (LinkedTable c) → Prop where
  | lost {path : List (LinkedTable c)} {t : LinkedTable c} (h : waiting.find? t.dependsOn = none) :
      Finds waiting path t 1 path
  | closed {path : List (LinkedTable c)} {t u : LinkedTable c} (h : waiting.find? t.dependsOn = some u)
      (hu : path.any (·.index = u.index)) :
      Finds waiting path t 1 (path.dropWhile (·.index ≠ u.index) ++ [u])
  | further {path found : List (LinkedTable c)} {t u : LinkedTable c} {rounds : Nat}
      (h : waiting.find? t.dependsOn = some u) (hu : ¬path.any (·.index = u.index))
      (hrest : Finds waiting (path ++ [u]) u rounds found) : Finds waiting path t (rounds + 1) found

/-- The search ends, since each round but the last visits a table for the first time. -/
theorem finds_walk (waiting path : List (LinkedTable c)) (t : LinkedTable c) :
    ∃ rounds ≤ (unvisited waiting path).length + 1, Finds waiting path t rounds (walk waiting path t) := by
  fun_induction walk waiting path t with
  | case1 path t h => exact ⟨1, by omega, .lost h⟩
  | case2 path t u h hu => exact ⟨1, by omega, .closed h hu⟩
  | case3 path t u h hu hlt ih =>
    obtain ⟨rounds, hrounds, hfinds⟩ := ih
    exact ⟨rounds + 1, by omega, .further h hu hfinds⟩

section
variable {waiting path : List (LinkedTable c)}

/-- A path along which the search has come to a table. -/
structure Visited (waiting path : List (LinkedTable c)) (t : LinkedTable c) : Prop where
  last : path.getLast? = some t
  waits : path.IsChain fun t u => t.dependsOn u
  nodup : (path.map (·.index)).Nodup
  subset : path ⊆ waiting

theorem Visited.start (ht : t ∈ waiting) : Visited waiting [t] t where
  last := rfl
  waits := .singleton t
  nodup := List.nodup_singleton _
  subset := by simpa using ht

theorem Visited.further (h : Visited waiting path t) (hu : u ∈ waiting) (hdepends : t.dependsOn u)
    (hnew : ¬path.any (·.index = u.index)) : Visited waiting (path ++ [u]) u where
  last := by simp
  waits := by
    refine h.waits.append (.singleton u) fun x hx y hy => ?_
    rw [h.last] at hx
    cases hx
    cases hy
    exact hdepends
  nodup := by
    rw [List.map_append, List.map_singleton]
    refine h.nodup.append (List.nodup_singleton _) (List.disjoint_singleton.2 fun hmem => hnew ?_)
    obtain ⟨v, hv, hindex⟩ := List.mem_map.1 hmem
    exact List.any_eq_true.2 ⟨v, hv, by simpa using hindex⟩
  subset := List.append_subset.2 ⟨h.subset, by simpa using hu⟩

/-- A circle of waiting tables, with the table named twice at which it closes. -/
structure Circle (waiting path : List (LinkedTable c)) (u : LinkedTable c) : Prop where
  head : path.head? = some u
  waits : (path ++ [u]).IsChain fun t u => t.dependsOn u
  nodup : (path.map (·.index)).Nodup
  subset : path ⊆ waiting

/-- The path since its first visit to the table that comes up again. -/
theorem Visited.circle (h : Visited waiting path t) (hdepends : t.dependsOn u)
    (hinj : ∀ v ∈ waiting, v.index = u.index → v = u) (hu : path.any (·.index = u.index)) :
    Circle waiting (path.dropWhile (·.index ≠ u.index)) u := by
  have hsuffix := List.dropWhile_suffix (l := path) (fun v => decide (v.index ≠ u.index))
  have hne : path.dropWhile (·.index ≠ u.index) ≠ [] := by
    intro hnil
    obtain ⟨v, hv, hindex⟩ := List.any_eq_true.1 hu
    have hall := List.dropWhile_eq_nil_iff.1 hnil v hv
    simp_all
  have hhead : (path.dropWhile (·.index ≠ u.index)).head? = some u := by
    have hfirst := List.head?_dropWhile_not (fun v : LinkedTable c => decide (v.index ≠ u.index)) path
    cases hdrop : path.dropWhile (·.index ≠ u.index) with
    | nil => exact absurd hdrop hne
    | cons v rest =>
      rw [hdrop] at hfirst hsuffix
      have hindex : v.index = u.index := by simpa using hfirst
      exact congrArg some (hinj v (h.subset (hsuffix.subset List.mem_cons_self)) hindex)
  have hlast : (path.dropWhile (·.index ≠ u.index)).getLast? = some t := by
    obtain ⟨before, hbefore⟩ := hsuffix
    have hpath := h.last
    rwa [← hbefore, List.getLast?_append_of_ne_nil _ hne] at hpath
  refine ⟨hhead, ?_, ?_, fun v hv => h.subset (hsuffix.subset hv)⟩
  · refine (h.waits.suffix hsuffix).append (.singleton u) fun x hx y hy => ?_
    rw [hlast] at hx
    cases hx
    cases hy
    exact hdepends
  · exact h.nodup.sublist (hsuffix.sublist.map _)

/-- Where every table waits for another one the walk finds a circle. -/
theorem circle_walk (hwaits : ∀ t ∈ waiting, ∃ u ∈ waiting, t.dependsOn u)
    (hinj : ∀ t ∈ waiting, ∀ u ∈ waiting, t.index = u.index → t = u) (h : Visited waiting path t) :
    ∃ circle u, walk waiting path t = circle ++ [u] ∧ Circle waiting circle u := by
  fun_induction walk waiting path t with
  | case1 path t hnone =>
    obtain ⟨u, hu, hdepends⟩ := hwaits t (h.subset (List.mem_of_getLast? h.last))
    exact absurd hdepends (List.find?_eq_none.1 hnone u hu)
  | case2 path t u hfind hvisited =>
    have hmem := List.mem_of_find?_eq_some hfind
    exact ⟨_, u, rfl, h.circle (List.find?_some hfind) (fun v hv => hinj v hv u hmem) hvisited⟩
  | case3 path t u hfind hnew hlt ih =>
    exact ih (h.further (List.mem_of_find?_eq_some hfind) (List.find?_some hfind) hnew)

end

section
variable (h : linkTables c = .ok tables)
include h

theorem isCycle_of_circle {circle : List (LinkedTable c)} (hcircle : Circle tables circle u) :
    c.IsCycle ((circle ++ [u]).map (·.index)) where
  two_le_length := by
    have hpos : 0 < circle.length := List.length_pos_of_mem (List.mem_of_head? hcircle.head)
    simp only [List.length_map, List.length_append, List.length_singleton]
    omega
  closed := by
    rw [List.head?_map, List.head?_append, hcircle.head, List.getLast?_map, List.getLast?_concat]
    rfl
  depends := by
    rw [List.isChain_map]
    have hu : u ∈ tables := hcircle.subset (List.mem_of_head? hcircle.head)
    refine hcircle.waits.imp_of_mem_imp fun t v ht _ hdepends => ?_
    have htables : t ∈ tables := by
      obtain ht | ht := List.mem_append.1 ht
      · exact hcircle.subset ht
      · rwa [List.mem_singleton.1 ht]
    exact (mem_dependencies_iff h htables).1 (List.contains_iff_mem.1 hdepends)
  nodup_names := by
    rw [List.map_append, List.map_singleton, List.dropLast_concat]
    exact hcircle.nodup.map fun i j hname => (qualifiedName_inj h).1 hname

/-- Of the tables that are left over each waits for another one of them. -/
theorem exists_dependsOn_of_unplaced {order : List (Fin c.size)}
    (horder : order = ((graphOf tables).place (graphOf tables).start).order) (ht : t ∈ tables)
    (hunplaced : t.index ∉ order) : ∃ u ∈ tables, u.index ∉ order ∧ t.dependsOn u := by
  have hindices := map_index_linkTables h
  have hnot : ¬(graphOf tables).Ready order t.index := by
    rw [horder]
    exact Graph.not_ready_place Graph.placed_start
  have hwaits : ∃ j, (graphOf tables).dependsOn t.index j ∧ j ∉ order := by
    by_contra hnone
    refine hnot ⟨hunplaced, fun j hj => ?_⟩
    by_contra hj'
    exact hnone ⟨j, hj, hj'⟩
  obtain ⟨j, hdepends, hj⟩ := hwaits
  obtain ⟨u, hu, rfl⟩ := exists_index hindices j
  exact ⟨u, hu, hj, List.contains_iff_mem.2 ((dependsOn_graphOf hindices ht).1 hdepends)⟩

theorem circle_of_unplaced {order : List (Fin c.size)}
    (horder : order = ((graphOf tables).place (graphOf tables).start).order) (hshort : order.length < c.size) :
    ∃ circle u, cycle (tables.filter (·.index ∉ order)) = circle ++ [u] ∧ Circle tables circle u := by
  have hindices := map_index_linkTables h
  have hmem : ∀ v, v ∈ tables.filter (·.index ∉ order) ↔ v ∈ tables ∧ v.index ∉ order := by
    intro v
    rw [List.mem_filter, decide_eq_true_eq]
  have hleft : tables.filter (·.index ∉ order) ≠ [] := by
    intro hnil
    have hall : List.finRange c.size ⊆ order := by
      intro i _
      obtain ⟨v, hv, rfl⟩ := exists_index hindices i
      by_contra hout
      have hv' := (hmem v).2 ⟨hv, hout⟩
      rw [hnil] at hv'
      cases hv'
    have hle := ((List.nodup_finRange c.size).subperm hall).length_le
    rw [List.length_finRange] at hle
    omega
  generalize hwaiting : tables.filter (·.index ∉ order) = waiting at hleft hmem
  have hsubset : waiting ⊆ tables := fun v hv => ((hmem v).1 hv).1
  cases waiting with
  | nil => exact absurd rfl hleft
  | cons t rest =>
    obtain ⟨circle, u, hwalk, hcircle⟩ := circle_walk
      (fun v hv => by
        obtain ⟨hv, hout⟩ := (hmem v).1 hv
        obtain ⟨u, hu, hunplaced, hdepends⟩ := exists_dependsOn_of_unplaced h horder hv hout
        exact ⟨u, (hmem u).2 ⟨hu, hunplaced⟩, hdepends⟩)
      (fun v hv w hw hindex => eq_of_index_eq hindices (hsubset hv) (hsubset hw) hindex)
      (Visited.start (t := t) List.mem_cons_self)
    exact ⟨circle, u, hwalk, hcircle.head, hcircle.waits, hcircle.nodup, fun v hv => hsubset (hcircle.subset hv)⟩

theorem isCycle_of_emissionOrder {e : CompileError} (he : emissionOrder tables = .error e) :
    ∃ path, c.IsCycle path ∧ e = .dependencyCycle (path.map fun i => (c.table i).qualifiedName) := by
  unfold emissionOrder at he
  split at he
  · next t hself =>
    cases he
    have ht := List.mem_of_find?_eq_some hself
    have hbase : t.viewBase = some t.index := by simpa using List.find?_some hself
    have hdepends : t.index ∈ t.dependencies := viewBase_mem_dependencies hbase
    have hcircle : Circle tables [t] t :=
      { head := rfl
        waits := List.isChain_pair.2 (List.contains_iff_mem.2 hdepends)
        nodup := List.nodup_singleton _
        subset := by simpa using ht }
    exact ⟨_, isCycle_of_circle h hcircle, rfl⟩
  · dsimp only at he
    split at he
    · next hshort =>
      cases he
      obtain ⟨circle, u, hcycle, hcircle⟩ := circle_of_unplaced h rfl hshort
      refine ⟨_, isCycle_of_circle h hcircle, ?_⟩
      rw [hcycle, List.map_map]
      rfl
    · cases he

end

end Link

theorem transGen_of_isCycle {path : List (Fin c.size)} (h : c.IsCycle path) :
    ∃ i, Relation.TransGen c.Depends i i := by
  obtain ⟨htwo, hclosed, hdepends, -⟩ := h
  match path with
  | [] => simp at htwo
  | [i] => simp at htwo
  | i :: j :: rest =>
    obtain ⟨hij, hrest⟩ := List.isChain_cons_cons.1 hdepends
    have hlast : (j :: rest).getLast (List.cons_ne_nil j rest) = i := by
      rw [List.head?_cons, List.getLast?_cons_cons, List.getLast?_eq_some_getLast (List.cons_ne_nil j rest)] at hclosed
      exact (Option.some.inj hclosed).symm
    exact ⟨i, .head' hij (List.relationReflTransGen_of_exists_isChain_cons rest hrest hlast)⟩

theorem tables_of_link {l : LinkedCatalog c} (h : c.link = .ok l) : Link.linkTables c = .ok l.tables := by
  obtain ⟨tables, htables, h⟩ := bind_eq_ok.1 h
  obtain ⟨order, _, h⟩ := bind_eq_ok.1 h
  rw [← pure_eq_ok.1 h]
  exact htables

/-- Where all tables have a place none depends on itself, directly or through others. -/
theorem not_transGen_of_link {l : LinkedCatalog c} (h : c.link = .ok l) : ¬Relation.TransGen c.Depends i i := by
  have hstep : ∀ {i j : Fin c.size}, c.Depends i j → l.order.idxOf j < l.order.idxOf i := by
    intro i j hij
    obtain ⟨t, ht, rfl⟩ := Link.exists_index (placed_of_link h).1 i
    exact idxOf_dependency_lt h ht ((Link.mem_dependencies_iff (tables_of_link h) ht).2 hij)
  have hrun : ∀ {i j : Fin c.size}, Relation.TransGen c.Depends i j → l.order.idxOf j < l.order.idxOf i := by
    intro i j hij
    induction hij with
    | single hij => exact hstep hij
    | tail _ hjk ih => exact (hstep hjk).trans ih
  exact fun hcycle => Nat.lt_irrefl _ (hrun hcycle)

theorem link_eq_error (h : Link.linkTables c = .ok tables) {e : CompileError} :
    c.link = .error e ↔ Link.emissionOrder tables = .error e := by
  unfold Catalog.link
  rw [h]
  cases horder : Link.emissionOrder tables with
  | error e' => simp [bind, Except.bind, horder]
  | ok order => simp [bind, Except.bind, horder, pure, Except.pure]

/-- A catalog whose tables link one by one fails exactly if tables depend on each other in a circle. The error names a
circle, each table depending on the next; the search for it ends, after at most one round more than there are tables
left. -/
theorem link_fails_iff (h : Link.linkTables c = .ok tables) :
    ((∃ e, c.link = .error e) ↔ ∃ i, Relation.TransGen c.Depends i i) ∧
      (∀ e, c.link = .error e →
        ∃ path, c.IsCycle path ∧ e = .dependencyCycle (path.map fun i => (c.table i).qualifiedName)) ∧
      ∀ (waiting : List (LinkedTable c)) (t : LinkedTable c),
        ∃ rounds ≤ waiting.length + 1, Link.Finds waiting [t] t rounds (Link.walk waiting [t] t) := by
  have herror : ∀ e, c.link = .error e →
      ∃ path, c.IsCycle path ∧ e = .dependencyCycle (path.map fun i => (c.table i).qualifiedName) :=
    fun e he => Link.isCycle_of_emissionOrder h ((link_eq_error h).1 he)
  refine ⟨⟨?_, ?_⟩, herror, ?_⟩
  · rintro ⟨e, he⟩
    obtain ⟨path, hcycle, -⟩ := herror e he
    exact transGen_of_isCycle hcycle
  · rintro ⟨i, hcycle⟩
    cases hlink : c.link with
    | error e => exact ⟨e, rfl⟩
    | ok l => exact absurd hcycle (not_transGen_of_link hlink)
  · intro waiting t
    obtain ⟨rounds, hrounds, hfinds⟩ := Link.finds_walk waiting [t] t
    have hle : (Link.unvisited waiting [t]).length ≤ waiting.length := List.length_filter_le _ _
    exact ⟨rounds, by omega, hfinds⟩

/-- Books in series of authors, who are known for a book each, and reviews of books. -/
def library : Catalog where
  tables := [
    (Table.ofName "REVIEW").addColumn
      { field := "bookId", kind := .long, join := some { table := "BOOK", field := some "bookId" } },
    (Table.ofName "BOOK").addColumn { field := "bookId", kind := .long, primaryKey := true }
      |>.addColumn { field := "seriesId", kind := .long, join := some { table := "SERIES", field := some "seriesId" } },
    (Table.ofName "SERIES").addColumn { field := "seriesId", kind := .long, primaryKey := true }
      |>.addColumn { field := "authorId", kind := .long, join := some { table := "AUTHOR", field := some "authorId" } },
    (Table.ofName "AUTHOR").addColumn { field := "authorId", kind := .long, primaryKey := true }
      |>.addColumn { field := "bookId", kind := .long, join := some { table := "BOOK", field := some "bookId" } }]

set_option maxRecDepth 8000 in
/-- The search starts at the reviews, which are no part of the circle. -/
theorem library_fails : ∃ tables, Link.linkTables library = .ok tables ∧
    library.link = .error (.dependencyCycle ["BOOK", "SERIES", "AUTHOR", "BOOK"]) ∧
    ∃ path, library.IsCycle path ∧
      path.map (fun i => (library.table i).qualifiedName) = ["BOOK", "SERIES", "AUTHOR", "BOOK"] := by
  have hok : (Link.linkTables library).toBool = true := by cbv
  have hlink : library.link = .error (.dependencyCycle ["BOOK", "SERIES", "AUTHOR", "BOOK"]) := by cbv
  cases htables : Link.linkTables library with
  | error e =>
    rw [htables] at hok
    cases hok
  | ok tables =>
    obtain ⟨path, hcycle, hpath⟩ := (link_fails_iff htables).2.1 _ hlink
    exact ⟨tables, rfl, hlink, path, hcycle, (CompileError.dependencyCycle.inj hpath).symm⟩

end EntitySql
