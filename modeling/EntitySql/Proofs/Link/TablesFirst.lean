import EntitySql.Proofs.Link.Accepted

/-! Tables are created before views. A table refers to tables only, so as long as one is left some table can be created,
and a view that could be created as well has to wait. -/
namespace EntitySql
variable {c : Catalog} {l : LinkedCatalog c} {t : LinkedTable c} {i : Fin c.size} {before after : List (Fin c.size)}

/-- What a table depends on is no view. -/
theorem isView_of_dependency (h : Link.linkTables c = .ok l.tables) (ht : t ∈ l.tables) (htable : t.isView = false)
    (hi : i ∈ t.dependencies) : (c.table i).isView = false := by
  have hlinked := Link.linkTable_index h ht
  obtain hi | hi := List.mem_append.1 hi
  · obtain ⟨r, hr, rfl⟩ := List.mem_map.1 (List.mem_filter.1 hi).1
    obtain ⟨entry, -, hresolves⟩ := exists_of_mem_forall₂ (Link.faithful_of_linkTable hlinked).references hr
    by_contra hview
    have htview : t.isView = true := hresolves.view (by simpa using hview)
    rw [htable] at htview
    cases htview
  · obtain ⟨name, hname, -⟩ := (Link.mem_of_resolveBase (Link.parts_of_linkTable hlinked).1).1 (Option.mem_toList.1 hi)
    have hbase : t.isView = true := Option.isSome_of_mem hname
    rw [htable] at hbase
    cases hbase

/-- As long as a table is left some table can be created: all that the next table in the order waits for are tables, and
those are there. -/
theorem exists_ready_table (h : c.link = .ok l) (hsplit : l.order = before ++ after)
    (hleft : ∃ i ∈ after, (c.table i).isView = false) : ∃ t ∈ l.tables, t.isView = false ∧ t.Ready before := by
  obtain ⟨i, hfind⟩ : ∃ i, after.find? (fun i => !(c.table i).isView) = some i :=
    Option.isSome_iff_exists.1 (List.find?_isSome.2 (by simpa using hleft))
  obtain ⟨hnoView, views, rest, rfl, hviews⟩ := List.find?_eq_some_iff_append.1 hfind
  rw [← List.append_assoc] at hsplit
  obtain ⟨t, ht, rfl, hready, -⟩ := next_of_link h hsplit
  have htable : t.isView = false := Bool.eq_false_of_not_eq_true' hnoView
  refine ⟨t, ht, htable, fun hmem => hready.unplaced (List.mem_append_left _ hmem), fun j hj => ?_⟩
  have hdependency := isView_of_dependency (tables_of_link h) ht htable hj
  refine (List.mem_append.1 (hready.placed j hj)).resolve_right fun hmem => ?_
  have hview := hviews j hmem
  simp [hdependency] at hview

/-- After a view come views only. -/
theorem views_after_view (h : c.link = .ok l) (hsplit : l.order = before ++ i :: after)
    (hview : (c.table i).isView = true) : ∀ j ∈ i :: after, (c.table j).isView = true := by
  intro j hj
  by_contra hnoView
  obtain ⟨u, hu, htable, hready⟩ := exists_ready_table h hsplit ⟨j, hj, by simpa using hnoView⟩
  obtain ⟨t, ht, rfl, -, hleast⟩ := next_of_link h hsplit
  change t.isView = true at hview
  obtain rfl | hprecedes | ⟨hsame, -⟩ := hleast u hu hready
  · rw [htable] at hview
    cases hview
  · rw [hview, htable] at hprecedes
    exact absurd hprecedes (by decide)
  · rw [hview, htable] at hsame
    cases hsame

/-- In the order of a linked catalog all tables stand before all views. -/
theorem tables_before_views (h : c.link = .ok l) :
    l.order.Perm (List.finRange c.size) ∧
    (∃ tables views, l.order = tables ++ views ∧ (∀ i ∈ tables, (c.table i).isView = false) ∧
      ∀ i ∈ views, (c.table i).isView = true) ∧
    ∀ i j, (c.table i).isView = false → (c.table j).isView = true → l.order.idxOf i < l.order.idxOf j := by
  have hperm := perm_of_link h
  have hsplits : ∃ tables views, l.order = tables ++ views ∧ (∀ i ∈ tables, (c.table i).isView = false) ∧
      ∀ i ∈ views, (c.table i).isView = true := by
    have hsplit : l.order = l.order.takeWhile (fun i => !(c.table i).isView) ++
        l.order.dropWhile fun i => !(c.table i).isView := List.takeWhile_append_dropWhile.symm
    refine ⟨_, _, hsplit, fun i hi => by simpa using List.mem_takeWhile_imp hi, ?_⟩
    have hfirst := List.head?_dropWhile_not (fun i => !(c.table i).isView) l.order
    cases hviews : l.order.dropWhile fun i => !(c.table i).isView with
    | nil => simp
    | cons i after =>
      rw [hviews] at hfirst hsplit
      exact views_after_view h hsplit (by simpa using hfirst)
  refine ⟨hperm, hsplits, fun i j hi hj => ?_⟩
  obtain ⟨tables, views, horder, htables, hviews⟩ := hsplits
  have hmem : i ∈ tables := by
    have hplaced : i ∈ l.order := hperm.mem_iff.2 (List.mem_finRange i)
    rw [horder] at hplaced
    refine (List.mem_append.1 hplaced).resolve_right fun hlate => ?_
    rw [hviews i hlate] at hi
    cases hi
  have hnotMem : j ∉ tables := fun hearly => by
    rw [htables j hearly] at hj
    cases hj
  rw [horder, List.idxOf_append_of_mem hmem, List.idxOf_append_of_notMem hnotMem]
  exact Nat.lt_add_right _ (List.idxOf_lt_length_of_mem hmem)

/-- Two views, of which the second is a view of the first one, and then the tables: orders, which may replace each
other, and customers. The first view could be created before the orders. -/
def shop : Catalog where
  tables := [
    (Table.view "CONTACT" "CUSTOMER").addColumn { field := "id", kind := .long },
    (Table.view "ADDRESSEE" "CONTACT").addColumn { field := "id", kind := .long },
    (Table.ofName "ORDERS").addColumn { field := "id", kind := .long, primaryKey := true }
      |>.addColumn { field := "replaces", kind := .long, join := some { table := "ORDERS", field := some "id" } }
      |>.addColumn { field := "customerId", kind := .long, join := some { table := "CUSTOMER", field := some "id" } },
    (Table.ofName "CUSTOMER").addColumn { field := "id", kind := .long, primaryKey := true }]

set_option maxRecDepth 8000 in
theorem shop_tables_first : ∃ l, shop.link = .ok l ∧ l.order.map Fin.val = [3, 2, 0, 1] ∧
    ∀ i j, (shop.table i).isView = false → (shop.table j).isView = true → l.order.idxOf i < l.order.idxOf j := by
  have horder : shop.link.toOption.map (fun l => l.order.map Fin.val) = some [3, 2, 0, 1] := by cbv
  obtain ⟨l, h, hlist⟩ := exists_ok_of_toOption horder
  exact ⟨l, h, hlist, (tables_before_views h).2.2⟩

end EntitySql
