import EntitySql.Proofs.Ddl.Created
import EntitySql.Proofs.Link.Renumbered

/-! The order in which tables are declared. Statements name tables, so the numbers of the tables are not told by them.
Main statement: if every reference names its table in full, catalogs that differ in the order of their tables only have
the same tables with the same keys and links, and the same statements up to their order. -/
namespace EntitySql
variable {c c' : Catalog} {σ : Fin c.size → Fin c'.size} {d : Dialect}

namespace Ddl
section
variable (h : c.Renumbers c' σ)
include h

theorem constraints_renumbered (t : LinkedTable c) : constraints d (t.renumbered σ) = constraints d t := by
  unfold constraints
  rw [schema_renumbered h]
  simp [LinkedTable.renumbered, ForeignKey.renumbered, h.table, ForeignKey.columns, ForeignKey.targetColumns]

theorem createTable_renumbered (t : LinkedTable c) : createTable d (t.renumbered σ) = createTable d t := by
  rw [createTable, createTable, schema_renumbered h, constraints_renumbered h]

theorem joiningReferences_renumbered (seen : List (Fin c.size)) (refs : List (Reference c.size)) :
    joiningReferences (seen.map σ) (refs.map (.renumbered σ)) =
      (joiningReferences seen refs).map (.renumbered σ) := by
  induction refs generalizing seen with
  | nil => rfl
  | cons r refs ih =>
    have hseen : (r.renumbered σ).target ∈ seen.map σ ↔ r.target ∈ seen := List.mem_map_of_injective h.injective
    rw [List.map_cons, joiningReferences_cons, joiningReferences_cons]
    by_cases hr : r.target ∈ seen
    · rw [if_pos (hseen.2 hr), if_pos hr, ih]
    · rw [if_neg (mt hseen.1 hr), if_neg hr, List.map_cons, ← ih]
      rfl

theorem joinOf_renumbered (view base : Table) (r : Reference c.size) :
    joinOf d view base (r.renumbered σ) = joinOf d view base r := by
  unfold joinOf
  rw [Reference.renumbered, h.table]

theorem itemOf_renumbered (view base : Table) (joined : List (Reference c.size)) :
    itemOf d view base (joined.map (.renumbered σ)) = itemOf d view base joined := by
  funext column
  have hsource : itemSource? d view base (joined.map (.renumbered σ)) column.field =
      itemSource? d view base joined column.field := by
    unfold itemSource?
    rw [List.findSome?_map]
    simp only [Function.comp_def, Reference.renumbered, h.table]
  rw [itemOf, itemOf, hsource]

theorem createView_renumbered (t : LinkedTable c) (base : Table) :
    createView d (t.renumbered σ) base = createView d t base := by
  have hjoined : joiningReferences [] (t.renumbered σ).references =
      (joiningReferences [] t.references).map (.renumbered σ) := joiningReferences_renumbered h [] t.references
  have hjoins : joinOf d t.schema base ∘ .renumbered σ = joinOf d t.schema base :=
    funext fun r => joinOf_renumbered h t.schema base r
  unfold createView
  rw [schema_renumbered h, hjoined]
  dsimp only
  rw [List.mapM_map, hjoins, itemOf_renumbered h]

/-- Numbers are not told by a statement. -/
theorem create_renumbered (t : LinkedTable c) : create d (t.renumbered σ) = create d t := by
  have hbase : (t.renumbered σ).viewBase = t.viewBase.map σ := rfl
  unfold create
  rw [hbase]
  cases t.viewBase with
  | none => exact createTable_renumbered h t
  | some base =>
    dsimp only [Option.map_some]
    rw [h.table]
    exact createView_renumbered h t _

end

theorem namespaces_perm (hperm : c.tables.Perm c'.tables) : namespaces c = namespaces c' := by
  refine (increasing_namespaces c).eq_of_mem_iff (increasing_namespaces c') fun ns => ?_
  rw [mem_namespaces, mem_namespaces]
  simp only [hperm.mem_iff]

end Ddl

section
variable {l : LinkedCatalog c} {l' : LinkedCatalog c'}

theorem ordered_perm (h : c.link = .ok l) : l.ordered.Perm l.tables := by
  have hlength : l.tables.length = l.ordered.length := by
    have htables := congrArg List.length (placed_of_link h).1
    have hordered := congrArg List.length (map_index_ordered h)
    rw [List.length_map] at htables hordered
    rw [htables, hordered, (perm_of_link h).length_eq]
  have hnodup : l.ordered.Nodup := by
    refine List.Nodup.of_map (·.index) ?_
    rw [map_index_ordered h]
    exact (perm_of_link h).nodup_iff.2 (List.nodup_finRange c.size)
  exact (List.subperm_of_subset hnodup fun t => mem_tables_of_mem_ordered).perm_of_length_le hlength.le

theorem ordered_perm_renumbered (hσ : c.Renumbers c' σ) (hperm : c.tables.Perm c'.tables) (hfull : c.NamesInFull)
    (h : c.link = .ok l) (h' : c'.link = .ok l') : (l.ordered.map (.renumbered σ)).Perm l'.ordered :=
  ((ordered_perm h).map _).trans ((tables_perm hσ hperm hfull h h').trans (ordered_perm h').symm)

theorem generate_perm (hσ : c.Renumbers c' σ) (hperm : c.tables.Perm c'.tables) (hfull : c.NamesInFull)
    (h : c.link = .ok l) (h' : c'.link = .ok l') (d : Dialect) (withNamespaces : Bool) :
    ((∃ x, Ddl.generate d withNamespaces l = .ok x) ↔ ∃ y, Ddl.generate d withNamespaces l' = .ok y) ∧
      ∀ x y, Ddl.generate d withNamespaces l = .ok x → Ddl.generate d withNamespaces l' = .ok y → x.Perm y := by
  have hordered := ordered_perm_renumbered hσ hperm hfull h h'
  have hcreate : (Ddl.create d ∘ (.renumbered σ : _ → LinkedTable c')) = Ddl.create d :=
    funext fun t => Ddl.create_renumbered hσ t
  have hmapM : (l.ordered.map (.renumbered σ : _ → LinkedTable c')).mapM (Ddl.create d) =
      l.ordered.mapM (Ddl.create d) := by
    rw [List.mapM_map, hcreate]
  have hnamespaces : Ddl.createNamespaces d c = Ddl.createNamespaces d c' := by
    rw [Ddl.createNamespaces, Ddl.createNamespaces, Ddl.namespaces_perm hperm]
  constructor
  · have hexists : ∀ {b : Catalog} {m : LinkedCatalog b}, (∃ x, Ddl.generate d withNamespaces m = .ok x) ↔
        ∃ creates, m.ordered.mapM (Ddl.create d) = .ok creates := by
      intro b m
      simp only [generate_eq_ok, exists_comm (α := List String), exists_and_left, exists_eq, and_true]
    rw [hexists, hexists, ← hmapM, exists_mapM_eq_ok, exists_mapM_eq_ok]
    simp only [hordered.mem_iff]
  · intro x y hx hy
    obtain ⟨creates, hcreates, rfl⟩ := generate_eq_ok.1 hx
    obtain ⟨creates', hcreates', rfl⟩ := generate_eq_ok.1 hy
    rw [← hmapM] at hcreates
    rw [hnamespaces]
    exact ((mapM_perm hordered hcreates hcreates').map _).append_left _

end

/-- Where all names are given in full the order of declaration does not matter. Two catalogs with the same tables link
both or neither; their linked tables have the same keys and links, the other tables told by their names; and statements
can be generated for both or neither, the same ones up to their order. -/
theorem declared_in_any_order (hperm : c.tables.Perm c'.tables) (hfull : c.NamesInFull) :
    ((∃ l, c.link = .ok l) ↔ ∃ l', c'.link = .ok l') ∧
    ∀ l l', c.link = .ok l → c'.link = .ok l' →
      (∃ tables, List.Forall₂ LinkedTable.Matches l.tables tables ∧ tables.Perm l'.tables) ∧
      ∀ d withNamespaces,
        ((∃ x, Ddl.generate d withNamespaces l = .ok x) ↔ ∃ y, Ddl.generate d withNamespaces l' = .ok y) ∧
        ∀ x y, Ddl.generate d withNamespaces l = .ok x → Ddl.generate d withNamespaces l' = .ok y → x.Perm y := by
  refine ⟨⟨exists_link_perm hperm hfull, exists_link_perm hperm.symm (hfull.perm hperm)⟩, fun l l' h h' => ?_⟩
  obtain ⟨σ, hσ⟩ := exists_renumbers hperm (Link.nodup_qualifiedNames (tables_of_link h))
  refine ⟨⟨l.tables.map (.renumbered σ), ?_, tables_perm hσ hperm hfull h h'⟩, generate_perm hσ hperm hfull h h'⟩
  exact List.forall₂_map_right_iff.2 (List.forall₂_same.2 fun t _ => matches_renumbered hσ t)

/-- The tables of the feed, declared the other way around. -/
def feedReversed : Catalog :=
  ⟨feed.tables.reverse⟩

set_option maxRecDepth 8000 in
theorem feed_in_any_order : feed.tables.Perm feedReversed.tables ∧ feed.NamesInFull ∧
    ∃ l l' x y, feed.link = .ok l ∧ feedReversed.link = .ok l' ∧ Ddl.generate .sqlite true l = .ok x ∧
      Ddl.generate .sqlite true l' = .ok y ∧ x.Perm y := by
  have hperm : feed.tables.Perm feedReversed.tables := (List.reverse_perm feed.tables).symm
  have hfull : feed.NamesInFull := by
    unfold Catalog.NamesInFull
    decide +kernel
  have hlinked : feed.link.toOption.map (·.ordered) = some feedOrdered := by cbv
  obtain ⟨l, h, hordered⟩ := exists_ok_of_toOption hlinked
  have hcreated : (l.ordered.mapM (Ddl.create .sqlite)).toBool := by
    rw [hordered]
    rfl
  obtain ⟨x, hx⟩ := exists_generate hcreated true
  obtain ⟨hlinks, hsame⟩ := declared_in_any_order hperm hfull
  obtain ⟨l', h'⟩ := hlinks.1 ⟨l, h⟩
  obtain ⟨hboth, hstatements⟩ := (hsame l l' h h').2 .sqlite true
  obtain ⟨y, hy⟩ := hboth.1 ⟨x, hx⟩
  exact ⟨hperm, hfull, l, l', x, y, h, h', hx, hy, hstatements x y hx hy⟩

end EntitySql
