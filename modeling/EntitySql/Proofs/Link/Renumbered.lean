import EntitySql.Proofs.Link.Accepted

/-! Catalogs whose tables are declared in another order. A linked table tells others by their numbers, so its links are
renumbered with the tables. Main statement: where every reference names its table in full, a table of the one catalog is
linked as it is in the other one but for the numbers, and neither or both of the catalogs link. -/
namespace EntitySql

namespace Reference
variable {n m : ℕ}

def renumbered (σ : Fin n → Fin m) (r : Reference n) : Reference m :=
  { r with target := σ r.target }

end Reference

namespace ForeignKey
variable {n m : ℕ} {σ : Fin n → Fin m}

def renumbered (σ : Fin n → Fin m) (k : ForeignKey n) : ForeignKey m :=
  { k with target := σ k.target }

variable (hσ : Function.Injective σ) (refs : List (Reference n)) (r : Reference n)
include hσ

theorem collides_renumbered : collides (refs.map (.renumbered σ)) (r.renumbered σ) = collides refs r := by
  rw [collides, collides, List.any_map]
  refine congrArg refs.any (funext fun o => ?_)
  have htarget : decide (σ o.target = σ r.target) = decide (o.target = r.target) := decide_eq_decide.2 hσ.eq_iff
  exact congrArg (fun same => decide (o.field ≠ r.field) && same && decide (o.targetColumn = r.targetColumn)) htarget

theorem companions_renumbered :
    companions (refs.map (.renumbered σ)) (r.renumbered σ) = (companions refs r).map (.renumbered σ) := by
  unfold companions
  rw [collides_renumbered hσ]
  split
  · rfl
  · rw [List.filter_map]
    refine congrArg _ (List.filter_congr fun o _ => ?_)
    rw [Function.comp_apply, collides_renumbered hσ]
    simp [Reference.renumbered, hσ.eq_iff]

theorem leads_renumbered : leads (refs.map (.renumbered σ)) (r.renumbered σ) = leads refs r := by
  unfold leads
  rw [companions_renumbered hσ, List.head?_map, Option.map_map]
  rfl

/-- References are grouped in the same way, whatever the numbers of their targets are. -/
theorem ofReferences_renumbered :
    ofReferences (refs.map (.renumbered σ)) = (ofReferences refs).map (.renumbered σ) := by
  unfold ofReferences
  rw [List.filter_map, List.map_map, List.map_map]
  have hleads : leads (refs.map (.renumbered σ)) ∘ .renumbered σ = leads refs :=
    funext fun r => leads_renumbered hσ refs r
  rw [hleads]
  refine List.map_congr_left fun r _ => ?_
  rw [Function.comp_apply, companions_renumbered hσ, List.map_map]
  rfl

end ForeignKey

variable {c c' : Catalog} {σ : Fin c.size → Fin c'.size} {t : Table} {i j : Fin c.size}

/-- The tables of a catalog stand in another one, at other places. -/
structure Catalog.Renumbers (c c' : Catalog) (σ : Fin c.size → Fin c'.size) : Prop where
  injective : Function.Injective σ
  table : ∀ i, c'.table (σ i) = c.table i
  index? : ∀ name ∈ c.tables.map Table.qualifiedName, c'.index? name = (c.index? name).map σ

/-- The base of a view and the targets of joins are named in full. -/
def Catalog.NamesInFull (c : Catalog) : Prop :=
  ∀ t ∈ c.tables, (∀ base ∈ t.viewOf, base ∈ c.tables.map Table.qualifiedName) ∧
    ∀ column ∈ t.columns.toList, ∀ join ∈ column.join, join.table ∈ c.tables.map Table.qualifiedName

theorem Catalog.NamesInFull.perm (h : c.NamesInFull) (hperm : c.tables.Perm c'.tables) : c'.NamesInFull := by
  have hnames : ∀ {name}, name ∈ c.tables.map Table.qualifiedName → name ∈ c'.tables.map Table.qualifiedName :=
    fun hname => (hperm.map _).mem_iff.1 hname
  intro t ht
  obtain ⟨hbase, hjoins⟩ := h t (hperm.mem_iff.2 ht)
  exact ⟨fun base hmem => hnames (hbase base hmem),
    fun column hcolumn join hjoin => hnames (hjoins column hcolumn join hjoin)⟩

theorem Catalog.table_mem (c : Catalog) (i : Fin c.size) : c.table i ∈ c.tables :=
  List.getElem_mem i.isLt

theorem index?_qualifiedName (hnames : (c.tables.map Table.qualifiedName).Nodup) (i : Fin c.size) :
    c.index? (c.table i).qualifiedName = some i :=
  Catalog.index?_eq_some.2 (.full rfl fun _ hj hname => hj.ne (Link.eq_of_qualifiedName hnames hname))

theorem exists_renumbers (hperm : c.tables.Perm c'.tables) (hnames : (c.tables.map Table.qualifiedName).Nodup) :
    ∃ σ, c.Renumbers c' σ := by
  have hexists : ∀ i : Fin c.size, ∃ j : Fin c'.size, c'.table j = c.table i := by
    intro i
    obtain ⟨k, hk, heq⟩ := List.getElem_of_mem (hperm.mem_iff.1 (c.table_mem i))
    exact ⟨⟨k, hk⟩, heq⟩
  choose σ hσ using hexists
  have hnames' : (c'.tables.map Table.qualifiedName).Nodup := (hperm.map _).nodup_iff.1 hnames
  refine ⟨σ, fun i j heq => ?_, hσ, fun name hname => ?_⟩
  · refine Link.eq_of_qualifiedName hnames ?_
    rw [← hσ i, ← hσ j, heq]
  · obtain ⟨t, ht, rfl⟩ := List.mem_map.1 hname
    obtain ⟨k, hk, rfl⟩ := List.getElem_of_mem ht
    have hfirst := index?_qualifiedName hnames ⟨k, hk⟩
    have hsecond := index?_qualifiedName hnames' (σ ⟨k, hk⟩)
    rw [hσ] at hsecond
    exact hsecond.trans (congrArg (Option.map σ) hfirst).symm

/-- A linked table whose numbers are those of another catalog. -/
def LinkedTable.renumbered (σ : Fin c.size → Fin c'.size) (t : LinkedTable c) : LinkedTable c' where
  index := σ t.index
  primaryKey := t.primaryKey
  uniqueKeys := t.uniqueKeys
  references := t.references.map (.renumbered σ)
  foreignKeys := t.foreignKeys.map (.renumbered σ)
  viewBase := t.viewBase.map σ

namespace Link
variable (h : c.Renumbers c' σ)
include h

theorem resolveTable_renumbered {name : String} (hname : name ∈ c.tables.map Table.qualifiedName) (via : String) :
    resolveTable c' t name via = (resolveTable c t name via).map σ := by
  unfold resolveTable
  rw [h.index? name hname]
  cases c.index? name <;> rfl

theorem resolveBase_renumbered (hbase : ∀ base ∈ t.viewOf, base ∈ c.tables.map Table.qualifiedName) :
    resolveBase c' t = (resolveBase c t).map (Option.map σ) := by
  unfold resolveBase
  cases hview : t.viewOf with
  | none => rfl
  | some base =>
    dsimp only
    split
    · rfl
    · rw [resolveTable_renumbered h (hbase base hview)]
      cases resolveTable c t base "view base table" <;> rfl

theorem resolveJoin_renumbered {column : Column} {join : JoinTarget}
    (hjoin : join.table ∈ c.tables.map Table.qualifiedName) :
    resolveJoin c' t column join = (resolveJoin c t column join).map (.renumbered σ) := by
  unfold resolveJoin
  rw [resolveTable_renumbered h hjoin]
  cases resolveTable c t join.table ("column '" ++ column.name ++ "'") with
  | error e => rfl
  | ok i =>
    simp only [Except.map, bind, Except.bind, h.table]
    split
    · rfl
    · cases targetColumn t column join (c.table i) <;> rfl

theorem resolveJoins_renumbered {columns : List Column} (hjoins : ∀ column ∈ columns, ∀ join ∈ column.join,
    join.table ∈ c.tables.map Table.qualifiedName) :
    resolveJoins c' t columns = (resolveJoins c t columns).map (List.map (.renumbered σ)) := by
  induction columns with
  | nil => rfl
  | cons column columns ih =>
    obtain ⟨hcolumn, hcolumns⟩ := List.forall_mem_cons.1 hjoins
    rw [resolveJoins, resolveJoins, ih hcolumns]
    cases hjoin : column.join with
    | none => rfl
    | some join =>
      dsimp only
      rw [resolveJoin_renumbered h (hcolumn join hjoin)]
      cases resolveJoin c t column join with
      | error e => rfl
      | ok r => cases resolveJoins c t columns <;> rfl

/-- A table is linked in the other catalog as it is in this one, its faults included. -/
theorem linkTable_renumbered (hfull : c.NamesInFull) (i : Fin c.size) :
    linkTable c' (σ i) = (linkTable c i).map (.renumbered σ) := by
  obtain ⟨hbase, hjoins⟩ := hfull _ (c.table_mem i)
  unfold linkTable
  simp only [h.table, resolveBase_renumbered h hbase, resolveJoins_renumbered h hjoins]
  cases checkColumnNames (c.table i) with
  | error e => rfl
  | ok _ =>
    cases resolveBase c (c.table i) with
    | error e => rfl
    | ok base =>
      cases resolveJoins c (c.table i) (c.table i).columns.toList with
      | error e => rfl
      | ok references =>
        cases uniqueKeys (c.table i) with
        | error e => rfl
        | ok keys =>
          simp only [Except.map, bind, Except.bind, pure, Except.pure, LinkedTable.renumbered,
            ForeignKey.ofReferences_renumbered h.injective]

theorem depends_renumbered (hfull : c.NamesInFull) (hdepends : c.Depends i j) : c'.Depends (σ i) (σ j) := by
  obtain ⟨hbase, hjoins⟩ := hfull _ (c.table_mem i)
  unfold Catalog.Depends
  rw [h.table]
  obtain ⟨column, hcolumn, join, hjoin, hindex, hne⟩ | ⟨base, hview, hindex⟩ := hdepends
  · refine .inl ⟨column, hcolumn, join, hjoin, ?_, fun heq => hne (h.injective heq)⟩
    rw [h.index? _ (hjoins column hcolumn join hjoin), hindex]
    rfl
  · refine .inr ⟨base, hview, ?_⟩
    rw [h.index? _ (hbase base hview), hindex]
    rfl

end Link

theorem exists_link_iff : (∃ l, c.link = .ok l) ↔
    (∃ tables, Link.linkTables c = .ok tables) ∧ ∀ i, ¬Relation.TransGen c.Depends i i := by
  constructor
  · rintro ⟨l, h⟩
    exact ⟨⟨l.tables, tables_of_link h⟩, fun i => not_transGen_of_link h⟩
  · rintro ⟨⟨tables, htables⟩, hacyclic⟩
    cases h : c.link with
    | ok l => exact ⟨l, rfl⟩
    | error e =>
      obtain ⟨path, hcycle, -⟩ := Link.isCycle_of_emissionOrder htables ((link_eq_error htables).1 h)
      obtain ⟨i, hi⟩ := transGen_of_isCycle hcycle
      exact absurd hi (hacyclic i)

/-- The tables of a catalog that links can be declared in any order. -/
theorem exists_link_perm (hperm : c.tables.Perm c'.tables) (hfull : c.NamesInFull) (h : ∃ l, c.link = .ok l) :
    ∃ l', c'.link = .ok l' := by
  obtain ⟨hlinked, hacyclic⟩ := exists_link_iff.1 h
  have hrules := Link.exists_linkTables.1 hlinked
  have hnames : (c'.tables.map Table.qualifiedName).Nodup := (hperm.map _).nodup_iff.1 hrules.nodup_names
  obtain ⟨τ, hτ⟩ := exists_renumbers hperm.symm hnames
  have hfull' := hfull.perm hperm
  refine exists_link_iff.2 ⟨Link.exists_linkTables.2 ⟨hnames, Catalog.forall_table.2 fun j => ?_⟩, fun j hj => ?_⟩
  · obtain ⟨t, ht⟩ := Link.exists_linkTable.2 (Catalog.forall_table.1 hrules.tables (τ j))
    rw [Link.linkTable_renumbered hτ hfull' j] at ht
    obtain ⟨t', ht', -⟩ := map_eq_ok.1 ht
    exact Link.exists_linkTable.1 ⟨t', ht'⟩
  · exact hacyclic (τ j) (hj.lift τ fun _ _ => Link.depends_renumbered hτ hfull')

/-- References to tables of the same name. -/
structure Reference.Matches (c c' : Catalog) (r : Reference c.size) (r' : Reference c'.size) : Prop where
  field : r.field = r'.field
  column : r.column = r'.column
  target : (c.table r.target).qualifiedName = (c'.table r'.target).qualifiedName
  targetField : r.targetField = r'.targetField
  targetColumn : r.targetColumn = r'.targetColumn

/-- Foreign keys to tables of the same name. -/
structure ForeignKey.Matches (c c' : Catalog) (k : ForeignKey c.size) (k' : ForeignKey c'.size) : Prop where
  target : (c.table k.target).qualifiedName = (c'.table k'.target).qualifiedName
  pairs : k.pairs = k'.pairs

/-- A table with the same keys and links in two catalogs, the linked tables told by their names. -/
structure LinkedTable.Matches (t : LinkedTable c) (t' : LinkedTable c') : Prop where
  schema : t.schema = t'.schema
  primaryKey : t.primaryKey = t'.primaryKey
  uniqueKeys : t.uniqueKeys = t'.uniqueKeys
  references : List.Forall₂ (Reference.Matches c c') t.references t'.references
  foreignKeys : List.Forall₂ (ForeignKey.Matches c c') t.foreignKeys t'.foreignKeys
  viewBase : t.viewBase.map (fun i => (c.table i).qualifiedName) =
    t'.viewBase.map fun i => (c'.table i).qualifiedName

theorem schema_renumbered (h : c.Renumbers c' σ) (t : LinkedTable c) : (t.renumbered σ).schema = t.schema :=
  h.table t.index

theorem matches_renumbered (h : c.Renumbers c' σ) (t : LinkedTable c) : t.Matches (t.renumbered σ) where
  schema := (schema_renumbered h t).symm
  primaryKey := rfl
  uniqueKeys := rfl
  references := by
    refine List.forall₂_map_right_iff.2 (List.forall₂_same.2 fun r _ => ⟨rfl, rfl, ?_, rfl, rfl⟩)
    exact congrArg Table.qualifiedName (h.table r.target).symm
  foreignKeys := by
    refine List.forall₂_map_right_iff.2 (List.forall₂_same.2 fun k _ => ⟨?_, rfl⟩)
    exact congrArg Table.qualifiedName (h.table k.target).symm
  viewBase := by
    rw [LinkedTable.renumbered, Option.map_map]
    exact congrArg (Option.map · t.viewBase) (funext fun i => congrArg Table.qualifiedName (h.table i).symm)

section
variable {l : LinkedCatalog c} {l' : LinkedCatalog c'}

/-- The linked tables of both catalogs are the same but for the numbers. -/
theorem tables_perm (hσ : c.Renumbers c' σ) (hperm : c.tables.Perm c'.tables) (hfull : c.NamesInFull)
    (h : c.link = .ok l) (h' : c'.link = .ok l') : (l.tables.map (.renumbered σ)).Perm l'.tables := by
  have htables := tables_of_link h
  have htables' := tables_of_link h'
  have hnodup : (l.tables.map (.renumbered σ : _ → LinkedTable c')).Nodup := by
    refine List.Nodup.of_map (·.index) ?_
    rw [List.map_map]
    have hindices := (List.nodup_finRange c.size).map hσ.injective
    rw [← Link.map_index_linkTables htables, List.map_map] at hindices
    exact hindices
  have hsubset : l.tables.map (.renumbered σ) ⊆ l'.tables := by
    intro t' ht'
    obtain ⟨t, ht, rfl⟩ := List.mem_map.1 ht'
    obtain ⟨u, hu, hindex⟩ := Link.exists_index (Link.map_index_linkTables htables') (σ t.index)
    have hlinked := Link.linkTable_index htables' hu
    rw [hindex, Link.linkTable_renumbered hσ hfull, Link.linkTable_index htables ht] at hlinked
    rw [Except.ok.inj hlinked]
    exact hu
  have hlength : l'.tables.length = l.tables.length := by
    have hsize := congrArg List.length (Link.map_index_linkTables htables)
    have hsize' := congrArg List.length (Link.map_index_linkTables htables')
    rw [List.length_map, List.length_finRange] at hsize hsize'
    rw [hsize, hsize']
    exact hperm.length_eq.symm
  exact (List.subperm_of_subset hnodup hsubset).perm_of_length_le (by simp [hlength])

end

end EntitySql
