import EntitySql.Proofs.Query.Acceptance
import EntitySql.Proofs.Query.Alike
import EntitySql.Proofs.Query.Inserted

/-! Tables that are spelled differently: the names of the tables, of their namespaces and of their columns differ, and
nothing else. What is compiled for the one is compiled for the other, and the statements differ in the quoted names
only, however these are spelled. -/
namespace EntitySql

/-- Columns that differ in their names only. -/
def Column.SpelledLike (a b : Column) : Prop :=
  ∃ name owner, b = { a with name, owner }

/-- Tables that differ in their spelling only, none of which has two columns of one name. -/
structure Table.Respelled (t t' : Table) : Prop where
  ns : t.ns.isSome = t'.ns.isSome
  columns : List.Forall₂ Column.SpelledLike t.columns.toList t'.columns.toList
  distinct : (Query.columnNames t).Nodup
  distinct' : (Query.columnNames t').Nodup

/-- Names that stand in the same place of two tables. -/
inductive Table.SameName (t t' : Table) : String → String → Prop where
  | table : SameName t t' t.name t'.name
  | ns {a b : String} (ha : t.ns = some a) (hb : t'.ns = some b) : SameName t t' a b
  | column {field : String} {a b : Column} (ha : t.column? field = some a) (hb : t'.column? field = some b) :
      SameName t t' a.name b.name

/-- A column with the name that another table has for its field. -/
def Column.respelled (t' : Table) (column : Column) : Column :=
  ((t'.column? column.field).map fun other => { column with name := other.name, owner := other.owner }).getD column

namespace Column
variable (t' : Table) (a : Column)

theorem spelledLike_respelled : a.SpelledLike (a.respelled t') := by
  unfold respelled
  cases t'.column? a.field with
  | none => exact ⟨a.name, a.owner, rfl⟩
  | some b => exact ⟨b.name, b.owner, rfl⟩

@[simp]
theorem field_respelled : (a.respelled t').field = a.field := by
  obtain ⟨name, owner, h⟩ := a.spelledLike_respelled t'
  rw [h]

@[simp]
theorem type_respelled : (a.respelled t').type = a.type := by
  obtain ⟨name, owner, h⟩ := a.spelledLike_respelled t'
  rw [h]
  rfl

@[simp]
theorem isNullable_respelled : (a.respelled t').isNullable = a.isNullable := by
  obtain ⟨name, owner, h⟩ := a.spelledLike_respelled t'
  rw [h]
  rfl

@[simp]
theorem isGenerated_respelled : (a.respelled t').isGenerated = a.isGenerated := by
  obtain ⟨name, owner, h⟩ := a.spelledLike_respelled t'
  rw [h]
  rfl

end Column

namespace Table.Respelled
variable {t t' : Table} {a b : Column}

theorem symm (h : t.Respelled t') : t'.Respelled t where
  ns := h.ns.symm
  columns := by
    refine h.columns.flip.imp fun a b hab => ?_
    obtain ⟨name, owner, rfl⟩ := hab
    exact ⟨b.name, b.owner, rfl⟩
  distinct := h.distinct'
  distinct' := h.distinct

theorem eq_map_respelled {xs ys : List Column} (h : List.Forall₂ Column.SpelledLike xs ys)
    (hys : ys ⊆ t'.columns.toList) : ys = xs.map (Column.respelled t') := by
  induction h with
  | nil => rfl
  | @cons a b xs ys hab _ ih =>
    have hb : t'.column? b.field = some b := Table.column?_eq_some.2 ⟨hys List.mem_cons_self, rfl⟩
    have hhead : b = a.respelled t' := by
      obtain ⟨name, owner, rfl⟩ := hab
      rw [Column.respelled, show t'.column? a.field = _ from hb]
      rfl
    have hrest := ih fun c hc => hys (List.mem_cons_of_mem _ hc)
    rw [List.map_cons, ← hhead, ← hrest]

section
variable (h : t.Respelled t')
include h

theorem columns_eq : t'.columns.toList = t.columns.toList.map (Column.respelled t') :=
  eq_map_respelled h.columns (List.Subset.refl _)

theorem column?_eq (field : String) : t'.column? field = (t.column? field).map (Column.respelled t') := by
  have hfield : (fun a : Column => a.field == field) ∘ Column.respelled t' = fun a => a.field == field := by
    funext a
    simp
  rw [Table.column?, Columns.get?, h.columns_eq, List.find?_map, hfield]
  rfl

theorem sameName_column (ha : a ∈ t.columns.toList) : t.SameName t' a.name (a.respelled t').name := by
  have hfound := Table.column?_eq_some.2 ⟨ha, rfl⟩
  have hfound' := h.column?_eq a.field
  rw [hfound] at hfound'
  exact .column hfound hfound'

/-- Columns share a name in the one table only if they do in the other, as they are the same column then. -/
theorem name_eq_iff (ha : a ∈ t.columns.toList) (hb : b ∈ t.columns.toList) :
    (a.respelled t').name = (b.respelled t').name ↔ a.name = b.name := by
  have hmem : ∀ c ∈ t.columns.toList, c.respelled t' ∈ t'.columns.toList := by
    intro c hc
    rw [h.columns_eq]
    exact List.mem_map_of_mem hc
  constructor
  · intro hname
    have heq := List.inj_on_of_nodup_map h.distinct' (hmem a ha) (hmem b hb) hname
    have hfield := congrArg Column.field heq
    rw [Column.field_respelled, Column.field_respelled] at hfield
    exact congrArg Column.name (List.inj_on_of_nodup_map t.columns.nodup_fields ha hb hfield)
  · intro hname
    rw [List.inj_on_of_nodup_map h.distinct ha hb hname]

end

end Table.Respelled

namespace Query
variable {t t' : Table} {op : Operation} {p : Param}

def Target.respelled (t' : Table) (target : Target) : Target :=
  ⟨target.column.respelled t', target.value⟩

def BoundParam.respelled (t' : Table) (b : BoundParam) : BoundParam :=
  ⟨b.param, b.targets.map (Target.respelled t')⟩

section
variable (h : t.Respelled t')
include h

theorem targetsOf_respelled (p : Param) : targetsOf t' p = (targetsOf t p).map (Target.respelled t') := by
  unfold targetsOf
  cases p.type with
  | scalar type =>
    cases p.targets with
    | nil =>
      dsimp only
      rw [h.column?_eq]
      cases t.column? (p.fieldAlias.getD p.name) <;> rfl
    | cons field fields =>
      dsimp only
      rw [show t'.column? = fun field => (t.column? field).map (Column.respelled t') from funext h.column?_eq]
      rw [← List.map_filterMap, List.map_map, List.map_map]
      rfl
  | composite fields =>
    dsimp only
    rw [List.map_filterMap]
    refine List.filterMap_congr fun f _ => ?_
    rw [h.column?_eq]
    cases t.column? f.name <;> rfl
  | entity =>
    dsimp only
    rw [h.columns_eq, List.map_map, List.map_map]
    refine List.map_congr_left fun a _ => ?_
    simp [Target.respelled]

theorem boundParams_respelled : boundParams t' op = (boundParams t op).map (BoundParam.respelled t') := by
  rw [boundParams, boundParams, List.map_map]
  refine List.map_congr_left fun p _ => ?_
  rw [bound, targetsOf_respelled h p]
  rfl

/-! ### What is accepted -/

theorem isSome_column?_respelled (field : String) : (t'.column? field).isSome = (t.column? field).isSome := by
  rw [h.column?_eq, Option.isSome_map]

theorem holds_respelled {field : String} {type : ValueType} (hfield : t.Holds field type) : t'.Holds field type := by
  obtain ⟨column, hcolumn, htype⟩ := hfield
  refine ⟨column.respelled t', ?_, by simpa using htype⟩
  rw [h.column?_eq, hcolumn]
  rfl

theorem orderingRules_respelled (hrules : OrderingRules t op) : OrderingRules t' op where
  columns key hkey := by
    rw [isSome_column?_respelled h]
    exact hrules.columns key hkey
  select := hrules.select

theorem heldOrRaw_respelled {field : String} {type : ValueType} (hfield : HeldOrRaw t op p field type) :
    HeldOrRaw t' op p field type := by
  obtain hheld | ⟨hnone, hraw⟩ := hfield
  · exact .inl (holds_respelled h hheld)
  · refine .inr ⟨?_, hraw⟩
    rw [h.column?_eq, hnone]
    rfl

theorem paramRules_respelled (hrules : ParamRules t op p) : ParamRules t' op p where
  plain_alias := hrules.plain_alias
  folded_string := hrules.folded_string
  columns := by
    have hcolumns := hrules.columns
    unfold ColumnRules at hcolumns ⊢
    cases htype : p.type with
    | scalar type =>
      rw [htype] at hcolumns
      exact ⟨fun field hfield => holds_respelled h (hcolumns.1 field hfield),
        fun hnone => heldOrRaw_respelled h (hcolumns.2 hnone)⟩
    | composite fields =>
      rw [htype] at hcolumns
      exact fun f hf hskip => heldOrRaw_respelled h (hcolumns f hf hskip)
    | entity => trivial

theorem resolves_respelled (hresolves : resolveParams t op = .ok (boundParams t op)) :
    resolveParams t' op = .ok (boundParams t' op) := by
  obtain ⟨hordering, hnames, hparams⟩ := resolveParams_eq_ok.1 hresolves
  exact resolveParams_eq_ok.2
    ⟨orderingRules_respelled h hordering, hnames, fun p hp => paramRules_respelled h (hparams p hp)⟩

theorem assigns_respelled (hassigns : Assigns t p) : Assigns t' p := by
  obtain ⟨target, htarget, hgiven⟩ := hassigns
  refine ⟨target.respelled t', ?_, by simpa [Target.respelled] using hgiven⟩
  rw [targetsOf_respelled h]
  exact List.mem_map_of_mem htarget

theorem kindRules_respelled (hrules : KindRules t op) : KindRules t' op := by
  unfold KindRules at hrules ⊢
  cases hkind : op.kind with
  | update =>
    simp only [hkind] at hrules ⊢
    obtain ⟨p, hp, hrole, hassigns⟩ := hrules.assigns
    refine ⟨fun p hp hrole hscalar => ?_, ⟨p, hp, hrole, assigns_respelled h hassigns⟩, hrules.returns⟩
    rw [targetsOf_respelled h, List.length_map]
    exact hrules.one_column p hp hrole hscalar
  | selectEntity | selectColumn | selectRawExpression =>
    simp only [hkind] at hrules ⊢
    refine ⟨hrules.returns, hrules.one_selection, fun hcolumn => ?_, hrules.expression⟩
    obtain ⟨field, hfield, hsome⟩ := hrules.column hcolumn
    exact ⟨field, hfield, by rwa [isSome_column?_respelled h]⟩
  | insert | batchInsert | delete | count | «exists» =>
    simp only [hkind] at hrules ⊢
    exact hrules

theorem exists_plan_respelled (hplan : ∃ plan, Query.plan t op = .ok plan) : ∃ plan, Query.plan t' op = .ok plan := by
  obtain ⟨hresolves, hkind⟩ := exists_plan.1 hplan
  exact exists_plan.2 ⟨resolves_respelled h hresolves, kindRules_respelled h hkind⟩

/-! ### What is stored -/

theorem filterParams_respelled :
    filterParams (boundParams t' op) = (filterParams (boundParams t op)).map (BoundParam.respelled t') := by
  rw [boundParams_respelled h, filterParams, filterParams, List.filter_map]
  rfl

theorem valueParams_respelled :
    valueParams (boundParams t' op) = (valueParams (boundParams t op)).map (BoundParam.respelled t') := by
  rw [boundParams_respelled h, valueParams, valueParams, List.filter_map]
  rfl

omit h in
theorem assignedTargets_respelled (params : List BoundParam) :
    assignedTargets (params.map (BoundParam.respelled t')) = (assignedTargets params).map (Target.respelled t') := by
  have hgiven : ∀ p : Param, (fun target : Target => !(p.isComposite && target.column.isGenerated)) ∘
      Target.respelled t' = fun target => !(p.isComposite && target.column.isGenerated) := by
    intro p
    funext target
    simp [Target.respelled]
  rw [assignedTargets, assignedTargets, List.flatMap_map, List.map_flatMap]
  refine congrArg (List.flatMap · params) (funext fun b => ?_)
  rw [BoundParam.respelled, List.filter_map, hgiven]

omit h in
theorem insertTargets_respelled (params : List BoundParam) :
    insertTargets (params.map (BoundParam.respelled t')) = (insertTargets params).map (Target.respelled t') := by
  have hgiven : (fun target : Target => !target.column.isGenerated) ∘ Target.respelled t' =
      fun target => !target.column.isGenerated := by
    funext target
    simp [Target.respelled]
  have htargets : (params.map (BoundParam.respelled t')).flatMap (·.targets) =
      (params.flatMap (·.targets)).map (Target.respelled t') := by
    rw [List.flatMap_map, List.map_flatMap]
    rfl
  rw [insertTargets, insertTargets, htargets, List.filter_map, hgiven]

omit h in
theorem mem_insertTargets {target : Target} (htarget : target ∈ insertTargets (boundParams t op)) :
    target.column ∈ t.columns.toList := by
  obtain ⟨b, hb, htarget⟩ := List.mem_flatMap.1 (List.mem_filter.1 htarget).1
  obtain ⟨p, -, rfl⟩ := List.mem_map.1 hb
  exact (mem_targetsOf htarget).1

theorem insertTarget?_respelled {column : Column} (hcolumn : column ∈ t.columns.toList) :
    insertTarget? t' (boundParams t' op) (column.respelled t') =
      (insertTarget? t (boundParams t op) column).map (Target.respelled t') := by
  have hany : (t'.columns.toList.any fun other => other.isGenerated && other.name = (column.respelled t').name) =
      t.columns.toList.any fun other => other.isGenerated && other.name = column.name := by
    rw [h.columns_eq, List.any_map, Bool.eq_iff_iff, List.any_eq_true, List.any_eq_true]
    refine exists_congr fun other => and_congr_right fun hother => ?_
    simp [h.name_eq_iff hother hcolumn]
  have hfind : (insertTargets (boundParams t' op)).find? (·.column.name = (column.respelled t').name) =
      ((insertTargets (boundParams t op)).find? (·.column.name = column.name)).map (Target.respelled t') := by
    rw [boundParams_respelled h, insertTargets_respelled, List.find?_map]
    refine congrArg (Option.map _) (List.find?_congr fun target htarget => ?_)
    simp [Target.respelled, h.name_eq_iff (mem_insertTargets htarget) hcolumn]
  unfold insertTarget?
  rw [hany, hfind]
  split
  · rfl
  · cases (insertTargets (boundParams t op)).find? (·.column.name = column.name) with
    | none => rfl
    | some target =>
      simp only [Option.map_some, Target.respelled, Column.field_respelled]
      split <;> rfl

theorem insertValues_respelled :
    insertValues t' (boundParams t' op) = (insertValues t (boundParams t op)).map (Target.respelled t') := by
  rw [insertValues, insertValues, h.columns_eq, List.zipIdx_map, List.filterMap_map, List.map_filterMap]
  refine List.filterMap_congr fun entry hentry => ?_
  obtain ⟨column, i⟩ := entry
  have hcolumn : column ∈ t.columns.toList := List.fst_mem_of_mem_zipIdx hentry
  have hvalue : insertValue? t' (boundParams t' op) (column.respelled t') i =
      insertValue? t (boundParams t op) column i := by
    rw [insertValue?, insertValue?, Column.isGenerated_respelled, insertTarget?_respelled h hcolumn, Option.map_map]
    rfl
  simp only [Function.comp_apply, Prod.map_apply, id, hvalue, Option.map_map]
  rfl

end

end Query
end EntitySql
