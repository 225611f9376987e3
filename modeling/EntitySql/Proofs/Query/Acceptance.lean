import EntitySql.Proofs.Query.Planned

/-! Which operations are compiled: the rules that an operation has to keep, and that they are just those which the
planner checks. Nothing that a later step refuses was let through by an earlier one. -/
namespace EntitySql
open Fragment (Raw)
open Query

/-- Raw SQL names a parameter: in the predicate, or in the expression that a select returns. -/
def Operation.NamesInRaw (op : Operation) (name : String) : Prop :=
  (∃ predicate ∈ op.rawPredicate, name ∈ (Raw.ofSql predicate.sql).parameterNames) ∨
    op.kind = .selectRawExpression ∧ ∃ sql ∈ op.returnExpression, name ∈ (Raw.ofSql sql).parameterNames

/-- A field has a column for values of a type. -/
def Table.Holds (t : Table) (field : String) (type : ValueType) : Prop :=
  ∃ column, t.column? field = some column ∧ column.type = type

namespace Query
variable {t : Table} {op : Operation} {p : Param}

/-- Rows are ordered by columns, and only selects order or limit them. -/
structure OrderingRules (t : Table) (op : Operation) : Prop where
  columns : ∀ key ∈ op.orderBy, (t.column? key.field).isSome
  select : op.kind.isSelect = false → op.orderBy = [] ∧ op.limit = none

/-- What a value or a field of a structure is bound to: a column of its type, or none if raw SQL has use for it. -/
def HeldOrRaw (t : Table) (op : Operation) (p : Param) (field : String) (type : ValueType) : Prop :=
  t.Holds field type ∨ t.column? field = none ∧ op.NamesInRaw p.name

/-- The columns that a parameter needs. -/
def ColumnRules (t : Table) (op : Operation) (p : Param) : Prop :=
  match p.type with
  | .scalar type =>
    (∀ field ∈ p.targets, t.Holds field type) ∧
      (p.targets = [] → HeldOrRaw t op p (p.fieldAlias.getD p.name) type)
  | .composite fields => ∀ f ∈ fields, f.skip = false → HeldOrRaw t op p f.name f.type
  | .entity => True

/-- The rules for a parameter. -/
structure ParamRules (t : Table) (op : Operation) (p : Param) : Prop where
  plain_alias : p.fieldAlias.isSome → p.targets = [] ∧ p.ignoreCase = false ∧ Text.trim p.operator = "="
  folded_string : p.ignoreCase = true → p.type = .scalar ⟨.string, false⟩
  columns : ColumnRules t op p

/-- A parameter of an update gives a column its value; a structure gives none to a generated column. -/
def Assigns (t : Table) (p : Param) : Prop :=
  ∃ target ∈ targetsOf t p, p.isComposite = true → target.column.isGenerated = false

structure InsertRules (op : Operation) : Prop where
  entity_alone : ∀ p ∈ op.params, p.type = .entity → op.params = [p]
  returns : op.returns = .void ∨ op.returns = .int ∨ op.returns = .bool ∨
    op.returns = .one ∧ ∃ p ∈ op.params, p.type = .entity

structure BatchRules (op : Operation) : Prop where
  one_structure : ∃ p, op.params = [p] ∧ p.isComposite = true
  returns : op.returns = .void ∨ op.returns = .int

structure UpdateRules (t : Table) (op : Operation) : Prop where
  one_column : ∀ p ∈ op.params, p.role ≠ .whereFilter → p.isComposite = false → (targetsOf t p).length ≤ 1
  assigns : ∃ p ∈ op.params, p.role ≠ .whereFilter ∧ Assigns t p
  returns : op.returns ≠ .many

structure SelectRules (t : Table) (op : Operation) : Prop where
  returns : op.returns = .one ∨ op.returns = .many
  one_selection : op.returnColumn = none ∨ op.returnExpression = none
  column : op.kind = .selectColumn → ∃ field ∈ op.returnColumn, (t.column? field).isSome
  expression : op.kind = .selectRawExpression → op.returnExpression.isSome

/-- The rules for an operation of its kind. -/
def KindRules (t : Table) (op : Operation) : Prop :=
  match op.kind with
  | .insert => InsertRules op
  | .batchInsert => BatchRules op
  | .update => UpdateRules t op
  | .delete => op.returns = .void ∨ op.returns = .bool ∨ op.returns = .int
  | .count => op.returns = .int
  | .exists => op.returns = .bool
  | .selectEntity | .selectColumn | .selectRawExpression => SelectRules t op

/-- The rules for an operation of a table. -/
structure Acceptable (t : Table) (op : Operation) : Prop where
  ordering : OrderingRules t op
  raw_declared : ∀ name, op.NamesInRaw name → ∃ p ∈ op.params, p.name = name
  params : ∀ p ∈ op.params, ParamRules t op p
  kind : KindRules t op

theorem mem_rawNames {name : String} : name ∈ rawNames op ↔ op.NamesInRaw name := by
  unfold rawNames rawExpression? rawPredicate? Operation.NamesInRaw
  by_cases hkind : op.kind = .selectRawExpression
  · simp [hkind, or_comm, and_comm]
  · simp [hkind, and_comm]

theorem checkOrdering_eq_ok : checkOrdering t op = .ok () ↔ OrderingRules t op := by
  unfold checkOrdering
  cases hfind : op.orderBy.find? fun key => (t.column? key.field).isNone with
  | some key =>
    have hmem := List.mem_of_find?_eq_some hfind
    have hnone := List.find?_some hfind
    refine iff_of_false throw_ne_ok fun h => ?_
    have hsome := h.columns key hmem
    simp_all
  | none =>
    have hcolumns : ∀ key ∈ op.orderBy, (t.column? key.field).isSome := by
      intro key hkey
      simpa [Option.isSome_iff_ne_none] using List.find?_eq_none.1 hfind key hkey
    dsimp only
    cases hselect : op.kind.isSelect with
    | true => simpa [pure_eq_ok] using ⟨hcolumns, by simp [hselect]⟩
    | false =>
      split
      · next hgiven =>
        refine iff_of_false throw_ne_ok fun h => ?_
        obtain ⟨horder, hlimit⟩ := h.select hselect
        simp [horder, hlimit] at hgiven
      · next hgiven =>
        refine iff_of_true rfl ⟨hcolumns, fun _ => ?_⟩
        simpa using hgiven

theorem checkRawNames_eq_ok :
    checkRawNames op = .ok () ↔ ∀ name, op.NamesInRaw name → ∃ p ∈ op.params, p.name = name := by
  have hdeclared : ∀ name, (op.param? name).isNone = true ↔ ¬∃ p ∈ op.params, p.name = name := by
    intro name
    simp [Operation.param?]
  unfold checkRawNames
  cases hfind : (rawNames op).find? fun name => (op.param? name).isNone with
  | some name =>
    have hnone := List.find?_some hfind
    refine iff_of_false throw_ne_ok fun h => ?_
    exact (hdeclared name).1 hnone (h name (mem_rawNames.1 (List.mem_of_find?_eq_some hfind)))
  | none =>
    refine iff_of_true rfl fun name hname => ?_
    by_contra hnone
    exact List.find?_eq_none.1 hfind name (mem_rawNames.2 hname) ((hdeclared name).2 hnone)

theorem checkAnnotations_eq_ok :
    checkAnnotations op p = .ok () ↔
      (p.fieldAlias.isSome → p.targets = [] ∧ p.ignoreCase = false ∧ Text.trim p.operator = "=") ∧
        (p.ignoreCase = true → p.type = .scalar ⟨.string, false⟩) := by
  unfold checkAnnotations
  split
  · next h =>
    refine iff_of_false throw_ne_ok fun hrules => ?_
    obtain ⟨halias, hrest⟩ := Bool.and_eq_true_iff.1 h
    obtain ⟨htargets, hcase, hoperator⟩ := hrules.1 halias
    simp [htargets, hcase, Param.isDefaultEquality, Param.comparison, hoperator] at hrest
  · next h =>
    have halias : p.fieldAlias.isSome → p.targets = [] ∧ p.ignoreCase = false ∧ Text.trim p.operator = "=" := by
      intro hsome
      simpa [hsome, Param.isDefaultEquality, Param.comparison, and_assoc] using h
    split
    · next hfold =>
      refine iff_of_false throw_ne_ok fun hrules => ?_
      simp only [Bool.and_eq_true, decide_eq_true_eq] at hfold
      exact hfold.2 (hrules.2 hfold.1)
    · next hfold =>
      refine iff_of_true rfl ⟨halias, fun hcase => ?_⟩
      simpa [hcase] using hfold

section
variable {mayBeAbsent : Bool} {label field : String} {type : ValueType} {value : Value}

theorem exists_fieldTargets :
    (∃ targets, fieldTargets t op mayBeAbsent label type value field = .ok targets) ↔
      t.Holds field type ∨ t.column? field = none ∧ mayBeAbsent = true := by
  unfold fieldTargets Table.Holds
  cases hcolumn : t.column? field with
  | some column =>
    simp only [exists_bind_eq_ok, typedTarget, Column.accepts, beq_iff_eq]
    by_cases htype : column.type = type
    · simp [htype, pure_eq_ok]
    · simp [htype, throw_ne_ok]
  | none =>
    cases mayBeAbsent with
    | true => simp [pure_eq_ok]
    | false => simp [throw_ne_ok]

theorem exists_joinTargets {α : Type} {f : α → Except CompileError (List Target)} {xs : List α} :
    (∃ targets, joinTargets f xs = .ok targets) ↔ ∀ x ∈ xs, ∃ targets, f x = .ok targets := by
  induction xs with
  | nil => simp [joinTargets, pure_eq_ok]
  | cons x xs ih =>
    rw [joinTargets, exists_bind_eq_ok, List.forall_mem_cons, ← ih]
    constructor
    · rintro ⟨first, hfirst, hrest⟩
      obtain ⟨rest, hrest, -⟩ := exists_bind_eq_ok.1 hrest
      exact ⟨⟨first, hfirst⟩, rest, hrest⟩
    · rintro ⟨⟨first, hfirst⟩, rest, hrest⟩
      exact ⟨first, hfirst, exists_bind_eq_ok.2 ⟨rest, hrest, _, rfl⟩⟩

end

theorem exists_resolveTargets : (∃ targets, resolveTargets t op p = .ok targets) ↔ ColumnRules t op p := by
  have hraw : (rawNames op).contains p.name = true ↔ op.NamesInRaw p.name := by
    rw [List.contains_iff_mem, mem_rawNames]
  unfold resolveTargets ColumnRules HeldOrRaw
  cases htype : p.type with
  | scalar type =>
    cases htargets : p.targets with
    | nil => simp [exists_fieldTargets, mem_rawNames]
    | cons field fields => simp only [exists_joinTargets, exists_fieldTargets]; simp
  | composite fields =>
    simp only [exists_joinTargets, exists_fieldTargets, hraw, List.mem_filter]
    simp
  | entity => simp [pure_eq_ok]

theorem exists_resolveParam : (∃ b, resolveParam t op p = .ok b) ↔ ParamRules t op p := by
  rw [resolveParam, exists_bind_eq_ok]
  simp only [exists_bind_eq_ok, pure_eq_ok, exists_eq', and_true, exists_resolveTargets]
  constructor
  · rintro ⟨⟨⟩, hannotations, hcolumns⟩
    obtain ⟨halias, hfold⟩ := checkAnnotations_eq_ok.1 hannotations
    exact ⟨halias, hfold, hcolumns⟩
  · intro h
    exact ⟨(), checkAnnotations_eq_ok.2 ⟨h.plain_alias, h.folded_string⟩, h.columns⟩

/-- The parameters of an operation resolve under the rules that hold for operations of every kind. -/
theorem resolveParams_eq_ok :
    resolveParams t op = .ok (boundParams t op) ↔
      OrderingRules t op ∧ (∀ name, op.NamesInRaw name → ∃ p ∈ op.params, p.name = name) ∧
        ∀ p ∈ op.params, ParamRules t op p := by
  have hexists : (∃ params, resolveParams t op = .ok params) ↔ resolveParams t op = .ok (boundParams t op) := by
    constructor
    · rintro ⟨params, h⟩
      obtain ⟨rfl, -⟩ := eq_of_resolveParams h
      exact h
    · exact fun h => ⟨_, h⟩
  rw [← hexists, resolveParams, exists_bind_eq_ok]
  simp only [exists_bind_eq_ok, exists_mapM_eq_ok, exists_resolveParam]
  constructor
  · rintro ⟨⟨⟩, hordering, ⟨⟩, hnames, hparams⟩
    exact ⟨checkOrdering_eq_ok.1 hordering, checkRawNames_eq_ok.1 hnames, hparams⟩
  · rintro ⟨hordering, hnames, hparams⟩
    exact ⟨(), checkOrdering_eq_ok.2 hordering, (), checkRawNames_eq_ok.2 hnames, hparams⟩

theorem checkEntityAlone_eq_ok :
    checkEntityAlone op = .ok () ↔ ∀ p ∈ op.params, p.type = .entity → op.params = [p] := by
  unfold checkEntityAlone
  cases hfind : op.params.find? (·.type = .entity) with
  | none =>
    refine iff_of_true rfl fun p hp htype => ?_
    exact absurd (by simpa using htype) (List.find?_eq_none.1 hfind p hp)
  | some entity =>
    have hmem := List.mem_of_find?_eq_some hfind
    have htype : entity.type = .entity := by simpa using List.find?_some hfind
    dsimp only
    split
    · next hlength =>
      refine iff_of_false throw_ne_ok fun h => ?_
      simp [h entity hmem htype] at hlength
    · next hlength =>
      refine iff_of_true rfl fun p hp _ => ?_
      have hone : op.params.length = 1 := by
        have hpos := List.length_pos_of_mem hp
        omega
      obtain ⟨q, hq⟩ := List.length_eq_one_iff.1 hone
      rw [hq] at hp ⊢
      rw [List.mem_singleton.1 hp]

theorem exists_batchParam (hkind : op.kind = .batchInsert) {batch : Option String} :
    batchParam t op = .ok batch ↔ ∃ p, op.params = [p] ∧ p.isComposite = true ∧ batch = some p.name := by
  unfold batchParam
  rw [if_pos hkind]
  split
  · next only honly =>
    split
    · next hcomposite =>
      refine pure_eq_ok.trans ⟨fun h => ⟨only, honly, hcomposite, h.symm⟩, ?_⟩
      rintro ⟨p, hp, -, rfl⟩
      rw [honly] at hp
      cases hp
      rfl
    · next hcomposite => simp [honly, hcomposite, throw_ne_ok]
  · next hnone =>
    refine iff_of_false throw_ne_ok ?_
    rintro ⟨p, hp, -⟩
    exact hnone p hp

theorem exists_insertResult {values : List Target} :
    (∃ r, insertResult t op false values = .ok r) ↔
      op.returns = .void ∨ op.returns = .int ∨ op.returns = .bool ∨
        op.returns = .one ∧ ∃ p ∈ op.params, p.type = .entity := by
  unfold insertResult
  cases op.returns with
  | void | int | bool => simp [pure_eq_ok]
  | many => simp [throw_ne_ok]
  | one =>
    cases hfind : op.params.find? (·.type = .entity) with
    | none =>
      have hnone : ¬∃ p ∈ op.params, p.type = .entity := by
        rintro ⟨p, hp, htype⟩
        exact List.find?_eq_none.1 hfind p hp (by simpa using htype)
      simp [hnone, throw_ne_ok]
    | some entity =>
      have hsome : ∃ p ∈ op.params, p.type = .entity :=
        ⟨entity, List.mem_of_find?_eq_some hfind, by simpa using List.find?_some hfind⟩
      simp [hsome, pure_eq_ok]

theorem exists_insertResult_batch {values : List Target} :
    (∃ r, insertResult t op true values = .ok r) ↔ op.returns = .void ∨ op.returns = .int := by
  unfold insertResult
  cases op.returns with
  | void | int => simp [pure_eq_ok]
  | bool | one | many => simp [throw_ne_ok]

theorem exists_planInsert (hkind : op.kind = .insert) {params : List BoundParam} :
    (∃ p, planInsert t op params = .ok p) ↔ InsertRules op := by
  have hbatch : batchParam t op = .ok none := by simp [batchParam, hkind, pure_eq_ok]
  simp only [planInsert, exists_bind_eq_ok, hbatch, Except.ok.injEq, exists_eq_left', Option.isSome_none,
    pure_eq_ok, exists_eq', and_true, exists_insertResult]
  constructor
  · rintro ⟨⟨⟩, halone, hreturns⟩
    exact ⟨checkEntityAlone_eq_ok.1 halone, hreturns⟩
  · intro h
    exact ⟨(), checkEntityAlone_eq_ok.2 h.entity_alone, h.returns⟩

theorem exists_planInsert_batch (hkind : op.kind = .batchInsert) {params : List BoundParam} :
    (∃ p, planInsert t op params = .ok p) ↔ BatchRules op := by
  simp only [planInsert, exists_bind_eq_ok, exists_batchParam hkind, pure_eq_ok, exists_eq', and_true]
  constructor
  · rintro ⟨⟨⟩, halone, _, ⟨p, hp, hcomposite, rfl⟩, hreturns⟩
    exact ⟨⟨p, hp, hcomposite⟩, exists_insertResult_batch.1 hreturns⟩
  · rintro ⟨⟨p, hp, hcomposite⟩, hreturns⟩
    have halone : ∀ q ∈ op.params, q.type = .entity → op.params = [q] := by
      intro q hq _
      rw [hp] at hq ⊢
      rw [List.mem_singleton.1 hq]
    exact ⟨(), checkEntityAlone_eq_ok.2 halone, some p.name, ⟨p, hp, hcomposite, rfl⟩,
      exists_insertResult_batch.2 hreturns⟩

theorem exists_updateResult {params : List BoundParam} :
    (∃ r, updateResult t op params = .ok r) ↔ op.returns ≠ .many := by
  unfold updateResult
  cases op.returns with
  | void | int | bool | one => simp [pure_eq_ok]
  | many => simp [throw_ne_ok]

theorem valueParams_boundParams :
    valueParams (boundParams t op) = (op.params.filter fun p => p.role ≠ .whereFilter).map (bound t) := by
  rw [valueParams, boundParams, List.filter_map]
  rfl

theorem assignedTargets_eq_nil :
    assignedTargets (valueParams (boundParams t op)) = [] ↔
      ¬∃ p ∈ op.params, p.role ≠ .whereFilter ∧ Assigns t p := by
  rw [valueParams_boundParams, assignedTargets, List.flatMap_eq_nil_iff]
  simp only [List.mem_map, List.mem_filter, decide_eq_true_eq, List.filter_eq_nil_iff]
  constructor
  · rintro hnone ⟨p, hp, hrole, target, htarget, hassigned⟩
    refine hnone _ ⟨p, ⟨hp, hrole⟩, rfl⟩ target htarget ?_
    cases hcomposite : p.isComposite with
    | false => simp [bound, hcomposite]
    | true => simp [hassigned hcomposite]
  · rintro hnone _ ⟨p, ⟨hp, hrole⟩, rfl⟩ target htarget hassigned
    refine hnone ⟨p, hp, hrole, target, htarget, fun hcomposite => ?_⟩
    simpa [bound, hcomposite] using hassigned

theorem checkSingleColumns_eq_ok : checkSingleColumns op (valueParams (boundParams t op)) = .ok () ↔
    ∀ p ∈ op.params, p.role ≠ .whereFilter → p.isComposite = false → (targetsOf t p).length ≤ 1 := by
  have hnone : ((valueParams (boundParams t op)).find? fun p => !p.param.isComposite && p.targets.length > 1) = none ↔
      ∀ p ∈ op.params, p.role ≠ .whereFilter → p.isComposite = false → (targetsOf t p).length ≤ 1 := by
    rw [valueParams_boundParams, List.find?_eq_none, List.forall_mem_map]
    simp [bound]
  rw [← hnone]
  unfold checkSingleColumns
  split
  · next hfind => simp [hfind, throw_ne_ok]
  · next hfind => simp [hfind, pure_eq_ok]

theorem exists_planUpdate : (∃ p, planUpdate t op (boundParams t op) = .ok p) ↔ UpdateRules t op := by
  unfold planUpdate
  rw [exists_bind_eq_ok]
  constructor
  · rintro ⟨_, hsingle, h⟩
    dsimp only at h
    split at h
    · obtain ⟨_, h⟩ := h
      exact absurd h throw_ne_ok
    · next hassigned =>
      simp only [exists_bind_eq_ok, pure_eq_ok, exists_eq', and_true, exists_updateResult] at h
      refine ⟨checkSingleColumns_eq_ok.1 hsingle, ?_, h⟩
      by_contra hnone
      exact hassigned (List.isEmpty_iff.2 (assignedTargets_eq_nil.2 hnone))
  · intro h
    refine ⟨(), checkSingleColumns_eq_ok.2 h.one_column, ?_⟩
    dsimp only
    split
    · next hempty => exact absurd h.assigns (assignedTargets_eq_nil.1 (List.isEmpty_iff.1 hempty))
    · simp only [exists_bind_eq_ok, pure_eq_ok, exists_eq', and_true, exists_updateResult]
      exact h.returns

theorem exists_planDelete {params : List BoundParam} :
    (∃ p, planDelete t op params = .ok p) ↔ op.returns = .void ∨ op.returns = .bool ∨ op.returns = .int := by
  simp only [planDelete, exists_bind_eq_ok, pure_eq_ok, exists_eq', and_true]
  unfold deleteResult
  cases op.returns with
  | void | bool | int => simp [pure_eq_ok]
  | one | many => simp [throw_ne_ok]

theorem exists_planCount {params : List BoundParam} :
    (∃ p, planCount t op params = .ok p) ↔
      op.kind = .count ∧ op.returns = .int ∨ op.kind = .exists ∧ op.returns = .bool := by
  simp only [planCount, exists_bind_eq_ok, pure_eq_ok, exists_eq', and_true]
  unfold countResult
  split <;> simp_all [pure_eq_ok, throw_ne_ok]

theorem exists_selectionOf (hkind : op.kind.isSelect = true) :
    (∃ s, selectionOf t op = .ok s) ↔
      (op.kind = .selectColumn → ∃ field ∈ op.returnColumn, (t.column? field).isSome) ∧
        (op.kind = .selectRawExpression → op.returnExpression.isSome) := by
  unfold selectionOf
  cases hop : op.kind with
  | selectEntity => simp [pure_eq_ok]
  | selectColumn =>
    cases hfield : op.returnColumn with
    | none => simp [throw_ne_ok]
    | some field =>
      cases hcolumn : t.column? field with
      | none => simp [hcolumn, throw_ne_ok]
      | some column => simp [hcolumn, pure_eq_ok]
  | selectRawExpression =>
    cases hsql : op.returnExpression with
    | none => simp [rawExpression?, hop, hsql, throw_ne_ok]
    | some sql => simp [rawExpression?, hop, hsql, pure_eq_ok]
  | insert | batchInsert | update | delete | count | «exists» => simp [hop, OperationKind.isSelect] at hkind

theorem exists_selectResult : (∃ r, selectResult t op = .ok r) ↔
    (op.returns = .one ∨ op.returns = .many) ∧ (op.returnColumn = none ∨ op.returnExpression = none) := by
  have hgiven : (op.returnColumn.isSome && op.returnExpression.isSome) = true ↔
      ¬(op.returnColumn = none ∨ op.returnExpression = none) := by
    cases op.returnColumn <;> cases op.returnExpression <;> simp
  unfold selectResult
  cases op.returns with
  | one | many =>
    dsimp only
    rw [exists_bind_eq_ok]
    simp only [pure_eq_ok, exists_eq_left']
    split
    · next hboth => exact iff_of_false (fun ⟨_, h⟩ => throw_bind_ne_ok h) fun h => hgiven.1 hboth h.2
    · next hone => simp [pure_eq_ok, not_not.1 (hgiven.not.1 hone)]
  | void | bool | int => exact iff_of_false (fun ⟨_, h⟩ => throw_bind_ne_ok h) (by simp)

theorem exists_planSelect (hkind : op.kind.isSelect = true) {params : List BoundParam} :
    (∃ p, planSelect t op params = .ok p) ↔ SelectRules t op := by
  have hresult : (∃ p, planSelect t op params = .ok p) ↔
      (∃ r, selectResult t op = .ok r) ∧ ∃ s, selectionOf t op = .ok s := by
    simp only [planSelect, exists_bind_eq_ok, pure_eq_ok, exists_eq', and_true, exists_and_right]
  rw [hresult, exists_selectResult, exists_selectionOf hkind]
  constructor
  · rintro ⟨⟨hreturns, hone⟩, hcolumn, hexpression⟩
    exact ⟨hreturns, hone, hcolumn, hexpression⟩
  · exact fun h => ⟨⟨h.returns, h.one_selection⟩, h.column, h.expression⟩

/-- The plan of an operation whose parameters resolve depends on its kind. -/
theorem exists_plan :
    (∃ p, plan t op = .ok p) ↔ resolveParams t op = .ok (boundParams t op) ∧ KindRules t op := by
  rw [plan, exists_bind_eq_ok]
  have hresolved : ∀ {P : List BoundParam → Prop}, (∃ params, resolveParams t op = .ok params ∧ P params) ↔
      resolveParams t op = .ok (boundParams t op) ∧ P (boundParams t op) := by
    intro P
    constructor
    · rintro ⟨params, h, hP⟩
      obtain ⟨rfl, -⟩ := eq_of_resolveParams h
      exact ⟨h, hP⟩
    · exact fun h => ⟨_, h⟩
  rw [hresolved]
  refine and_congr_right fun _ => ?_
  unfold KindRules planBound
  cases hkind : op.kind with
  | insert => exact exists_planInsert hkind
  | batchInsert => exact exists_planInsert_batch hkind
  | update => exact exists_planUpdate
  | delete => exact exists_planDelete
  | count | «exists» =>
    dsimp only
    rw [exists_planCount]
    simp [hkind]
  | selectEntity | selectColumn | selectRawExpression => exact exists_planSelect (by rw [hkind]; rfl)

/-- An operation compiles exactly if it keeps the rules, in either dialect. -/
theorem compiles_iff (d : Dialect) : (∃ compiled, op.compile d t = .ok compiled) ↔ Acceptable t op := by
  have hplan : (∃ compiled, op.compile d t = .ok compiled) ↔ ∃ p, plan t op = .ok p := by
    simp only [compile_eq_ok]
    constructor
    · rintro ⟨_, p, hp, _⟩
      exact ⟨p, hp⟩
    · rintro ⟨p, hp⟩
      exact ⟨_, p, hp, rfl⟩
  rw [hplan, exists_plan, resolveParams_eq_ok]
  constructor
  · rintro ⟨⟨hordering, hnames, hparams⟩, hkind⟩
    exact ⟨hordering, hnames, hparams, hkind⟩
  · exact fun h => ⟨⟨h.ordering, h.raw_declared, h.params⟩, h.kind⟩

end Query
end EntitySql
