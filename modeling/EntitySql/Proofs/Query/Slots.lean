import EntitySql.Proofs.Query.Resolved

/-! The slots of a statement, part by part. They are numbered in the order in which they stand, so the order of the
parts is the order of the placeholders. -/
namespace EntitySql.Query
variable {t : Table} {op : Operation}

@[simp]
theorem slots_nil : slots [] = [] := rfl

@[simp]
theorem slots_append (a b : List Piece) : slots (a ++ b) = slots a ++ slots b :=
  List.filterMap_append

@[simp]
theorem slots_text (sql : String) (rest : List Piece) : slots (.text sql :: rest) = slots rest := rfl

@[simp]
theorem slots_name (name : String) (rest : List Piece) : slots (.name name :: rest) = slots rest := rfl

@[simp]
theorem slots_object (name : ObjectName) (rest : List Piece) : slots (.object name :: rest) = slots rest := rfl

@[simp]
theorem slots_nullSafeEquals (rest : List Piece) : slots (.nullSafeEquals :: rest) = slots rest := rfl

@[simp]
theorem slots_slot (slot : Slot) (rest : List Piece) : slots (.slot slot :: rest) = slot :: slots rest := rfl

@[simp]
theorem slots_separated (separator : String) (groups : List (List Piece)) :
    slots (separated separator groups) = groups.flatMap slots := by
  unfold separated
  induction groups with
  | nil => rfl
  | cons group groups ih =>
    cases groups with
    | nil => simp
    | cons next rest =>
      rw [List.intercalate_cons_cons, slots_append, slots_append, ih]
      simp

theorem slots_separated_map {α : Type} {separator : String} {group : α → List Piece} (slot : α → Slot)
    (h : ∀ a, slots (group a) = [slot a]) (xs : List α) :
    slots (separated separator (xs.map group)) = xs.map slot := by
  rw [slots_separated, List.flatMap_map, List.map_eq_flatMap]
  exact congrArg (List.flatMap · xs) (funext h)

@[simp]
theorem Predicate.slots_pieces (p : Predicate) : slots p.pieces = [p.slot] := by
  unfold Predicate.pieces
  cases p.comparison with
  | folded operator => rfl
  | nullSafe => rfl
  | plain operator => rfl

@[simp]
theorem Condition.slots_pieces (c : Condition) : slots c.pieces = c.predicates.map (·.slot) := by
  cases c with
  | one p => simp [Condition.pieces, Condition.predicates]
  | anyOf ps =>
    rw [Condition.pieces, List.cons_append, slots_text, slots_append,
      slots_separated_map Predicate.slot Predicate.slots_pieces]
    simp [Condition.predicates]

@[simp]
theorem Filter.slots_pieces (f : Filter) :
    slots f.pieces = (f.conditions.flatMap (·.predicates)).map (·.slot) ++ slots f.raw := by
  have hconditions : ∀ cs : List Condition,
      (cs.map Condition.pieces).flatMap slots = (cs.flatMap (·.predicates)).map (·.slot) := by
    intro cs
    simp [List.flatMap_map, List.map_flatMap]
  unfold Filter.pieces
  split
  · next hc hr => simp [hc, hr]
  · next hc _ => simp [hc]
  · next hr _ => simp [hr, hconditions]
  · simp [hconditions]

@[simp]
theorem slots_orderPieces (keys : List (String × Direction)) : slots (orderPieces keys) = [] := by
  cases keys with
  | nil => rfl
  | cons key keys => simp [orderPieces, List.flatMap_map]

@[simp]
theorem slots_limitPieces (limit : Option UInt64) : slots (limitPieces limit) = [] := by
  cases limit with
  | none => rfl
  | some n => rfl

theorem Selection.slots_columns (names : List String) : slots (Selection.columns names).pieces = [] := by
  simp [Selection.pieces, List.flatMap_map]

@[simp]
theorem Statement.slots_insert (table : ObjectName) (values : List (String × Slot)) :
    (Statement.insert table values).slots = values.map (·.2) := by
  cases values with
  | nil => rfl
  | cons value values =>
    have hnames : values.flatMap (fun _ => ([] : List Slot)) = [] := by simp
    have hslots : values.flatMap (fun value => [value.2]) = values.map (·.2) := List.map_eq_flatMap.symm
    simp [Statement.slots, Statement.pieces, List.flatMap_map, hnames, hslots]

/-- The slots of a statement: those of what is selected or assigned, then those of the filter. -/
@[simp]
theorem Statement.slots_update (table : ObjectName) (assignments : List (String × Slot)) (filter : Filter) :
    (Statement.update table assignments filter).slots =
      assignments.map (·.2) ++ Query.slots filter.pieces := by
  rw [Statement.slots, Statement.pieces, slots_append, slots_append,
    slots_separated_map Prod.snd fun _ => rfl]
  rfl

@[simp]
theorem Statement.slots_delete (table : ObjectName) (filter : Filter) :
    (Statement.delete table filter).slots = Query.slots filter.pieces := by
  rw [Statement.slots, Statement.pieces, slots_append]
  rfl

@[simp]
theorem Statement.slots_count (table : ObjectName) (filter : Filter) :
    (Statement.count table filter).slots = Query.slots filter.pieces := by
  rw [Statement.slots, Statement.pieces, slots_append]
  rfl

@[simp]
theorem Statement.slots_select (table : ObjectName) (selection : Selection) (filter : Filter)
    (order : List (String × Direction)) (limit : Option UInt64) :
    (Statement.select table selection filter order limit).slots =
      Query.slots selection.pieces ++ Query.slots filter.pieces := by
  simp [Statement.slots, Statement.pieces]

/-- The predicates of a parameter, one for each target, whether they stand alone or as alternatives. -/
theorem predicates_conditionsOf (p : BoundParam) :
    (conditionsOf p).flatMap (·.predicates) = p.targets.map (predicateOf p.param) := by
  unfold conditionsOf
  dsimp only
  split
  · rw [List.flatMap_map]
    exact List.flatMap_singleton' _
  · split
    · next h =>
      rw [h]
      rfl
    · next h =>
      rw [h]
      rfl
    · simp [Condition.predicates]

theorem conditionsOf_eq_nil {p : BoundParam} : conditionsOf p = [] ↔ p.targets = [] := by
  have hpredicates := predicates_conditionsOf p
  constructor
  · intro h
    rw [h, List.flatMap_nil] at hpredicates
    exact List.map_eq_nil_iff.1 hpredicates.symm
  · intro h
    unfold conditionsOf
    simp [h]

theorem conditions_eq_nil {params : List BoundParam} : params.flatMap conditionsOf = [] ↔ ∀ p ∈ params, p.targets = [] := by
  simp [List.flatMap_eq_nil_iff, conditionsOf_eq_nil]

/-- The conditions of a parameter have the slots of its targets. -/
theorem slots_conditionsOf (p : BoundParam) :
    ((conditionsOf p).map Condition.pieces).flatMap slots = p.targets.map Target.slot := by
  have hslots : ((conditionsOf p).map Condition.pieces).flatMap slots =
      ((conditionsOf p).flatMap (·.predicates)).map (·.slot) := by
    simp [List.flatMap_map, List.map_flatMap]
  rw [hslots, predicates_conditionsOf, List.map_map]
  rfl

theorem slots_conditions (params : List BoundParam) :
    ((params.flatMap conditionsOf).flatMap (·.predicates)).map (·.slot) =
      (params.flatMap (·.targets)).map Target.slot := by
  rw [List.flatMap_assoc, List.map_flatMap, List.map_flatMap]
  refine congrArg (List.flatMap · params) (funext fun p => ?_)
  rw [predicates_conditionsOf, List.map_map]
  rfl

theorem slots_joined (params : List BoundParam) :
    slots (separated " AND " ((params.flatMap conditionsOf).map Condition.pieces)) =
      (params.flatMap (·.targets)).map Target.slot := by
  rw [← slots_conditions, slots_separated, List.flatMap_map, List.map_flatMap]
  exact congrArg (List.flatMap · _) (funext Condition.slots_pieces)

theorem slots_fullFilter (params : List BoundParam) :
    slots (fullFilter t op params).pieces =
      (params.flatMap (·.targets)).map Target.slot ++
        (rawPredicate? op).toList.flatMap fun raw => slots (rawPieces t op raw) := by
  rw [Filter.slots_pieces]
  unfold fullFilter
  cases hp : op.rawPredicate with
  | none => simp [rawPredicate?, hp, paramFilter, slots_conditions]
  | some p => simp [rawPredicate?, hp, slots_conditions]

end EntitySql.Query
