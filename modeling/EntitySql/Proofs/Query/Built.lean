import EntitySql.Proofs.Query.Bindings
import EntitySql.Proofs.Query.Collected
import EntitySql.Proofs.Query.Rendered

/-! Statements as they are written and statements as they are planned. The one are written in one pass, in which every value
that is bound gets the next number; the other have their slots numbered by their places. Main statement: an operation
is compiled to the rendering of its plan, so the parts of a text are joined in the order in which they were bound. -/
namespace EntitySql.Query
open Fragment (Raw Segment)
variable {d : Dialect} {t : Table} {op : Operation} {α β : Type}

/-- The builder after some ids have been minted, some arrays of constants mapped, and some values bound. -/
def stage (d : Dialect) (generated : List PreludeStep) (arrays : EnumArrays) (bindings : List Binding) : Builder where
  dialect := d
  prelude := {
    steps := generated ++ enumSteps arrays
    enumLocals := arrays.zipIdx.map fun entry => (entry.1.1, enumLocal entry.2)
    enumCount := arrays.length }
  bindings

section
variable {generated : List PreludeStep} {arrays : EnumArrays} {bindings : List Binding}

theorem find?_enumLocals (arrays : EnumArrays) (source : Value) (first : ℕ) :
    ((arrays.zipIdx first).map fun entry => (entry.1.1, enumLocal entry.2)).find? (·.1 = source) =
      (arrays.findIdx? (·.1 = source)).map fun i => (source, enumLocal (first + i)) := by
  induction arrays generalizing first with
  | nil => rfl
  | cons array arrays ih =>
    rw [List.zipIdx_cons, List.map_cons, List.find?_cons, List.findIdx?_cons]
    by_cases hsource : array.1 = source
    · simp [hsource]
    · simp [hsource, ih, Function.comp_def, Nat.add_assoc, Nat.add_comm 1]

theorem enumSteps_append (source : Value) (nullable : Bool) :
    enumSteps (arrays ++ [(source, nullable)]) =
      enumSteps arrays ++ [.enumNames (enumLocal arrays.length) source nullable] := by
  simp [enumSteps, List.zipIdx_append]

/-- An array is looked up, or it gets a step of its own. -/
theorem enumNames_stage (source : Value) (nullable : Bool) :
    (stage d generated arrays bindings).prelude.enumNames source nullable =
      ((enumNames arrays source nullable).2,
        (stage d generated (enumNames arrays source nullable).1 bindings).prelude) := by
  unfold Prelude.enumNames enumNames
  simp only [stage, find?_enumLocals, Nat.zero_add]
  cases arrays.findIdx? (·.1 = source) with
  | some i => rfl
  | none => simp [enumSteps_append, List.zipIdx_append, List.append_assoc]

/-- What is bound for a slot in the builder. -/
theorem encode_stage (s : Slot) {type : ValueType} (htype : s.type = some type) :
    (stage d generated arrays bindings).encode s.value type s.nullable =
      (((bind arrays s).2.value, (bind arrays s).2.encoding), stage d generated (bind arrays s).1 bindings) := by
  obtain ⟨kind, isArray⟩ := type
  unfold Builder.encode Prelude.encode bind
  rw [htype]
  cases isArray with
  | true =>
    by_cases hkind : kind = .enum
    · subst hkind
      simp only [enumNames_stage]
      rfl
    · cases kind <;> first | exact absurd rfl hkind | rfl
  | false => cases kind <;> rfl

theorem column_bind (s : Slot) : (bind arrays s).2.column = s.column :=
  (encodes_bind List.prefix_rfl).column

theorem bindColumn_stage (target : Target) :
    (stage d generated arrays bindings).bindColumn target.column target.value =
      (d.placeholder (bindings.length + 1),
        stage d generated (bind arrays target.slot).1 (bindings ++ [(bind arrays target.slot).2])) := by
  have hencode := @encode_stage d generated arrays bindings target.slot target.column.type rfl
  have hcolumn : (bind arrays target.slot).2.column = some target.column.name := column_bind _
  change (stage d generated arrays bindings).encode target.value target.column.type target.column.isNullable = _
    at hencode
  rw [Builder.bindColumn, hencode, ← hcolumn]
  simp [Builder.bind, stage]

theorem bindRaw_stage (s : Slot) (hcolumn : s.column = none) (hnullable : s.nullable = true) :
    (stage d generated arrays bindings).bindRaw s.value s.type =
      (d.placeholder (bindings.length + 1),
        stage d generated (bind arrays s).1 (bindings ++ [(bind arrays s).2])) := by
  have hbound : (bind arrays s).2.column = none := (column_bind s).trans hcolumn
  unfold Builder.bindRaw
  cases htype : s.type with
  | some type =>
    have hencode := @encode_stage d generated arrays bindings s type htype
    rw [hnullable] at hencode
    simp only [hencode, ← hbound]
    simp [Builder.bind, stage]
  | none =>
    have hplain : bind arrays s = (arrays, ⟨s.value, none, .plain⟩) := by
      rw [bind, htype, hcolumn]
    rw [hplain]
    simp [Builder.bind, stage]

end

/-- A part of writing statements that binds slots, the first of them with the number that its result is taken at. -/
def Builds (d : Dialect) (x : Build α) (bound : List Slot) (result : ℕ → α) : Prop :=
  ∀ generated arrays bindings, x.run (stage d generated arrays bindings) =
    .ok (result (bindings.length + 1),
      stage d generated (bindAll arrays bound).1 (bindings ++ (bindAll arrays bound).2))

/-- A part of writing statements that writes pieces. -/
abbrev Writes (d : Dialect) (x : Build String) (pieces : List Piece) : Prop :=
  Builds d x (slots pieces) fun index => renderFrom d index pieces

/-- A part of writing statements that writes groups of pieces. -/
abbrev WritesEach (d : Dialect) (x : Build (List String)) (groups : List (List Piece)) : Prop :=
  Builds d x (groups.flatMap slots) fun index => renderEach d index groups

theorem builds_pure (a : α) : Builds d (pure a) [] fun _ => a := by
  intro generated arrays bindings
  simp [bindAll]
  rfl

/-- Parts are written one after the other: the second one goes on with the numbers. -/
theorem Builds.bind {x : Build α} {f : α → Build β} {first second : List Slot} {a : ℕ → α} {b : ℕ → ℕ → β}
    (hx : Builds d x first a) (hf : ∀ index, Builds d (f (a index)) second (b index)) :
    Builds d (x >>= f) (first ++ second) fun index => b index (index + first.length) := by
  intro generated arrays bindings
  have hsecond := hf (bindings.length + 1) generated (bindAll arrays first).1 (bindings ++ (bindAll arrays first).2)
  rw [List.length_append, length_bindAll, Nat.add_right_comm] at hsecond
  rw [StateT.run_bind, hx generated arrays bindings, bindAll_append, ← List.append_assoc]
  exact hsecond

theorem Builds.map {x : Build α} {bound : List Slot} {a : ℕ → α} (hx : Builds d x bound a) (f : α → β) :
    Builds d (x >>= fun r => pure (f r)) bound fun index => f (a index) := by
  have hmapped := hx.bind (f := fun r => pure (f r)) (b := fun index _ => f (a index)) fun index => builds_pure _
  rwa [List.append_nil] at hmapped

theorem Builds.both {γ : Type} {x : Build α} {y : Build β} {first second : List Slot} {a : ℕ → α} {b : ℕ → β}
    (hx : Builds d x first a) (hy : Builds d y second b) (f : α → β → γ) :
    Builds d (x >>= fun r => y >>= fun r' => pure (f r r')) (first ++ second) fun index =>
      f (a index) (b (index + first.length)) :=
  hx.bind (f := fun r => y >>= fun r' => pure (f r r')) (b := fun index next => f (a index) (b next)) fun index =>
    hy.map (f (a index))

theorem Builds.congr {x : Build α} {bound bound' : List Slot} {a a' : ℕ → α} (hx : Builds d x bound a)
    (hbound : bound = bound') (ha : ∀ index, a index = a' index) : Builds d x bound' a' := by
  obtain rfl : a = a' := funext ha
  exact hbound ▸ hx

/-- Slots of columns are written as they are bound. -/
theorem builds_bindColumn (target : Target) :
    Builds d (modifyGet (·.bindColumn target.column target.value)) [target.slot] d.placeholder := by
  intro generated arrays bindings
  have hrun := @bindColumn_stage d generated arrays bindings target
  simp only [StateT.run_modifyGet, hrun, bindAll]
  rfl

theorem builds_bindRaw (s : Slot) (hcolumn : s.column = none) (hnullable : s.nullable = true) :
    Builds d (modifyGet (·.bindRaw s.value s.type)) [s] d.placeholder := by
  intro generated arrays bindings
  have hrun := @bindRaw_stage d generated arrays bindings s hcolumn hnullable
  simp only [StateT.run_modifyGet, hrun, bindAll]
  rfl

theorem writesEach_mapM {f : α → Build String} {group : α → List Piece} {xs : List α}
    (hf : ∀ x ∈ xs, Writes d (f x) (group x)) : WritesEach d (xs.mapM f) (xs.map group) := by
  induction xs with
  | nil => exact builds_pure []
  | cons x xs ih =>
    obtain ⟨hx, hxs⟩ := List.forall_mem_cons.1 hf
    rw [List.mapM_cons]
    exact hx.both (ih hxs) List.cons

theorem writesEach_gather {f : α → Build (List String)} {groups : α → List (List Piece)} {xs : List α}
    (hf : ∀ x ∈ xs, WritesEach d (f x) (groups x)) : WritesEach d (gather f xs) (xs.flatMap groups) := by
  induction xs with
  | nil => exact builds_pure []
  | cons x xs ih =>
    obtain ⟨hx, hxs⟩ := List.forall_mem_cons.1 hf
    exact (hx.both (ih hxs) (· ++ ·)).congr List.flatMap_append.symm fun index => (renderEach_append index _ _).symm

theorem comparisonText_eq (p : Param) (target : Target) (index : ℕ) :
    comparisonText d p target.column (d.placeholder index) =
      renderFrom d index (predicateOf p target).pieces := by
  apply String.toList_inj.1
  unfold comparisonText predicateOf comparisonOf
  split
  · simp [Predicate.pieces, renderFrom, Dialect.caseFold]
  · split <;> simp [Predicate.pieces, renderFrom]

theorem writes_predicate (p : Param) (target : Target) :
    Writes d (writePredicate d p target) (predicateOf p target).pieces := by
  refine ((builds_bindColumn target).map (comparisonText d p target.column)).congr ?_ (comparisonText_eq p target)
  rw [Predicate.slots_pieces, predicateOf]

theorem renderFrom_anyOf (predicates : List Predicate) (index : ℕ) :
    renderFrom d index (Condition.anyOf predicates).pieces =
      "(" ++ " OR ".intercalate (renderEach d index (predicates.map Predicate.pieces)) ++ ")" := by
  rw [Condition.pieces, List.cons_append, renderFrom, renderFrom_append, renderFrom_separated]
  simp [renderFrom, String.append_assoc]

theorem joinPredicates_eq (p : BoundParam) (index : ℕ) :
    joinPredicates p.param.isComposite
        (renderEach d index ((p.targets.map (predicateOf p.param)).map Predicate.pieces)) =
      renderEach d index ((conditionsOf p).map Condition.pieces) := by
  unfold joinPredicates conditionsOf
  cases hcomposite : p.param.isComposite with
  | true =>
    simp only [if_true, List.map_map]
    rfl
  | false =>
    simp only [Bool.false_eq_true, if_false]
    match p.targets with
    | [] => rfl
    | [target] => rfl
    | first :: second :: rest =>
      simp only [List.map_cons, renderEach, List.length_cons, renderFrom_anyOf, List.map_nil]
      rw [if_pos (by omega)]

theorem writesEach_conditions (p : BoundParam) :
    WritesEach d (writeConditions d p) ((conditionsOf p).map Condition.pieces) := by
  have hpredicates : WritesEach d (p.targets.mapM (writePredicate d p.param))
      ((p.targets.map (predicateOf p.param)).map Predicate.pieces) := by
    rw [List.map_map]
    exact writesEach_mapM fun target _ => writes_predicate p.param target
  unfold writeConditions
  split
  · next hempty =>
    have hnone : conditionsOf p = [] := by
      unfold conditionsOf
      simp [List.isEmpty_iff.1 hempty]
    rw [hnone]
    exact builds_pure []
  · refine (hpredicates.map (joinPredicates p.param.isComposite)).congr ?_ (joinPredicates_eq p)
    rw [slots_conditionsOf, List.map_map, List.flatMap_map, List.map_eq_flatMap]
    exact congrArg (List.flatMap · p.targets) (funext fun target => Predicate.slots_pieces _)

/-- A placeholder of raw SQL is written as it is bound, if it names a parameter. -/
theorem writes_segment {segment : Segment} (hknown : ∀ name path, segment = .placeholder name path →
    (op.param? name).isSome) : Writes d (writeSegment t op segment) (rawPieces t op ⟨[segment]⟩) := by
  cases segment with
  | text sql => exact (builds_pure sql).congr rfl fun index => by simp [rawPieces, renderFrom]
  | placeholder name path =>
    obtain ⟨p, hp⟩ := Option.isSome_iff_exists.1 (hknown name path rfl)
    have hbound := @builds_bindRaw d (rawSlot t op name path) rfl rfl
    have htype : (rawSlot t op name path).type = valueType? t p path := by rw [rawSlot, hp, Option.bind_some]
    rw [htype] at hbound
    simp only [writeSegment, hp]
    exact hbound.congr rfl fun index => by simp [rawPieces, renderFrom]

theorem writes_raw {segments : List Segment}
    (hknown : ∀ name path, .placeholder name path ∈ segments → (op.param? name).isSome) :
    Writes d (writeRaw t op segments) (rawPieces t op ⟨segments⟩) := by
  induction segments with
  | nil => exact builds_pure ""
  | cons segment segments ih =>
    have hfirst := @writes_segment d t op segment fun name path h => hknown name path (h ▸ List.mem_cons_self)
    have hrest := ih fun name path h => hknown name path (List.mem_cons_of_mem _ h)
    refine (hfirst.both hrest (· ++ ·)).congr (slots_append _ _).symm fun index => ?_
    exact (renderFrom_append index _ (rawPieces t op ⟨segments⟩)).symm

theorem isEmpty_eq_false {s : String} (h : s ≠ "") : s.isEmpty = false := by
  simpa using h

theorem joinRaw_empty (clause : String) (c : Conjunction) : joinRaw clause c "" = clause := by
  unfold joinRaw
  split
  · next hempty => exact (String.isEmpty_iff.1 hempty).symm
  · rfl

/-- The clause is left out, and the brackets of raw SQL are left out, where texts are empty; so it is with the pieces, as
no condition and no segment of raw SQL is without text. -/
theorem whereOf_joinRaw {f : Filter} (index : ℕ)
    (hconditions : f.conditions ≠ [] →
      " AND ".intercalate (renderEach d index (f.conditions.map Condition.pieces)) ≠ "")
    (hraw : f.raw ≠ [] → ∀ index, renderFrom d index f.raw ≠ "") :
    whereOf (joinRaw (" AND ".intercalate (renderEach d index (f.conditions.map Condition.pieces))) f.conjunction
      (renderFrom d (index + ((f.conditions.map Condition.pieces).flatMap slots).length) f.raw)) =
        renderFrom d index f.pieces := by
  obtain ⟨conditions, conjunction, raw⟩ := f
  dsimp only at hconditions hraw ⊢
  rw [← renderFrom_separated] at hconditions ⊢
  cases conditions with
  | nil =>
    cases raw with
    | nil => rfl
    | cons piece raw =>
      have htext := isEmpty_eq_false (hraw (List.cons_ne_nil _ _) index)
      have hclause : joinRaw (renderFrom d index (separated " AND " [])) conjunction
          (renderFrom d index (piece :: raw)) = renderFrom d index (piece :: raw) := rfl
      rw [List.map_nil, List.flatMap_nil, List.length_nil, Nat.add_zero, hclause, whereOf, htext]
      rfl
  | cons condition conditions =>
    have hjoined := isEmpty_eq_false (hconditions (List.cons_ne_nil _ _))
    cases raw with
    | nil =>
      rw [renderFrom, joinRaw_empty, whereOf, hjoined]
      rfl
    | cons piece raw =>
      have htext := fun index => isEmpty_eq_false (hraw (List.cons_ne_nil _ _) index)
      have hpieces : (⟨condition :: conditions, conjunction, piece :: raw⟩ : Filter).pieces =
          [.text " WHERE "] ++ separated " AND " ((condition :: conditions).map Condition.pieces) ++
            [.text (" " ++ conjunction.sql ++ " (")] ++ (piece :: raw) ++ [.text ")"] := by
        simp [Filter.pieces]
      rw [joinRaw, hjoined, htext, hpieces]
      generalize piece :: raw = raw
      simp [whereOf, renderFrom_append, renderFrom, String.append_assoc, List.flatMap_map]

theorem ne_empty_of_conditions {params : List BoundParam} (index : ℕ) (h : params.flatMap conditionsOf ≠ []) :
    " AND ".intercalate (renderEach d index ((params.flatMap conditionsOf).map Condition.pieces)) ≠ "" := by
  rw [← renderFrom_separated]
  refine renderFrom_ne_empty_of_slots fun hnone => h (conditions_eq_nil.2 ?_)
  rw [slots_joined, List.map_eq_nil_iff] at hnone
  exact List.flatMap_eq_nil_iff.1 hnone

theorem writesEach_params (params : List BoundParam) :
    WritesEach d (gather (writeConditions d) params) ((params.flatMap conditionsOf).map Condition.pieces) := by
  rw [List.map_flatMap]
  exact writesEach_gather fun p _ => writesEach_conditions p

theorem slots_filter (f : Filter) :
    ((f.conditions.map Condition.pieces).flatMap slots) ++ slots f.raw = slots f.pieces := by
  rw [Filter.slots_pieces]
  simp [List.flatMap_map, List.map_flatMap]

theorem writes_paramFilter (params : List BoundParam) :
    Writes d (writeWhere d t op params none) (paramFilter params).pieces := by
  refine ((writesEach_params params).map (whereOf <| " AND ".intercalate ·)).congr ?_ fun index => ?_
  · exact (List.append_nil _).symm.trans (slots_filter (paramFilter params))
  · have hclause := @whereOf_joinRaw d (paramFilter params) index (ne_empty_of_conditions index) (fun h => absurd rfl h)
    rw [paramFilter, renderFrom, joinRaw_empty] at hclause
    exact hclause

theorem name_mem_rawNames {raw : Raw} (hraw : rawExpression? op = some raw ∨ rawPredicate? op = some raw) {name : String}
    {path : List String} (h : .placeholder name path ∈ raw.segments) : name ∈ rawNames op := by
  refine List.mem_flatMap.2 ⟨raw, ?_, List.mem_filterMap.2 ⟨_, h, rfl⟩⟩
  rw [List.mem_append, Option.mem_toList, Option.mem_toList]
  exact hraw

/-- The WHERE clause is written as it is planned, if raw SQL names parameters only. -/
theorem writes_fullFilter (params : List BoundParam) (hknown : ∀ name ∈ rawNames op, (op.param? name).isSome) :
    Writes d (writeWhere d t op params (parsedPredicate? op)) (fullFilter t op params).pieces := by
  unfold parsedPredicate? fullFilter
  cases hpredicate : op.rawPredicate with
  | none => exact writes_paramFilter params
  | some predicate =>
    have hraw := @writes_raw d t op (Raw.ofSql predicate.sql).segments fun name path hmem =>
      hknown name (name_mem_rawNames (.inr (by rw [rawPredicate?, hpredicate, Option.map_some])) hmem)
    simp only [rawPredicate?, hpredicate, Option.map_some]
    have hboth := (writesEach_params params).both hraw fun conditions raw =>
      whereOf (joinRaw (" AND ".intercalate conditions) predicate.conjunction raw)
    refine hboth.congr ?_ fun index => ?_
    · exact slots_filter ⟨params.flatMap conditionsOf, predicate.conjunction, rawPieces t op (Raw.ofSql predicate.sql)⟩
    · exact @whereOf_joinRaw d ⟨params.flatMap conditionsOf, predicate.conjunction, rawPieces t op (Raw.ofSql predicate.sql)⟩
        index (ne_empty_of_conditions index) fun h _ => mt renderFrom_rawPieces_eq_empty.1 h

end EntitySql.Query
