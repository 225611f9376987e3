import EntitySql.Proofs.Query.Planned

/-! The binding contract: which values a statement binds, in which order, and to which columns. The order follows
from the parameters alone: raw expression, stored values, filters, raw predicate. -/
namespace EntitySql.Query
open Fragment (Raw)
variable {t : Table} {op : Operation}

/-- What a binding carries before it is encoded: a value and the physical column it belongs to. -/
abbrev Bound := Value × Option String

def placeholders (raw : Raw) : List (String × List String) :=
  raw.segments.filterMap fun
    | .placeholder name path => some (name, path)
    | .text _ => none

/-- A placeholder binds a parameter, or what its path leads to in it, and belongs to no column. -/
def rawBound : String × List String → Bound
  | (name, []) => (.param name, none)
  | (name, path) => (.field name (".".intercalate path), none)

def Target.bound (target : Target) : Bound :=
  (target.value, some target.column.name)

/-- The placeholders of the raw expression, which only one kind of select has. -/
def expressionBounds (op : Operation) : List Bound :=
  if op.kind = .selectRawExpression then
    op.returnExpression.toList.flatMap fun sql => (placeholders (Raw.ofSql sql)).map rawBound
  else []

/-- The values that an update stores: generated columns only if a single value is meant for them. -/
def storedBounds (t : Table) (op : Operation) : List Bound :=
  if op.kind = .update then
    (op.params.filter fun p => p.role ≠ .whereFilter).flatMap fun p =>
      ((targetsOf t p).filter fun target => !(p.isComposite && target.column.isGenerated)).map Target.bound
  else []

/-- The values that rows are compared with: all parameters, but of an update only the filters. -/
def filterBounds (t : Table) (op : Operation) : List Bound :=
  (op.params.filter fun p => op.kind ≠ .update || p.role = .whereFilter).flatMap fun p =>
    (targetsOf t p).map Target.bound

def predicateBounds (op : Operation) : List Bound :=
  op.rawPredicate.toList.flatMap fun predicate => (placeholders (Raw.ofSql predicate.sql)).map rawBound

/-- All that a statement binds, in order. -/
def contract (t : Table) (op : Operation) : List Bound :=
  expressionBounds op ++ storedBounds t op ++ filterBounds t op ++ predicateBounds op

def Slot.bound (s : Slot) : Bound :=
  (s.value, s.column)

theorem bound_rawSlot (name : String) (path : List String) :
    (rawSlot t op name path).bound = rawBound (name, path) := by
  cases path with
  | nil => rfl
  | cons field path => rfl

/-- Raw SQL has one slot for each placeholder. -/
theorem slots_rawPieces (raw : Raw) :
    slots (rawPieces t op raw) =
      (placeholders raw).map fun placeholder => rawSlot t op placeholder.1 placeholder.2 := by
  unfold rawPieces placeholders
  induction raw.segments with
  | nil => rfl
  | cons segment segments ih =>
    cases segment with
    | text sql => exact ih
    | placeholder name path =>
      rw [List.map_cons, List.filterMap_cons, slots_slot, ih]
      rfl

theorem bounds_rawPieces (raw : Raw) :
    (slots (rawPieces t op raw)).map Slot.bound = (placeholders raw).map rawBound := by
  rw [slots_rawPieces, List.map_map]
  exact List.map_congr_left fun placeholder _ => bound_rawSlot placeholder.1 placeholder.2

theorem bounds_rawPredicate :
    ((rawPredicate? op).toList.flatMap fun raw => slots (rawPieces t op raw)).map Slot.bound =
      predicateBounds op := by
  unfold rawPredicate? predicateBounds
  cases op.rawPredicate with
  | none => rfl
  | some predicate => simp [bounds_rawPieces]

theorem bounds_fullFilter (params : List Param) :
    (slots (fullFilter t op (params.map (bound t))).pieces).map Slot.bound =
      (params.flatMap fun p => (targetsOf t p).map Target.bound) ++ predicateBounds op := by
  rw [slots_fullFilter, List.map_append, bounds_rawPredicate, List.map_map, List.flatMap_map, List.map_flatMap]
  rfl

theorem bounds_expression {selection : Selection} {row : RowShape}
    (h : selectionOf t op = .ok (selection, row)) : (slots selection.pieces).map Slot.bound = expressionBounds op := by
  unfold expressionBounds
  obtain ⟨hnone, names, rfl, -⟩ | ⟨raw, hsome, rfl⟩ := selection_cases h
  · rw [Selection.slots_columns]
    split
    · next hkind =>
      have hexpression : op.returnExpression = none := by simpa [rawExpression?, hkind] using hnone
      simp [hexpression]
    · rfl
  · unfold rawExpression? at hsome
    split at hsome
    · next hkind =>
      obtain ⟨sql, hsql, rfl⟩ := Option.map_eq_some_iff.1 hsome
      rw [if_pos hkind, hsql, Selection.pieces, bounds_rawPieces]
      simp
    · cases hsome

theorem bounds_assigned (hkind : op.kind = .update) :
    ((assignedTargets (valueParams (boundParams t op))).map fun target => target.slot.bound) =
      storedBounds t op := by
  rw [storedBounds, if_pos hkind, assignedTargets, valueParams, boundParams, List.filter_map, List.flatMap_map,
    List.map_flatMap]
  rfl

theorem filterBounds_eq (params : List Param)
    (h : params = op.params.filter fun p => op.kind ≠ .update || p.role = .whereFilter) :
    (slots (fullFilter t op (params.map (bound t))).pieces).map Slot.bound =
      filterBounds t op ++ predicateBounds op := by
  rw [bounds_fullFilter, filterBounds, h]

theorem Planned.bounds {p : Plan} (h : Planned t op p) (hkind : op.kind.isInsert = false) :
    p.generated = [] ∧ p.statement.slots.map Slot.bound = contract t op := by
  have hall : op.kind ≠ .update →
      (slots (fullFilter t op (boundParams t op)).pieces).map Slot.bound =
        filterBounds t op ++ predicateBounds op :=
    fun hupdate => filterBounds_eq op.params (by simp [hupdate])
  cases h with
  | insert hinsert =>
    rw [hkind] at hinsert
    cases hinsert
  | update hupdate =>
    refine ⟨rfl, ?_⟩
    have hnot : op.kind ≠ .selectRawExpression := by simp [hupdate]
    rw [Statement.slots_update, List.map_append, List.map_map, List.map_map, filterParams_boundParams,
      filterBounds_eq _ (by simp [hupdate]), contract, expressionBounds, if_neg hnot, List.nil_append,
      ← bounds_assigned hupdate, List.append_assoc]
    rfl
  | delete hdelete =>
    refine ⟨rfl, ?_⟩
    have hnot : op.kind ≠ .selectRawExpression := by simp [hdelete]
    have hupdate : op.kind ≠ .update := by simp [hdelete]
    rw [Statement.slots_delete, hall hupdate, contract, expressionBounds, storedBounds, if_neg hnot,
      if_neg hupdate]
    rfl
  | count hcount =>
    refine ⟨rfl, ?_⟩
    have hnot : op.kind ≠ .selectRawExpression := by rcases hcount with h | h <;> simp [h]
    have hupdate : op.kind ≠ .update := by rcases hcount with h | h <;> simp [h]
    rw [Statement.slots_count, hall hupdate, contract, expressionBounds, storedBounds, if_neg hnot,
      if_neg hupdate]
    rfl
  | select hselect hselection =>
    refine ⟨rfl, ?_⟩
    have hupdate : op.kind ≠ .update := fun he => by simp [he, OperationKind.isSelect] at hselect
    rw [Statement.slots_select, List.map_append, bounds_expression hselection, hall hupdate, contract,
      storedBounds, if_neg hupdate, List.append_nil, List.append_assoc]

theorem parameter?_rawBound (placeholder : String × List String) :
    (rawBound placeholder).1.parameter? = some placeholder.1 := by
  obtain ⟨name, path⟩ := placeholder
  cases path with
  | nil => rfl
  | cons field path => rfl

theorem supplied_of_mem_contract {b : Bound} (h : b ∈ contract t op) : b.1.parameter?.isSome := by
  have hraw : ∀ raw : Raw, b ∈ (placeholders raw).map rawBound → b.1.parameter?.isSome := by
    intro raw hb
    obtain ⟨placeholder, -, rfl⟩ := List.mem_map.1 hb
    rw [parameter?_rawBound]
    rfl
  have htarget : ∀ p : Param, ∀ target ∈ targetsOf t p, target.bound.1.parameter?.isSome := by
    intro p target hmem
    rw [Target.bound, (mem_targetsOf hmem).2]
    rfl
  simp only [contract, List.mem_append] at h
  obtain ((h | h) | h) | h := h
  · unfold expressionBounds at h
    split at h
    · obtain ⟨sql, -, hb⟩ := List.mem_flatMap.1 h
      exact hraw _ hb
    · cases h
  · unfold storedBounds at h
    split at h
    · obtain ⟨p, -, hb⟩ := List.mem_flatMap.1 h
      obtain ⟨target, hmem, rfl⟩ := List.mem_map.1 hb
      exact htarget p target (List.mem_filter.1 hmem).1
    · cases h
  · obtain ⟨p, -, hb⟩ := List.mem_flatMap.1 h
    obtain ⟨target, hmem, rfl⟩ := List.mem_map.1 hb
    exact htarget p target hmem
  · obtain ⟨predicate, -, hb⟩ := List.mem_flatMap.1 h
    exact hraw _ hb

theorem bound_mem_contract {p : Param} (hp : p ∈ op.params) (hscalar : p.isComposite = false) {target : Target}
    (htarget : target ∈ targetsOf t p) : target.bound ∈ contract t op := by
  simp only [contract, List.mem_append]
  by_cases hstored : op.kind = .update ∧ p.role ≠ .whereFilter
  · refine .inl (.inl (.inr ?_))
    rw [storedBounds, if_pos hstored.1]
    refine List.mem_flatMap.2 ⟨p, List.mem_filter.2 ⟨hp, by simpa using hstored.2⟩, ?_⟩
    exact List.mem_map_of_mem (List.mem_filter.2 ⟨htarget, by simp [hscalar]⟩)
  · refine .inl (.inr (List.mem_flatMap.2 ⟨p, List.mem_filter.2 ⟨hp, ?_⟩, List.mem_map_of_mem htarget⟩))
    by_cases hupdate : op.kind = .update
    · simpa [hupdate] using hstored
    · simp [hupdate]

theorem mem_placeholders {raw : Raw} {name : String} (h : name ∈ raw.parameterNames) :
    ∃ path, (name, path) ∈ placeholders raw := by
  obtain ⟨segment, hmem, hname⟩ := List.mem_filterMap.1 h
  cases segment with
  | text sql => cases hname
  | placeholder name' path =>
    cases hname
    exact ⟨path, List.mem_filterMap.2 ⟨_, hmem, rfl⟩⟩

theorem exists_raw_mem_contract {name : String} (h : name ∈ rawNames op) :
    ∃ b ∈ contract t op, b.1.parameter? = some name := by
  obtain ⟨raw, hraw, hname⟩ := List.mem_flatMap.1 h
  obtain ⟨path, hpath⟩ := mem_placeholders hname
  refine ⟨rawBound (name, path), ?_, parameter?_rawBound _⟩
  have hbound : rawBound (name, path) ∈ (placeholders raw).map rawBound := List.mem_map_of_mem hpath
  simp only [contract, List.mem_append]
  obtain hraw | hraw := List.mem_append.1 hraw
  · refine .inl (.inl (.inl ?_))
    unfold rawExpression? at hraw
    unfold expressionBounds
    split
    · next hkind =>
      rw [if_pos hkind] at hraw
      obtain ⟨sql, hsql, rfl⟩ := Option.map_eq_some_iff.1 (Option.mem_toList.1 hraw)
      exact List.mem_flatMap.2 ⟨sql, Option.mem_toList.2 hsql, hbound⟩
    · next hkind =>
      rw [if_neg hkind] at hraw
      cases hraw
  · refine .inr ?_
    obtain ⟨predicate, hpredicate, rfl⟩ := Option.map_eq_some_iff.1 (Option.mem_toList.1 hraw)
    exact List.mem_flatMap.2 ⟨predicate, Option.mem_toList.2 hpredicate, hbound⟩

theorem exists_mem_contract {p : Param} (hpresent : FieldsPresent t op p) (hp : p ∈ op.params)
    (hscalar : p.isComposite = false) : ∃ b ∈ contract t op, b.1.parameter? = some p.name := by
  obtain htargets | hraw := targetsOf_ne_nil hpresent hscalar
  · obtain ⟨target, htarget⟩ := List.exists_mem_of_ne_nil _ htargets
    exact ⟨target.bound, bound_mem_contract hp hscalar htarget, (mem_targetsOf htarget).2⟩
  · exact exists_raw_mem_contract hraw

/-- The bindings of a statement that is no insert, seen before they are encoded, are what the contract says, and
every parameter of one value is among them. -/
theorem bindings_eq_contract {d : Dialect} {compiled : CompiledOperation} (h : op.compile d t = .ok compiled)
    (hkind : op.kind.isInsert = false) :
    compiled.statement.bindings.map (fun b => (sourceOf compiled.prelude b.value, b.column)) = contract t op ∧
      (∀ p ∈ op.params, FieldsPresent t op p) ∧
      ∀ p ∈ op.params, p.isComposite = false → ∃ b ∈ contract t op, b.1.parameter? = some p.name := by
  obtain ⟨p, hplan, rfl⟩ := compile_eq_ok.1 h
  obtain ⟨hgenerated, hbounds⟩ := (planned_of_plan hplan).bounds hkind
  obtain ⟨-, hpresent⟩ := eq_of_resolveParams (resolved_of_plan hplan)
  refine ⟨?_, hpresent, fun p hp hscalar => exists_mem_contract (hpresent p hp) hp hscalar⟩
  have hsupplied : ∀ s ∈ p.statement.slots, s.value.parameter?.isSome := by
    intro s hs
    have hmem : s.bound ∈ contract t op := hbounds ▸ List.mem_map_of_mem hs
    exact supplied_of_mem_contract hmem
  rw [← hbounds]
  simp only [Plan.compile, hgenerated, List.nil_append]
  exact sourceOf_bindAll hsupplied (prefix_bindAll _)

/-- The array is bound twice, once for its column and once for the raw predicate. -/
theorem award_bindings : award.kind.isInsert = false ∧
    ∃ compiled, Operation.compile .postgres badges award = .ok compiled ∧
    compiled.statement.bindings.map (fun b => (sourceOf compiled.prelude b.value, b.column)) =
      [(.param "badges", some "BADGES"), (.param "id", some "ID"), (.param "limit", none),
        (.param "badges", none), (.param "limit", none)] := by
  obtain ⟨compiled, h⟩ := award_compiles
  have hcontract : contract badges award =
      [(.param "badges", some "BADGES"), (.param "id", some "ID"), (.param "limit", none),
        (.param "badges", none), (.param "limit", none)] := by
    cbv
  have hkind : award.kind.isInsert = false := rfl
  refine ⟨hkind, compiled, h, ?_⟩
  rw [← hcontract]
  exact (bindings_eq_contract h hkind).1

end EntitySql.Query
