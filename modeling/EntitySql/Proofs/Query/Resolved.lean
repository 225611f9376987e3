import EntitySql.Proofs.Success
import EntitySql.Proofs.Query.Plan

/-! What the parameters of an operation resolve to. The targets of a parameter depend on the table and on the
parameter alone; what can fail is only their types and their presence. -/
namespace EntitySql

/-- No two columns have one field, so a field tells its column. -/
theorem Table.column?_eq_some {t : Table} {field : String} {column : Column} :
    t.column? field = some column ↔ column ∈ t.columns.toList ∧ column.field = field := by
  constructor
  · intro h
    exact ⟨List.mem_of_find?_eq_some h, by simpa using List.find?_some h⟩
  · rintro ⟨hcolumn, rfl⟩
    cases hfound : t.column? column.field with
    | none => simpa using List.find?_eq_none.1 hfound column hcolumn
    | some found =>
      have hfield : found.field = column.field := by simpa using List.find?_some hfound
      exact congrArg some
        (List.inj_on_of_nodup_map t.columns.nodup_fields (List.mem_of_find?_eq_some hfound) hcolumn hfield)

namespace Query
variable {t : Table} {op : Operation}

/-- The targets of a parameter, whatever the operation: the columns of the fields it is matched with, of the fields
of its structure that are not skipped, or all columns. -/
def targetsOf (t : Table) (p : Param) : List Target :=
  match p.type with
  | .scalar _ =>
    match p.targets with
    | [] => (t.column? (p.fieldAlias.getD p.name)).toList.map fun column => ⟨column, .param p.name⟩
    | fields => (fields.filterMap t.column?).map fun column => ⟨column, .param p.name⟩
  | .composite fields =>
    (fields.filter fun f => !f.skip).filterMap fun f =>
      (t.column? f.name).map fun column => ⟨column, .field p.name f.name⟩
  | .entity => t.columns.toList.map fun column => ⟨column, .field p.name column.field⟩

def bound (t : Table) (p : Param) : BoundParam :=
  ⟨p, targetsOf t p⟩

def boundParams (t : Table) (op : Operation) : List BoundParam :=
  op.params.map (bound t)

/-- The fields of a parameter that are no columns: only one that the parameter does not list itself, and only if
raw SQL names the parameter. -/
def FieldsPresent (t : Table) (op : Operation) (p : Param) : Prop :=
  match p.type with
  | .scalar _ =>
    (∀ field ∈ p.targets, (t.column? field).isSome) ∧
      (p.targets = [] → (t.column? (p.fieldAlias.getD p.name)).isSome ∨ p.name ∈ rawNames op)
  | .composite fields => ∀ f ∈ fields, f.skip = false → (t.column? f.name).isSome ∨ p.name ∈ rawNames op
  | .entity => True

section
variable {mayBeAbsent : Bool} {label field : String} {type : ValueType} {value : Value} {targets : List Target}

theorem eq_of_typedTarget {column : Column} {target : Target}
    (h : typedTarget t op label type value column = .ok target) : target = ⟨column, value⟩ := by
  unfold typedTarget at h
  split at h
  · exact (pure_eq_ok.1 h).symm
  · exact absurd h throw_ne_ok

theorem eq_of_fieldTargets (h : fieldTargets t op mayBeAbsent label type value field = .ok targets) :
    targets = (t.column? field).toList.map (fun column => ⟨column, value⟩) ∧
      ((t.column? field).isSome ∨ mayBeAbsent = true) := by
  unfold fieldTargets at h
  split at h
  · next column hcolumn =>
    obtain ⟨target, htarget, hpure⟩ := bind_eq_ok.1 h
    rw [hcolumn, ← pure_eq_ok.1 hpure, eq_of_typedTarget htarget]
    exact ⟨rfl, .inl rfl⟩
  · next hcolumn =>
    split at h
    · next habsent =>
      rw [hcolumn, ← pure_eq_ok.1 h]
      exact ⟨rfl, .inr habsent⟩
    · exact absurd h throw_ne_ok

theorem eq_of_joinTargets {α : Type} {f : α → Except CompileError (List Target)} {g : α → List Target}
    {P : α → Prop} {xs : List α} (hf : ∀ x ts, f x = .ok ts → ts = g x ∧ P x)
    (h : joinTargets f xs = .ok targets) : targets = xs.flatMap g ∧ ∀ x ∈ xs, P x := by
  induction xs generalizing targets with
  | nil =>
    rw [← pure_eq_ok.1 h]
    exact ⟨rfl, by simp⟩
  | cons x xs ih =>
    obtain ⟨first, hfirst, hrest⟩ := bind_eq_ok.1 h
    obtain ⟨rest, hrest, hpure⟩ := bind_eq_ok.1 hrest
    obtain ⟨hg, hx⟩ := hf x first hfirst
    obtain ⟨hgs, hxs⟩ := ih hrest
    rw [← pure_eq_ok.1 hpure, hg, hgs]
    exact ⟨rfl, List.forall_mem_cons.2 ⟨hx, hxs⟩⟩

end

/-- A parameter that resolves has the targets of its own, and its fields are present. -/
theorem eq_of_resolveTargets {p : Param} {targets : List Target} (h : resolveTargets t op p = .ok targets) :
    targets = targetsOf t p ∧ FieldsPresent t op p := by
  unfold resolveTargets at h
  unfold targetsOf FieldsPresent
  cases htype : p.type with
  | scalar type =>
    cases htargets : p.targets with
    | nil =>
      simp only [htype, htargets] at h
      obtain ⟨heq, hpresent⟩ := eq_of_fieldTargets h
      refine ⟨heq, by simp, fun _ => ?_⟩
      simpa using hpresent
    | cons field fields =>
      simp only [htype, htargets] at h
      obtain ⟨heq, hpresent⟩ := eq_of_joinTargets (fun _ _ => eq_of_fieldTargets) h
      refine ⟨?_, ?_, by simp⟩
      · rw [heq]
        dsimp only
        rw [List.filterMap_eq_flatMap_toList, List.map_flatMap]
      · intro field hfield
        simpa using hpresent field hfield
  | composite fields =>
    simp only [htype] at h
    obtain ⟨heq, hpresent⟩ := eq_of_joinTargets (fun _ _ => eq_of_fieldTargets) h
    refine ⟨?_, ?_⟩
    · rw [heq]
      dsimp only
      rw [List.filterMap_eq_flatMap_toList]
      refine congrArg (List.flatMap · _) (funext fun f => ?_)
      cases t.column? f.name <;> rfl
    · intro f hf hskip
      simpa using hpresent f (List.mem_filter.2 ⟨hf, by simp [hskip]⟩)
  | entity =>
    simp only [htype] at h
    exact ⟨(pure_eq_ok.1 h).symm, trivial⟩

theorem eq_of_resolveParam {p : Param} {b : BoundParam} (h : resolveParam t op p = .ok b) :
    b = bound t p ∧ FieldsPresent t op p := by
  obtain ⟨-, -, h⟩ := bind_eq_ok.1 h
  obtain ⟨targets, htargets, hpure⟩ := bind_eq_ok.1 h
  obtain ⟨heq, hpresent⟩ := eq_of_resolveTargets htargets
  rw [← pure_eq_ok.1 hpure, heq]
  exact ⟨rfl, hpresent⟩

/-- The parameters of an operation that resolves, each with its own targets, in their order. -/
theorem eq_of_resolveParams {params : List BoundParam} (h : resolveParams t op = .ok params) :
    params = boundParams t op ∧ ∀ p ∈ op.params, FieldsPresent t op p := by
  obtain ⟨-, -, h⟩ := bind_eq_ok.1 h
  obtain ⟨-, -, h⟩ := bind_eq_ok.1 h
  refine ⟨eq_map_of_mapM h fun p _ b hb => (eq_of_resolveParam hb).1, ?_⟩
  intro p hp
  obtain ⟨b, -, hb⟩ := exists_of_mapM h hp
  exact (eq_of_resolveParam hb).2

/-- The parameter that a value is taken from, if it is supplied and not computed before the statement. -/
def Value.parameter? : Value → Option String
  | .param name => some name
  | .field root _ => some root
  | .computed _ => none

theorem mem_targetsOf {p : Param} {target : Target} (h : target ∈ targetsOf t p) :
    target.column ∈ t.columns.toList ∧ target.value.parameter? = some p.name := by
  have hcolumn : ∀ {field : String} {column : Column}, t.column? field = some column →
      column ∈ t.columns.toList := List.mem_of_find?_eq_some
  unfold targetsOf at h
  cases htype : p.type with
  | scalar type =>
    cases htargets : p.targets with
    | nil =>
      simp only [htype, htargets] at h
      obtain ⟨column, hmem, rfl⟩ := List.mem_map.1 h
      exact ⟨hcolumn (Option.mem_toList.1 hmem), rfl⟩
    | cons field fields =>
      simp only [htype, htargets] at h
      obtain ⟨column, hmem, rfl⟩ := List.mem_map.1 h
      obtain ⟨field, -, hfield⟩ := List.mem_filterMap.1 hmem
      exact ⟨hcolumn hfield, rfl⟩
  | composite fields =>
    simp only [htype] at h
    obtain ⟨f, -, hmap⟩ := List.mem_filterMap.1 h
    obtain ⟨column, hfield, rfl⟩ := Option.map_eq_some_iff.1 hmap
    exact ⟨hcolumn hfield, rfl⟩
  | entity =>
    simp only [htype] at h
    obtain ⟨column, hmem, rfl⟩ := List.mem_map.1 h
    exact ⟨hmem, rfl⟩

theorem targetsOf_ne_nil {p : Param} (hpresent : FieldsPresent t op p) (hscalar : p.isComposite = false) :
    targetsOf t p ≠ [] ∨ p.name ∈ rawNames op := by
  unfold targetsOf
  unfold FieldsPresent at hpresent
  unfold Param.isComposite at hscalar
  cases htype : p.type with
  | scalar type =>
    rw [htype] at hpresent
    cases htargets : p.targets with
    | nil =>
      obtain hsome | hraw := hpresent.2 htargets
      · obtain ⟨column, hcolumn⟩ := Option.isSome_iff_exists.1 hsome
        exact .inl (by simp [hcolumn])
      · exact .inr hraw
    | cons field fields =>
      have hsome := hpresent.1 field (by simp [htargets])
      obtain ⟨column, hcolumn⟩ := Option.isSome_iff_exists.1 hsome
      exact .inl (by simp [hcolumn])
  | composite fields => simp [htype] at hscalar
  | entity => simp [htype] at hscalar

end Query
end EntitySql
