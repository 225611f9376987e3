import EntitySql.Proofs.Fragment.Parsed
import EntitySql.Proofs.Query.Slots

/-! The text of pieces, part by part. What follows is numbered on from the slots that stand before it. Only empty texts
leave no trace. -/
namespace EntitySql.Query
open Fragment (Raw)
variable {d : Dialect} {t : Table} {op : Operation}

theorem renderFrom_append (index : Nat) (a b : List Piece) :
    renderFrom d index (a ++ b) = renderFrom d index a ++ renderFrom d (index + (slots a).length) b := by
  induction a generalizing index with
  | nil => simp [renderFrom]
  | cons p a ih =>
    cases p with
    | slot slot => simp [renderFrom, ih, String.append_assoc, Nat.add_assoc, Nat.add_comm 1]
    | text | name | object | nullSafeEquals => simp [renderFrom, ih, String.append_assoc]

/-- What has no slots is the same anywhere in a statement. -/
theorem renderFrom_of_slots_nil {pieces : List Piece} (h : slots pieces = []) (index : Nat) :
    renderFrom d index pieces = renderFrom d 1 pieces := by
  induction pieces generalizing index with
  | nil => rfl
  | cons p pieces ih =>
    cases p with
    | slot slot => simp at h
    | text | name | object | nullSafeEquals => exact congrArg (_ ++ ·) (ih h index)

/-- The texts of groups of pieces, the slots numbered on from group to group. -/
def renderEach (d : Dialect) : Nat → List (List Piece) → List String
  | _, [] => []
  | index, group :: groups => renderFrom d index group :: renderEach d (index + (slots group).length) groups

theorem renderEach_append (index : Nat) (a b : List (List Piece)) :
    renderEach d index (a ++ b) = renderEach d index a ++ renderEach d (index + (a.flatMap slots).length) b := by
  induction a generalizing index with
  | nil => rfl
  | cons group a ih => simp [renderEach, ih, Nat.add_assoc]

theorem renderFrom_separated (index : Nat) (separator : String) (groups : List (List Piece)) :
    renderFrom d index (separated separator groups) = separator.intercalate (renderEach d index groups) := by
  unfold separated
  induction groups generalizing index with
  | nil => simp [renderFrom, renderEach]
  | cons group groups ih =>
    cases groups with
    | nil => simp [renderEach]
    | cons next rest =>
      rw [List.intercalate_cons_cons, renderFrom_append, renderFrom_append, ih]
      simp [renderFrom, renderEach, String.append_assoc]

section
variable {α : Type} (index : Nat)

theorem renderEach_names (name : α → String) (xs : List α) :
    renderEach d index (xs.map fun x => [.name (name x)]) = xs.map fun x => quoteName (name x) := by
  induction xs generalizing index with
  | nil => rfl
  | cons x xs ih => simp [renderEach, renderFrom, ih]

theorem renderEach_slots (slot : α → Slot) (xs : List α) :
    renderEach d index (xs.map fun x => [.slot (slot x)]) = (List.range' index xs.length).map d.placeholder := by
  induction xs generalizing index with
  | nil => rfl
  | cons x xs ih => simp [renderEach, renderFrom, ih, List.range'_succ]

end

section
variable {index : Nat} {pieces : List Piece}

theorem quoteName_ne_empty (name : String) : quoteName name ≠ "" := by
  intro h
  have hchars := congrArg String.toList h
  simp [quoteName, Text.quoted, Text.quotedChars] at hchars

theorem qualify_ne_empty (d : Dialect) (object : ObjectName) : d.qualify object ≠ "" := by
  unfold Dialect.qualify
  split
  · split
    · simp [quoteName_ne_empty]
    · exact quoteName_ne_empty _
  · exact quoteName_ne_empty _

/-- Only empty texts leave no trace in a statement. -/
theorem renderFrom_eq_empty : renderFrom d index pieces = "" ↔ ∀ piece ∈ pieces, piece = .text "" := by
  induction pieces generalizing index with
  | nil => simp [renderFrom]
  | cons piece pieces ih =>
    cases piece with
    | text sql => simp [renderFrom, ih]
    | name name => simp [renderFrom, quoteName_ne_empty]
    | object name => simp [renderFrom, qualify_ne_empty]
    | nullSafeEquals => cases d <;> simp [renderFrom, Dialect.nullSafeEquals]
    | slot slot => simp [renderFrom, Dialect.placeholder]

theorem renderFrom_ne_empty_of_slots (h : slots pieces ≠ []) : renderFrom d index pieces ≠ "" := by
  obtain ⟨s, hs⟩ := List.exists_mem_of_ne_nil _ h
  obtain ⟨piece, hpiece, hslot⟩ := List.mem_filterMap.1 hs
  intro hempty
  rw [renderFrom_eq_empty.1 hempty piece hpiece] at hslot
  cases hslot

/-- No text of raw SQL is empty. -/
theorem renderFrom_rawPieces_eq_empty {sql : String} :
    renderFrom d index (rawPieces t op (Raw.ofSql sql)) = "" ↔ rawPieces t op (Raw.ofSql sql) = [] := by
  refine ⟨fun hempty => List.eq_nil_iff_forall_not_mem.2 fun piece hpiece => ?_, fun hnil => by simp [hnil, renderFrom]⟩
  have htext := renderFrom_eq_empty.1 hempty piece hpiece
  obtain ⟨segment, hsegment, rfl⟩ := List.mem_map.1 hpiece
  cases segment with
  | text s => exact Fragment.text_ne_empty hsegment (Piece.text.inj htext)
  | placeholder name path => cases htext

end

end EntitySql.Query
