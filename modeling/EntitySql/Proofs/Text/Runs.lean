import Mathlib

/-! Runs of characters. A run of characters with a property ends where the text after it begins with a character that
lacks the property; the digits of a number are such a run. -/
namespace EntitySql.Text
variable {p : Char → Bool} {run rest : List Char}

theorem takeWhile_append_of_head (h : ∀ c ∈ rest.head?, p c = false) :
    (run ++ rest).takeWhile p = run.takeWhile p := by
  induction run with
  | nil =>
    cases rest with
    | nil => rfl
    | cons c rest => simp [h c rfl]
  | cons c run ih => by_cases hc : p c <;> simp [hc, ih]

theorem dropWhile_append_of_head (h : ∀ c ∈ rest.head?, p c = false) :
    (run ++ rest).dropWhile p = run.dropWhile p ++ rest := by
  induction run with
  | nil =>
    cases rest with
    | nil => rfl
    | cons c rest => simp [h c rfl]
  | cons c run ih => by_cases hc : p c <;> simp [hc, ih]

theorem ne_of_isDigit {c e : Char} (hc : c.isDigit) (he : e.isDigit = false) : c ≠ e := by
  intro h
  rw [h, he] at hc
  cases hc

theorem isDigit_of_mem_toString {n : Nat} {c : Char} (h : c ∈ (toString n).toList) : c.isDigit := by
  rw [Nat.toString_eq_repr, Nat.toList_repr] at h
  exact Nat.isDigit_of_mem_toDigits (by decide) (by decide) h

theorem takeWhile_digits {n : Nat} (h : ∀ c ∈ rest.head?, c.isDigit = false) :
    ((toString n).toList ++ rest).takeWhile Char.isDigit = (toString n).toList := by
  rw [takeWhile_append_of_head h]
  exact List.takeWhile_eq_self_iff.2 fun c hc => isDigit_of_mem_toString hc

theorem dropWhile_digits {n : Nat} (h : ∀ c ∈ rest.head?, c.isDigit = false) :
    ((toString n).toList ++ rest).dropWhile Char.isDigit = rest := by
  have hall : (toString n).toList.dropWhile Char.isDigit = [] :=
    List.dropWhile_eq_nil_iff.2 fun c hc => isDigit_of_mem_toString hc
  rw [dropWhile_append_of_head h, hall, List.nil_append]

end EntitySql.Text
