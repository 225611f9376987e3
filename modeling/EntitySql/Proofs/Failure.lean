import Mathlib

/-! What a computation can fail with: the error of one of its steps. -/
namespace EntitySql
variable {ε α β : Type} {P Q : ε → Prop}

/-- A computation that fails with errors of one kind only, if it fails. -/
def FailsOnly (P : ε → Prop) (x : Except ε α) : Prop :=
  ∀ e, x = .error e → P e

theorem FailsOnly.mono {x : Except ε α} (h : FailsOnly P x) (hPQ : ∀ e, P e → Q e) : FailsOnly Q x :=
  fun e he => hPQ e (h e he)

theorem failsOnly_pure {a : α} : FailsOnly P (pure a) :=
  fun _ he => nomatch he

theorem failsOnly_throw {e : ε} (h : P e) : FailsOnly P (throw e : Except ε α) := by
  intro e' he
  cases he
  exact h

/-- The second step is taken only if the first one succeeds. -/
theorem FailsOnly.bind {x : Except ε α} {f : α → Except ε β} (hx : FailsOnly P x)
    (hf : ∀ a, x = .ok a → FailsOnly P (f a)) : FailsOnly P (x >>= f) := by
  cases x with
  | error e =>
    intro e' he
    cases he
    exact hx e rfl
  | ok a => exact hf a rfl

theorem failsOnly_mapM {f : α → Except ε β} {xs : List α} (hf : ∀ a ∈ xs, FailsOnly P (f a)) :
    FailsOnly P (xs.mapM f) := by
  induction xs with
  | nil => exact failsOnly_pure
  | cons x xs ih =>
    obtain ⟨hx, hxs⟩ := List.forall_mem_cons.1 hf
    rw [List.mapM_cons]
    exact hx.bind fun _ _ => (ih hxs).bind fun _ _ => failsOnly_pure

end EntitySql
