import EntitySql.Ids.Layout
import Mathlib

/-! The layout of ids as arithmetic: the three fields stand side by side, and ids are ordered by their
milliseconds first and by their sequence numbers among equal milliseconds. -/
namespace EntitySql.Ids

theorem sequences_pos : 0 < sequences := by
  decide

theorem compose_eq {elapsed worker sequence : Nat} (hw : worker < workers) (hs : sequence < sequences) :
    compose elapsed worker sequence = elapsed * 2 ^ 22 + worker * 2 ^ 12 + sequence := by
  have hw' : worker < 2 ^ 10 := hw
  have hs' : sequence < 2 ^ 12 := hs
  have hlow : worker <<< 12 ||| sequence = worker * 2 ^ 12 + sequence := by
    rw [← Nat.shiftLeft_add_eq_or_of_lt hs', Nat.shiftLeft_eq]
  have hbound : worker * 2 ^ 12 + sequence < 2 ^ 22 := by omega
  calc
    compose elapsed worker sequence
        = elapsed <<< 22 ||| (worker <<< 12 ||| sequence) := Nat.or_assoc _ _ _
    _ = elapsed * 2 ^ 22 + (worker * 2 ^ 12 + sequence) := by
        rw [hlow, ← Nat.shiftLeft_add_eq_or_of_lt hbound, Nat.shiftLeft_eq]
    _ = elapsed * 2 ^ 22 + worker * 2 ^ 12 + sequence := (Nat.add_assoc _ _ _).symm

theorem compose_lt_of_elapsed_lt {e e' worker s s' : Nat} (hw : worker < workers) (hs : s < sequences)
    (hs' : s' < sequences) (h : e < e') : compose e worker s < compose e' worker s' := by
  have hbound : worker < 2 ^ 10 := hw
  have hnumber : s < 2 ^ 12 := hs
  rw [compose_eq hw hs, compose_eq hw hs']
  omega

theorem compose_le_iff {e worker s s' : Nat} (hw : worker < workers) (hs : s < sequences)
    (hs' : s' < sequences) : compose e worker s ≤ compose e worker s' ↔ s ≤ s' := by
  rw [compose_eq hw hs, compose_eq hw hs']
  omega

theorem compose_lt_iff {e worker s s' : Nat} (hw : worker < workers) (hs : s < sequences)
    (hs' : s' < sequences) : compose e worker s < compose e worker s' ↔ s < s' := by
  rw [compose_eq hw hs, compose_eq hw hs']
  omega

theorem compose_lt {e worker s : Nat} (he : e ≤ maxElapsed) (hw : worker < workers) (hs : s < sequences) :
    compose e worker s < 2 ^ 63 := by
  have helapsed : e ≤ 2 ^ 41 - 1 := he
  have hbound : worker < 2 ^ 10 := hw
  have hnumber : s < 2 ^ 12 := hs
  rw [compose_eq hw hs]
  omega

theorem fits_iff {now epoch : Int} : fits now epoch = true ↔ epoch ≤ now ∧ now - epoch ≤ maxElapsed := by
  simp only [fits, Bool.and_eq_true, decide_eq_true_eq]
  omega

theorem toNat_le_of_fits {now epoch : Int} (h : fits now epoch = true) : (now - epoch).toNat ≤ maxElapsed := by
  obtain ⟨hepoch, hmax⟩ := fits_iff.1 h
  omega

theorem toNat_lt_toNat {last now epoch : Int} (hepoch : epoch ≤ last) (h : last < now) :
    (last - epoch).toNat < (now - epoch).toNat := by
  omega

end EntitySql.Ids
