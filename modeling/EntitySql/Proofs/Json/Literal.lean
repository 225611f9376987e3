import EntitySql.Json.Read
import EntitySql.Json.Write
import EntitySql.Proofs.Text.Runs

/-! Reading written strings and integers back. A character of a string is written as one part, which stands for it; the
digits of an integer make its significand, if that has 64 bits. -/
namespace EntitySql.Json
open Text (ne_of_isDigit isDigit_of_mem_toString takeWhile_digits dropWhile_digits)
variable {rest : List Char}

theorem hexUnit?_low : ∀ n < 32, hexUnit? '0' '0' (hexDigit (n / 16)) (hexDigit n) = some n := by
  decide

theorem stringParts_plain {c : Char} (hquote : c ≠ '"') (hslash : c ≠ '\\') (hlow : ¬ c.toNat < 32)
    (rest : List Char) :
    stringParts (c :: rest) = (stringParts rest).map fun p => (.char c :: p.1, p.2) := by
  rw [stringParts]
  · simp only [hlow, hslash, decide_false, Bool.or_self, Bool.false_eq_true, if_false]
    cases stringParts rest <;> rfl
  · intro h
    exact absurd h hquote
  · intro a b c d rest' h
    exact absurd h hslash
  · intro e rest' h
    exact absurd h hslash

theorem stringParts_simple {e c : Char} (he : simpleEscape? e = some c) (rest : List Char) :
    stringParts ('\\' :: e :: rest) = (stringParts rest).map fun p => (.char c :: p.1, p.2) := by
  have hunit : e ≠ 'u' := by
    rintro rfl
    cases he
  rw [stringParts]
  · rw [he]
    cases stringParts rest <;> rfl
  · intro a b c d rest' h
    exact absurd h hunit

theorem stringParts_low {n : Nat} (hn : n < 32) (rest : List Char) :
    stringParts ('\\' :: 'u' :: '0' :: '0' :: hexDigit (n / 16) :: hexDigit n :: rest) =
      (stringParts rest).map fun p => (.unit n :: p.1, p.2) := by
  rw [stringParts, hexUnit?_low n hn]
  cases stringParts rest <;> rfl

theorem joinParts_unit {n : Nat} (hn : n < 0xd800) (parts : List StringPart) :
    joinParts (.unit n :: parts) = (joinParts parts).map (Char.ofNat n :: ·) := by
  rw [joinParts.eq_def]
  simp [hn]

/-- The three forms in which a character is written. -/
theorem escapedChar_cases (c : Char) :
    (∃ e, simpleEscape? e = some c ∧ escapedChar c = ['\\', e]) ∨
      (c.toNat < 32 ∧ escapedChar c = ['\\', 'u', '0', '0', hexDigit (c.toNat / 16), hexDigit c.toNat]) ∨
      (c ≠ '"' ∧ c ≠ '\\' ∧ ¬ c.toNat < 32 ∧ escapedChar c = [c]) := by
  have hnat (n : Nat) (h : c.toNat = n) : c = Char.ofNat n := by rw [← h, Char.ofNat_toNat]
  unfold escapedChar
  split_ifs with hquote hslash hline hreturn htab hback hfeed hlow
  · exact .inl ⟨'"', by rw [hquote]; rfl, rfl⟩
  · exact .inl ⟨'\\', by rw [hslash]; rfl, rfl⟩
  · exact .inl ⟨'n', by rw [hline]; rfl, rfl⟩
  · exact .inl ⟨'r', by rw [hreturn]; rfl, rfl⟩
  · exact .inl ⟨'t', by rw [htab]; rfl, rfl⟩
  · exact .inl ⟨'b', by rw [hnat 8 hback]; rfl, rfl⟩
  · exact .inl ⟨'f', by rw [hnat 12 hfeed]; rfl, rfl⟩
  · exact .inr (.inl ⟨hlow, rfl⟩)
  · exact .inr (.inr ⟨hquote, hslash, hlow, rfl⟩)

/-- A written character is read as one part, and this part stands for the character. -/
theorem part_escapedChar (c : Char) : ∃ part,
    (∀ rest, stringParts (escapedChar c ++ rest) = (stringParts rest).map fun p => (part :: p.1, p.2)) ∧
      ∀ parts, joinParts (part :: parts) = (joinParts parts).map (c :: ·) := by
  obtain ⟨e, he, hc⟩ | ⟨hlow, hc⟩ | ⟨hquote, hslash, hlow, hc⟩ := escapedChar_cases c
  · refine ⟨.char c, ?_, fun parts => by rw [joinParts]⟩
    intro rest
    rw [hc]
    exact stringParts_simple he rest
  · refine ⟨.unit c.toNat, ?_, ?_⟩
    · intro rest
      rw [hc]
      exact stringParts_low hlow rest
    · intro parts
      rw [joinParts_unit (by omega), Char.ofNat_toNat]
  · refine ⟨.char c, ?_, fun parts => by rw [joinParts]⟩
    intro rest
    rw [hc]
    exact stringParts_plain hquote hslash hlow rest

theorem parts_escaped (cs rest : List Char) :
    ∃ parts, stringParts (cs.flatMap escapedChar ++ '"' :: rest) = some (parts, rest) ∧
      joinParts parts = some cs := by
  induction cs with
  | nil => exact ⟨[], by rw [List.flatMap_nil, List.nil_append, stringParts], by rw [joinParts]⟩
  | cons c cs ih =>
    obtain ⟨parts, hparts, hjoin⟩ := ih
    obtain ⟨part, hread, hstands⟩ := part_escapedChar c
    refine ⟨part :: parts, ?_, ?_⟩
    · rw [List.flatMap_cons, List.append_assoc, hread, hparts]
      rfl
    · rw [hstands, hjoin]
      rfl

theorem stringChars_append (s : String) (rest : List Char) :
    stringChars s ++ rest = '"' :: (s.toList.flatMap escapedChar ++ '"' :: rest) := by
  simp [stringChars]

theorem leaf_stringChars (s : String) (rest : List Char) : leaf (stringChars s ++ rest) = (.str s, some rest) := by
  obtain ⟨parts, hparts, hjoin⟩ := parts_escaped s.toList rest
  rw [stringChars_append, leaf, hparts]
  simp only [hjoin, String.ofList_toList]

theorem key?_stringChars (s : String) (rest : List Char) : key? (stringChars s ++ rest) = some (some s, rest) := by
  obtain ⟨parts, hparts, hjoin⟩ := parts_escaped s.toList rest
  rw [stringChars_append, key?, hparts]
  simp [hjoin]

/-- The text ends, or it goes on as it does after a value in a list or an object. -/
def Closes (rest : List Char) : Prop :=
  ∀ c ∈ rest.head?, c = ',' ∨ c = ']' ∨ c = '\x7d'

theorem Closes.not_isDigit (h : Closes rest) : ∀ c ∈ rest.head?, c.isDigit = false := by
  intro c hc
  obtain rfl | rfl | rfl := h c hc <;> rfl

theorem head_digits {n : Nat} (hn : 0 < n) : ∃ c cs, (toString n).toList = c :: cs ∧ c ≠ '0' := by
  rw [Nat.toString_eq_repr, Nat.toList_repr]
  induction n using Nat.strongRecOn with
  | ind n ih =>
    rw [Nat.toDigits_eq_if (by decide)]
    by_cases hsmall : n < 10
    · have hdigit : ∀ d < 10, 0 < d → d.digitChar ≠ '0' := by decide
      rw [if_pos hsmall]
      exact ⟨n.digitChar, [], rfl, hdigit n hsmall hn⟩
    · rw [if_neg hsmall]
      obtain ⟨c, cs, hcs, hc⟩ := ih (n / 10) (by omega) (by omega)
      exact ⟨c, cs ++ [(n % 10).digitChar], by rw [hcs, List.cons_append], hc⟩

theorem exists_digits (n : Nat) : ∃ c cs, (toString n).toList = c :: cs ∧ c.isDigit := by
  have hne : (toString n).toList ≠ [] := by
    rw [Nat.toString_eq_repr, Nat.toList_repr]
    exact Nat.toDigits_ne_nil
  obtain ⟨c, cs, hcs⟩ := List.exists_cons_of_ne_nil hne
  exact ⟨c, cs, hcs, isDigit_of_mem_toString (n := n) (by rw [hcs]; exact List.mem_cons_self)⟩

theorem digits?_digits {n : Nat} (h : Closes rest) :
    digits? ((toString n).toList ++ rest) = some ((toString n).toList, rest) := by
  obtain ⟨c, cs, hcs, -⟩ := exists_digits n
  rw [digits?, takeWhile_digits h.not_isDigit, dropWhile_digits h.not_isDigit, hcs]

theorem wholeDigits?_digits {n : Nat} (h : Closes rest) :
    wholeDigits? ((toString n).toList ++ rest) = some ((toString n).toList, rest) := by
  by_cases hn : n = 0
  · have hrun : rest.takeWhile Char.isDigit = [] := by
      cases rest with
      | nil => rfl
      | cons c rest => simp [h.not_isDigit c rfl]
    rw [hn]
    change wholeDigits? ('0' :: rest) = some (['0'], rest)
    rw [wholeDigits?, hrun]
    rfl
  · obtain ⟨c, cs, hcs, hc⟩ := head_digits (Nat.pos_of_ne_zero hn)
    have hdigits := digits?_digits (n := n) h
    rw [hcs] at hdigits ⊢
    rw [List.cons_append, wholeDigits?]
    · exact hdigits
    · intro rest' h'
      exact hc (List.cons.inj h').1

theorem fraction?_closes (h : Closes rest) : fraction? rest = some (none, rest) := by
  cases rest with
  | nil => rfl
  | cons c rest => obtain rfl | rfl | rfl := h c rfl <;> rfl

theorem exponent?_closes (h : Closes rest) : exponent? rest = some (none, rest) := by
  cases rest with
  | nil => rfl
  | cons c rest => obtain rfl | rfl | rfl := h c rfl <;> rfl

theorem unsigned?_digits (negative : Bool) {n : Nat} (h : Closes rest) :
    unsigned? negative ((toString n).toList ++ rest) = some (ofParts negative (toString n).toList none none, rest) := by
  simp only [unsigned?, wholeDigits?_digits h, fraction?_closes h, exponent?_closes h, Option.bind_eq_bind,
    Option.bind_some, Option.pure_def]

/-- Digits are all appended to a significand if the number they make has 64 bits. -/
theorem appendDigits_fits {cs : List Char} {start : Nat} (h : Nat.ofDigitChars 10 cs start < UInt64.size) :
    appendDigits start (digitValues cs) = (Nat.ofDigitChars 10 cs start, 0) := by
  induction cs generalizing start with
  | nil => rfl
  | cons c cs ih =>
    rw [Nat.ofDigitChars_cons] at h ⊢
    have hgrows (m : Nat) : m ≤ Nat.ofDigitChars 10 cs m := by
      have hpower : m ≤ 10 ^ cs.length * m := Nat.le_mul_of_pos_left m (by positivity)
      rw [Nat.ofDigitChars_eq_ofDigitChars_zero]
      omega
    have hstep : start * 10 + (c.toNat - 48) = 10 * start + (c.toNat - '0'.toNat) := by
      rw [Nat.mul_comm]
      rfl
    change (if start * 10 + (c.toNat - 48) < UInt64.size then
      appendDigits (start * 10 + (c.toNat - 48)) (digitValues cs) else _) = _
    rw [hstep, if_pos (lt_of_le_of_lt (hgrows _) h), ih h]

theorem ofParts_digits {negative : Bool} {n : Nat} (hn : n < UInt64.size)
    (hsign : negative → 0 < n ∧ 2 * n ≤ UInt64.size) :
    ofParts negative (toString n).toList none none = .int (if negative then -(n : Int) else n) := by
  have hvalue : Nat.ofDigitChars 10 (toString n).toList 0 = n := by
    rw [Nat.toString_eq_repr, Nat.toList_repr]
    exact Nat.ofDigitChars_toDigits (by decide) (by decide)
  have hall : appendDigits 0 (digitValues (toString n).toList) = (n, 0) := by
    rw [appendDigits_fits (by rw [hvalue]; exact hn), hvalue]
  rw [ofParts, hall]
  cases negative with
  | false => simp
  | true => simp [hsign rfl]

/-- The integers of 64 bits, with or without sign. -/
def FitsWord (n : Int) : Prop :=
  -2 ^ 63 ≤ n ∧ n < UInt64.size

theorem leaf_digit {c : Char} (hc : c.isDigit) (cs : List Char) :
    leaf (c :: cs) = leaf.ofNumber (unsigned? false (c :: cs)) := by
  rw [leaf]
  · intro rest h
    exact ne_of_isDigit (e := '"') hc rfl (List.cons.inj h).1
  · intro rest h
    exact ne_of_isDigit (e := 'n') hc rfl (List.cons.inj h).1
  · intro rest h
    exact ne_of_isDigit (e := 't') hc rfl (List.cons.inj h).1
  · intro rest h
    exact ne_of_isDigit (e := 'f') hc rfl (List.cons.inj h).1
  · intro rest h
    exact ne_of_isDigit (e := '-') hc rfl (List.cons.inj h).1

theorem toList_negSucc (n : Nat) : (toString (Int.negSucc n)).toList = '-' :: (toString (n + 1)).toList := by
  change ("-" ++ toString (n + 1)).toList = _
  rw [String.toList_append]
  rfl

theorem leaf_int {n : Int} (hn : FitsWord n) (h : Closes rest) :
    leaf ((toString n).toList ++ rest) = (.int n, some rest) := by
  obtain ⟨hlow, hhigh⟩ := hn
  cases n with
  | ofNat n =>
    have hfits : n < UInt64.size := Int.ofNat_lt.1 hhigh
    change leaf ((toString n).toList ++ rest) = _
    obtain ⟨c, cs, hcs, hdigit⟩ := exists_digits n
    have hread := unsigned?_digits false (n := n) h
    rw [hcs] at hread ⊢
    rw [List.cons_append, leaf_digit hdigit, ← List.cons_append, hread, ← hcs, ofParts_digits hfits (by simp)]
    rfl
  | negSucc n =>
    have hfits : 2 * (n + 1) ≤ UInt64.size := by
      have hsize : UInt64.size = 2 * 2 ^ 63 := rfl
      rw [Int.negSucc_eq] at hlow
      omega
    rw [toList_negSucc, List.cons_append, leaf, unsigned?_digits true h,
      ofParts_digits (by omega) fun _ => ⟨by omega, hfits⟩]
    rfl

end EntitySql.Json
