import EntitySql.Name
import Mathlib

/-! Names derived from camel-case names. A derived name can be read back: an underscore stands before every letter that
was upper-case, and all other letters were lower-case. So no two camel-case names have the same derived name. -/
namespace EntitySql
variable {c : Char} {cs : List Char} {name other : String}

namespace Text

theorem isAlphanum_of_isLower (h : c.isLower = true) : c.isAlphanum = true := by
  simp [Char.isAlphanum, Char.isAlpha, h]

theorem toNat_lt_of_isAlphanum (h : c.isAlphanum = true) : c.toNat < 128 := by
  simp only [Char.isAlphanum, Char.isAlpha, Char.isUpper, Char.isLower, Char.isDigit, Bool.or_eq_true,
    Bool.and_eq_true, decide_eq_true_eq, UInt32.le_iff_toNat_le, ge_iff_le] at h
  have hval : c.toNat = c.val.toNat := rfl
  have hZ : 'Z'.val.toNat = 90 := rfl
  have hz : 'z'.val.toNat = 122 := rfl
  have h9 : '9'.val.toNat = 57 := rfl
  omega

/-- What is so for the first 128 characters, one by one, is so for every character of ASCII. -/
theorem forall_ascii {P : Char → Prop} (h : ∀ n < 128, P (Char.ofNat n)) (hc : c.toNat < 128) : P c := by
  rw [← Char.ofNat_toNat c]
  exact h c.toNat hc

theorem isUpper_ascii (h : c.toNat < 128) : isUpper c = c.isUpper :=
  forall_ascii (P := fun c => isUpper c = c.isUpper) (by decide +kernel) h

theorem upperOf_ascii (h : c.toNat < 128) : upperOf c = [c.toUpper] :=
  forall_ascii (P := fun c => upperOf c = [c.toUpper]) (by decide +kernel) h

theorem toUpper_ne_underscore (h : c.isAlphanum = true) : c.toUpper ≠ '_' :=
  forall_ascii (P := fun c => c.isAlphanum = true → c.toUpper ≠ '_') (by decide +kernel) (toNat_lt_of_isAlphanum h) h

end Text
open Text

/-- A lower-case letter, then letters and digits, all of ASCII. -/
def isCamelCase (name : String) : Bool :=
  match name.toList with
  | [] => false
  | c :: cs => c.isLower && cs.all Char.isAlphanum

/-- The characters of a name read back from those of its derived name. -/
def camelChars : List Char → List Char
  | '_' :: c :: cs => c :: camelChars cs
  | c :: cs => c.toLower :: camelChars cs
  | [] => []

theorem wordChars_of_isAlphanum (h : c.isAlphanum = true) :
    wordChars c = if c.isUpper then ['_', c] else [c.toUpper] := by
  have hascii := toNat_lt_of_isAlphanum h
  rw [wordChars, isUpper_ascii hascii, upperOf_ascii hascii]
  by_cases hupper : c.isUpper = true
  · rw [if_pos hupper, if_pos hupper, Char.toUpper_eq_of_not_isLower (by simp [Char.not_isLower_of_isUpper hupper])]
  · rw [if_neg hupper, if_neg hupper]

theorem camelChars_wordChars (h : c.isAlphanum = true) (cs : List Char) :
    camelChars (wordChars c ++ cs) = c :: camelChars cs := by
  rw [wordChars_of_isAlphanum h]
  by_cases hupper : c.isUpper = true
  · rw [if_pos hupper]
    rfl
  · have hlower : c.toUpper.toLower = c := by
      rw [Char.toLower_toUpper_eq_toLower, Char.toLower_eq_of_not_isUpper hupper]
    rw [if_neg hupper, List.singleton_append, camelChars, hlower]
    -- the character is not taken for the mark of an upper-case one
    exact fun _ _ hmark _ => toUpper_ne_underscore h hmark

theorem camelChars_flatMap (h : ∀ c ∈ cs, c.isAlphanum = true) : camelChars (cs.flatMap wordChars) = cs := by
  induction cs with
  | nil => rfl
  | cons c cs ih =>
    obtain ⟨hc, hcs⟩ := List.forall_mem_cons.1 h
    rw [List.flatMap_cons, camelChars_wordChars hc, ih hcs]

/-- The first character never starts a new word, and here it would not anyway. -/
theorem derivedChars_of_isLower (h : c.isLower = true) : derivedChars (c :: cs) = (c :: cs).flatMap wordChars := by
  have hupper : isUpper c = false := by
    rw [isUpper_ascii (toNat_lt_of_isAlphanum (isAlphanum_of_isLower h))]
    exact Bool.eq_false_iff.2 (Char.not_isUpper_of_isLower h)
  rw [derivedChars, List.flatMap_cons, wordChars, hupper]
  rfl

theorem camelChars_derivedName (h : isCamelCase name = true) : camelChars (derivedName name).toList = name.toList := by
  rw [derivedName, String.toList_ofList]
  unfold isCamelCase at h
  cases hname : name.toList with
  | nil =>
    rw [hname] at h
    cases h
  | cons c cs =>
    simp only [hname, Bool.and_eq_true, List.all_eq_true] at h
    obtain ⟨hc, hcs⟩ := h
    rw [derivedChars_of_isLower hc]
    exact camelChars_flatMap (List.forall_mem_cons.2 ⟨isAlphanum_of_isLower hc, hcs⟩)

theorem derivedName_inj (h : isCamelCase name = true) (h' : isCamelCase other = true) :
    derivedName name = derivedName other ↔ name = other := by
  refine ⟨fun heq => ?_, congrArg derivedName⟩
  rw [← String.toList_inj, ← camelChars_derivedName h, heq, camelChars_derivedName h']

/-- A name with an underscore, which is not camel-case, can meet one without. -/
example : derivedName "user_id" = derivedName "userId" ∧ derivedName "userId" ≠ derivedName "userID" := by decide

end EntitySql
