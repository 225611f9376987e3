import EntitySql.Json.Decode
import EntitySql.Proofs.Json.Literal

/-! Reading a written value back. Integers of 64 bits and texts, in lists and objects that do not lie too deep, are read
as they were written, whatever the texts hold. -/
namespace EntitySql.Json
open Text (ne_of_isDigit)
variable {depth steps : Nat} {x : Json} {rest : List Char}

/-- The values of which a text keeps all: no fractions, and no more than `depth` lists and objects in one another. -/
inductive Exact : (depth : Nat) → Json → Prop where
  | null {depth : Nat} : Exact depth .null
  | bool {depth : Nat} (b : Bool) : Exact depth (.bool b)
  | int {depth : Nat} {n : Int} (h : FitsWord n) : Exact depth (.int n)
  | str {depth : Nat} (s : String) : Exact depth (.str s)
  | arr {depth : Nat} {items : List Json} (h : ∀ x ∈ items, Exact depth x) : Exact (depth + 1) (.arr items)
  | obj {depth : Nat} {members : List (String × Json)} (h : ∀ m ∈ members, Exact depth m.2) :
    Exact (depth + 1) (.obj members)

theorem skipSpace_cons {c : Char} (h : isSpace c = false) (cs : List Char) : skipSpace (c :: cs) = c :: cs := by
  rw [skipSpace, List.dropWhile_cons, h]
  rfl

/-- A value that opens with none of the brackets. -/
theorem value_leaf {c : Char} {cs : List Char} (hspace : isSpace c = false) (hlist : c ≠ '[') (hobject : c ≠ '\x7b') :
    value (steps + 1) (c :: cs) = leaf (c :: cs) := by
  rw [value, skipSpace_cons hspace]
  split
  · next h => exact absurd (List.cons.inj h).1 hlist
  · next h => exact absurd (List.cons.inj h).1 hobject
  · rfl

/-- A value is read as it was written, whatever follows it. -/
def ReadBack (x : Json) : Prop :=
  ∀ steps rest, 2 * (compactChars x).length ≤ steps → Closes rest →
    value steps (compactChars x ++ rest) = (x, some rest)

/-- The first character of a written value. -/
def Opens (c : Char) : Prop :=
  isSpace c = false ∧ c ≠ ']'

theorem opens_digit {c : Char} (h : c.isDigit) : Opens c := by
  have hne {e : Char} (he : e.isDigit = false) : c ≠ e := ne_of_isDigit h he
  refine ⟨?_, hne rfl⟩
  simp [isSpace, hne (e := ' ') rfl, hne (e := '\n') rfl, hne (e := '\t') rfl, hne (e := '\r') rfl]

theorem opens_toString (n : Int) : ∃ c cs, (toString n).toList = c :: cs ∧ Opens c ∧ c ≠ '[' ∧ c ≠ '\x7b' := by
  cases n with
  | ofNat n =>
    obtain ⟨c, cs, hcs, hdigit⟩ := exists_digits n
    exact ⟨c, cs, hcs, opens_digit hdigit, ne_of_isDigit hdigit rfl, ne_of_isDigit hdigit rfl⟩
  | negSucc n => exact ⟨'-', _, toList_negSucc n, ⟨rfl, by decide⟩, by decide, by decide⟩

theorem opens_compactChars (h : Exact depth x) : ∃ c cs, compactChars x = c :: cs ∧ Opens c := by
  cases h with
  | null => exact ⟨'n', _, rfl, rfl, by decide⟩
  | bool b =>
    cases b with
    | false => exact ⟨'f', _, rfl, rfl, by decide⟩
    | true => exact ⟨'t', _, rfl, rfl, by decide⟩
  | @int _ n _ =>
    obtain ⟨c, cs, hcs, hc, -, -⟩ := opens_toString n
    exact ⟨c, cs, hcs, hc⟩
  | str s => exact ⟨'"', _, rfl, rfl, by decide⟩
  | arr h => exact ⟨'[', _, by rw [compactChars]; rfl, rfl, by decide⟩
  | obj h => exact ⟨'\x7b', _, by rw [compactChars]; rfl, rfl, by decide⟩

theorem items_compactItems {x : Json} {xs : List Json} (hxs : ∀ y ∈ x :: xs, ReadBack y)
    (hsteps : 2 * (compactItems (x :: xs)).length + 1 ≤ steps) :
    items steps (compactItems (x :: xs) ++ ']' :: rest) = (x :: xs, some rest) := by
  obtain ⟨steps, rfl⟩ : ∃ s, steps = s + 1 := ⟨steps - 1, by omega⟩
  obtain ⟨hx, hrest⟩ := List.forall_mem_cons.1 hxs
  induction xs generalizing x steps with
  | nil =>
    rw [compactItems] at hsteps ⊢
    rw [items, hx steps _ (by omega) (by simp [Closes])]
    simp only [skipSpace_cons (c := ']') rfl]
  | cons y ys ih =>
    rw [compactItems] at hsteps ⊢
    simp only [List.length_append, List.length_cons] at hsteps
    obtain ⟨hy, hys⟩ := List.forall_mem_cons.1 hrest
    -- the comma pays for the step to the next item
    obtain ⟨steps, rfl⟩ : ∃ s, steps = s + 1 := ⟨steps - 1, by omega⟩
    rw [List.append_assoc, List.cons_append, items, hx (steps + 1) _ (by omega) (by simp [Closes])]
    simp only [skipSpace_cons (c := ',') rfl]
    rw [ih hrest steps (by omega) hy hys]

theorem members_compactMembers {m : String × Json} {ms : List (String × Json)}
    (hms : ∀ m' ∈ m :: ms, ReadBack m'.2) (hsteps : 2 * (compactMembers (m :: ms)).length + 1 ≤ steps) :
    members steps (compactMembers (m :: ms) ++ '\x7d' :: rest) = (m :: ms, some rest) := by
  obtain ⟨key, x⟩ := m
  obtain ⟨steps, rfl⟩ : ∃ s, steps = s + 1 := ⟨steps - 1, by omega⟩
  obtain ⟨hx, hrest⟩ : ReadBack x ∧ ∀ m ∈ ms, ReadBack m.2 := List.forall_mem_cons.1 hms
  have hkey (key : String) (cs : List Char) : key? (skipSpace (stringChars key ++ cs)) = some (some key, cs) := by
    have hread := key?_stringChars key cs
    rw [stringChars_append] at hread ⊢
    rw [skipSpace_cons rfl, hread]
  induction ms generalizing key x steps with
  | nil =>
    rw [compactMembers] at hsteps ⊢
    simp only [List.length_append, List.length_cons] at hsteps
    rw [List.append_assoc, List.cons_append, members, hkey]
    simp only [skipSpace_cons (c := ':') rfl]
    rw [hx steps _ (by omega) (by simp [Closes])]
    simp only [skipSpace_cons (c := '\x7d') rfl]
    rfl
  | cons m ms ih =>
    rw [compactMembers] at hsteps ⊢
    simp only [List.length_append, List.length_cons] at hsteps
    obtain ⟨key', y⟩ := m
    obtain ⟨hy, hys⟩ : ReadBack y ∧ ∀ m ∈ ms, ReadBack m.2 := List.forall_mem_cons.1 hrest
    obtain ⟨steps, rfl⟩ : ∃ s, steps = s + 1 := ⟨steps - 1, by omega⟩
    rw [List.append_assoc, List.append_assoc, List.cons_append, List.cons_append, members, hkey]
    simp only [skipSpace_cons (c := ':') rfl]
    rw [hx (steps + 1) _ (by omega) (by simp [Closes])]
    simp only [skipSpace_cons (c := ',') rfl]
    rw [ih key' y hrest steps (by omega) hy hys]
    rfl

theorem readBack_leaf {c : Char} {cs : List Char} (hchars : compactChars x = c :: cs) (hopens : Opens c)
    (hlist : c ≠ '[') (hobject : c ≠ '\x7b')
    (hleaf : ∀ rest, Closes rest → leaf (compactChars x ++ rest) = (x, some rest)) : ReadBack x := by
  intro steps rest hsteps hrest
  have hread := hleaf rest hrest
  rw [hchars] at hsteps hread ⊢
  obtain ⟨steps, rfl⟩ : ∃ s, steps = s + 1 := ⟨steps - 1, by simp at hsteps; omega⟩
  rw [List.cons_append, value_leaf hopens.1 hlist hobject]
  exact hread

theorem readBack_arr {items : List Json} (hopens : ∀ x ∈ items, ∃ c cs, compactChars x = c :: cs ∧ Opens c)
    (h : ∀ x ∈ items, ReadBack x) : ReadBack (.arr items) := by
  intro steps rest hsteps hrest
  rw [compactChars, List.length_append, List.length_cons] at hsteps
  obtain ⟨steps, rfl⟩ : ∃ s, steps = s + 1 := ⟨steps - 1, by omega⟩
  rw [compactChars, List.append_assoc, List.cons_append, value, skipSpace_cons rfl]
  cases items with
  | nil => rfl
  | cons x xs =>
    have hitems : items steps (compactItems (x :: xs) ++ ']' :: rest) = (x :: xs, some rest) :=
      items_compactItems h (by simp at hsteps; omega)
    obtain ⟨c, cs, hcs, hspace, hclose⟩ := hopens x List.mem_cons_self
    obtain ⟨cs', hcs'⟩ : ∃ cs', compactItems (x :: xs) = c :: cs' := by
      cases xs with
      | nil => exact ⟨cs, by rw [compactItems, hcs]⟩
      | cons y ys => exact ⟨_, by rw [compactItems, hcs]; rfl⟩
    rw [hcs'] at hitems
    simp only [hcs', List.cons_append, List.nil_append, skipSpace_cons hspace] at hitems ⊢
    split
    · next h' => exact absurd (List.cons.inj h').1 hclose
    · rw [hitems]

theorem readBack_obj {members : List (String × Json)} (h : ∀ m ∈ members, ReadBack m.2) : ReadBack (.obj members) := by
  intro steps rest hsteps hrest
  rw [compactChars, List.length_append, List.length_cons] at hsteps
  obtain ⟨steps, rfl⟩ : ∃ s, steps = s + 1 := ⟨steps - 1, by omega⟩
  rw [compactChars, List.append_assoc, List.cons_append, value, skipSpace_cons rfl]
  cases members with
  | nil => rfl
  | cons m ms =>
    have hmembers : Json.members steps (compactMembers (m :: ms) ++ '\x7d' :: rest) = (m :: ms, some rest) :=
      members_compactMembers h (by simp at hsteps; omega)
    obtain ⟨cs, hcs⟩ : ∃ cs, compactMembers (m :: ms) = '"' :: cs := by
      cases ms with
      | nil => exact ⟨_, by rw [compactMembers]; rfl⟩
      | cons m' ms => exact ⟨_, by rw [compactMembers]; rfl⟩
    rw [hcs] at hmembers
    simp only [hcs, List.cons_append, List.nil_append, skipSpace_cons (c := '"') rfl] at hmembers ⊢
    split
    · next h' => cases (List.cons.inj h').1
    · rw [hmembers]

theorem readBack (h : Exact depth x) : ReadBack x := by
  induction h with
  | null => exact readBack_leaf rfl ⟨rfl, by decide⟩ (by decide) (by decide) fun rest _ => rfl
  | bool b =>
    cases b with
    | false => exact readBack_leaf rfl ⟨rfl, by decide⟩ (by decide) (by decide) fun rest _ => rfl
    | true => exact readBack_leaf rfl ⟨rfl, by decide⟩ (by decide) (by decide) fun rest _ => rfl
  | @int _ n h =>
    obtain ⟨c, cs, hcs, hc, hlist, hobject⟩ := opens_toString n
    exact readBack_leaf hcs hc hlist hobject fun rest hrest => leaf_int h hrest
  | str s => exact readBack_leaf rfl ⟨rfl, by decide⟩ (by decide) (by decide) fun rest _ => leaf_stringChars s rest
  | arr h ih => exact readBack_arr (fun x hx => opens_compactChars (h x hx)) ih
  | obj h ih => exact readBack_obj ih

theorem boundedItems_eq {limit : Nat} {xs : List Json} (h : ∀ x ∈ xs, bounded limit x = x) :
    boundedItems limit xs = xs := by
  induction xs with
  | nil => rfl
  | cons x xs ih =>
    obtain ⟨hx, hxs⟩ := List.forall_mem_cons.1 h
    rw [boundedItems, hx, ih hxs]

theorem boundedMembers_eq {limit : Nat} {ms : List (String × Json)} (h : ∀ m ∈ ms, bounded limit m.2 = m.2) :
    boundedMembers limit ms = ms := by
  induction ms with
  | nil => rfl
  | cons m ms ih =>
    obtain ⟨hm, hms⟩ := List.forall_mem_cons.1 h
    rw [boundedMembers, hm, ih hms]

/-- Values that are not too deep are kept as they are. -/
theorem bounded_eq (h : Exact depth x) {limit : Nat} (hlimit : depth ≤ limit) : bounded limit x = x := by
  induction h generalizing limit with
  | null => cases limit <;> rfl
  | bool b => cases limit <;> rfl
  | int h => cases limit <;> rfl
  | str s => cases limit <;> rfl
  | arr h ih =>
    obtain ⟨limit, rfl⟩ : ∃ l, limit = l + 1 := ⟨limit - 1, by omega⟩
    rw [bounded, boundedItems_eq fun x hx => ih x hx (by omega)]
  | obj h ih =>
    obtain ⟨limit, rfl⟩ : ∃ l, limit = l + 1 := ⟨limit - 1, by omega⟩
    rw [bounded, boundedMembers_eq fun m hm => ih m hm (by omega)]

theorem ofText_compact (h : Exact depth x) : Document.ofText x.compact = ⟨x, false⟩ := by
  have hread := readBack h (2 * (compactChars x).length + 2) [] (by omega) (by simp [Closes])
  rw [List.append_nil] at hread
  rw [Document.ofText, compact, String.toList_ofList, String.length_ofList, hread]
  rfl

/-- Decoding the text of a value decodes the value. -/
theorem decodeText_compact {α : Type} (h : Exact depth x) (hdepth : depth ≤ maxNesting) (decode : Decoder α) :
    decodeText x.compact decode = decode x := by
  rw [decodeText, ofText_compact h, Document.decode, bounded_eq h hdepth]
  cases decode x <;> rfl

end EntitySql.Json
