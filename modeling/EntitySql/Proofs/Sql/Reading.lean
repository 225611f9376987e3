import EntitySql.Proofs.Sql.Signs
import EntitySql.Proofs.Success

/-! What a condition says, its comparisons left open. It is read with the precedence of SQL: brackets first, then what
AND joins, then what OR joins. Main statement: operands joined by AND, and these joined by OR, are read as they were
joined. -/
namespace EntitySql.Sql

/-- What a condition is for a row: NULL makes it unknown. -/
inductive Truth where
  | no
  | unknown
  | yes
  deriving DecidableEq, Repr, Inhabited

namespace Truth

def and : Truth → Truth → Truth
  | yes, b => b
  | no, _ => no
  | unknown, no => no
  | unknown, _ => unknown

def or : Truth → Truth → Truth
  | no, b => b
  | yes, _ => yes
  | unknown, yes => yes
  | unknown, _ => unknown

def all (truths : List Truth) : Truth :=
  truths.foldr and yes

def any (truths : List Truth) : Truth :=
  truths.foldr or no

@[simp]
theorem and_yes (a : Truth) : a.and yes = a := by
  cases a <;> rfl

@[simp]
theorem or_no (a : Truth) : a.or no = a := by
  cases a <;> rfl

theorem and_assoc (a b c : Truth) : (a.and b).and c = a.and (b.and c) := by
  cases a <;> cases b <;> cases c <;> rfl

theorem all_append (a b : List Truth) : all (a ++ b) = (all a).and (all b) := by
  induction a with
  | nil => rfl
  | cons t a ih =>
    simp only [all, List.cons_append, List.foldr_cons] at ih ⊢
    rw [ih, and_assoc]

@[simp]
theorem all_singleton (a : Truth) : all [a] = a :=
  and_yes a

@[simp]
theorem any_singleton (a : Truth) : any [a] = a :=
  or_no a

end Truth

/-- What a connective makes of two truth values. -/
def Truth.join : Conjunction → Truth → Truth → Truth
  | .and => Truth.and
  | .or => Truth.or

/-- How many brackets are open after a sign. -/
def Sign.nested (depth : Nat) : Sign → Nat
  | opening => depth + 1
  | closing => depth - 1
  | _ => depth

/-- The parts of signs between the connectives of a kind that stand in no brackets. -/
def split (c : Conjunction) : Nat → List Sign → List (List Sign)
  | _, [] => [[]]
  | depth, s :: ss =>
    if depth = 0 ∧ s = .connective c then [] :: split c 0 ss
    else (split c (s.nested depth) ss).modifyHead (s :: ·)

/-- Whether signs close all brackets that they and signs before them have opened, and no further one. -/
def closes : Nat → List Sign → Bool
  | depth, [] => depth == 0
  | depth, .opening :: ss => closes (depth + 1) ss
  | 0, .closing :: _ => false
  | depth + 1, .closing :: ss => closes depth ss
  | depth, _ :: ss => closes depth ss

/-- What stands in a pair of brackets that holds all signs. -/
def inside? : List Sign → Option (List Sign)
  | .opening :: ss =>
    if ss.getLast? = some .closing ∧ closes 0 ss.dropLast then some ss.dropLast else none
  | _ => none

/-- Signs that are taken as one comparison. -/
def isAtom (ss : List Sign) : Bool :=
  ss ≠ [] && closes 0 ss && .broken ∉ ss

/-- What alternatives say, each of them all its operands; nothing if an operand says nothing. -/
def anyOf (alternatives : List (List (Option Truth))) : Option Truth :=
  (alternatives.mapM fun operands : List (Option Truth) => (operands.mapM id).map Truth.all).map Truth.any

theorem length_le_of_mem_split {c : Conjunction} {depth : Nat} {part ss : List Sign} (h : part ∈ split c depth ss) :
    part.length ≤ ss.length := by
  induction ss generalizing depth part with
  | nil =>
    rw [split, List.mem_singleton] at h
    simp [h]
  | cons s ss ih =>
    rw [split] at h
    split at h
    · obtain rfl | h := List.mem_cons.1 h
      · simp
      · exact (ih h).trans (by simp)
    · cases hparts : split c (s.nested depth) ss with
      | nil => simp [hparts] at h
      | cons first parts =>
        have hmem : ∀ p ∈ first :: parts, p.length ≤ ss.length := fun p hp => ih (by rwa [hparts])
        rw [hparts, List.modifyHead_cons] at h
        obtain rfl | h := List.mem_cons.1 h
        · simpa using hmem first List.mem_cons_self
        · exact (hmem part (List.mem_cons_of_mem _ h)).trans (by simp)

theorem length_lt_of_inside? {ss inner : List Sign} (h : inside? ss = some inner) : inner.length < ss.length := by
  unfold inside? at h
  split at h
  · split at h
    · cases h
      simp only [List.length_dropLast, List.length_cons]
      omega
    · cases h
  · cases h

/-- What a condition says if its comparisons say what `σ` tells; nothing if it is no condition. -/
def evaluate (σ : List Sign → Truth) (ss : List Sign) : Option Truth :=
  anyOf ((split .or 0 ss).attach.map fun ⟨alternative, _halternative⟩ =>
    (split .and 0 alternative).attach.map fun ⟨operand, _hoperand⟩ =>
      match _h : inside? operand with
      | some inner => evaluate σ inner
      | none => if isAtom operand then some (σ operand) else none)
termination_by ss.length
decreasing_by
  have hoperand := length_le_of_mem_split _hoperand
  exact (length_lt_of_inside? _h).trans_le (hoperand.trans (length_le_of_mem_split _halternative))

/-- What an operand says: what stands in its brackets, or its comparison. -/
def operandTruth (σ : List Sign → Truth) (operand : List Sign) : Option Truth :=
  match inside? operand with
  | some inner => evaluate σ inner
  | none => if isAtom operand then some (σ operand) else none

theorem evaluate_eq (σ : List Sign → Truth) (ss : List Sign) :
    evaluate σ ss =
      anyOf ((split .or 0 ss).map fun alternative => (split .and 0 alternative).map (operandTruth σ)) := by
  rw [evaluate, List.map_subtype, List.unattach_attach]
  intro alternative _
  dsimp only
  rw [List.map_subtype, List.unattach_attach]
  intro operand _
  cases hinside : inside? operand <;> simp [operandTruth, hinside]

/-- Signs that close their brackets, with a property of all signs that stand in none. -/
inductive Whole : (Sign → Prop) → List Sign → Prop where
  | nil {p : Sign → Prop} : Whole p []
  | sign {p : Sign → Prop} {s : Sign} (hs : p s) (hopening : s ≠ .opening) (hclosing : s ≠ .closing) : Whole p [s]
  | append {p : Sign → Prop} {a b : List Sign} (ha : Whole p a) (hb : Whole p b) : Whole p (a ++ b)
  | bracketed {p q : Sign → Prop} {ss : List Sign} (h : Whole q ss) : Whole p (.opening :: ss ++ [.closing])

section
variable {p q : Sign → Prop} {c : Conjunction} {ss : List Sign}

theorem Whole.mono (h : Whole p ss) (hpq : ∀ s, p s → q s) : Whole q ss := by
  induction h with
  | nil => exact .nil
  | sign hs hopening hclosing => exact .sign (hpq _ hs) hopening hclosing
  | append _ _ iha ihb => exact (iha hpq).append (ihb hpq)
  | bracketed h => exact h.bracketed

theorem Whole.closes_append (h : Whole p ss) (depth : Nat) (rest : List Sign) :
    closes depth (ss ++ rest) = closes depth rest := by
  induction h generalizing depth rest with
  | nil => rfl
  | @sign p s hs hopening hclosing => cases s <;> first | contradiction | simp [closes]
  | append _ _ iha ihb => rw [List.append_assoc, iha, ihb]
  | bracketed _ ih =>
    rw [List.append_assoc, List.cons_append, closes, ih, List.singleton_append, closes]

theorem Whole.closes (h : Whole p ss) : closes 0 ss := by
  have hend := h.closes_append 0 []
  rw [List.append_nil] at hend
  rw [hend]
  rfl

/-- No part ends within signs that close their brackets, but at a connective that stands in none. -/
theorem Whole.split_append (h : Whole p ss) {depth : Nat} (hp : depth = 0 → ∀ s, p s → s ≠ .connective c)
    (rest : List Sign) : split c depth (ss ++ rest) = (split c depth rest).modifyHead (ss ++ ·) := by
  -- the induction is over all depths: within brackets the depth is positive, and no sign splits there
  induction h generalizing depth rest with
  | nil => exact (congrFun List.modifyHead_id _).symm
  | @sign p s hs hopening hclosing =>
    have hstays : ¬(depth = 0 ∧ s = .connective c) := fun ⟨hdepth, hconnective⟩ => hp hdepth s hs hconnective
    have hnested : s.nested depth = depth := by cases s <;> first | contradiction | rfl
    rw [List.singleton_append, split, if_neg hstays, hnested]
    rfl
  | append _ _ iha ihb =>
    rw [List.append_assoc, iha hp, ihb hp, List.modifyHead_modifyHead]
    simp [Function.comp_def]
  | @bracketed p q ss _ ih =>
    rw [List.append_assoc, List.cons_append, split, if_neg (by simp), Sign.nested, ih (by simp), List.singleton_append,
      split, if_neg (by simp), Sign.nested, List.modifyHead_modifyHead, List.modifyHead_modifyHead]
    simp [Function.comp_def]

/-- A sign that is no connective. -/
def Sign.NotConnective (s : Sign) : Prop :=
  ∀ c, s ≠ .connective c

/-- Parts with a connective between them. -/
def joined (c : Conjunction) (parts : List (List Sign)) : List Sign :=
  List.intercalate [.connective c] parts

theorem mem_joined {parts : List (List Sign)} {s : Sign} (h : s ∈ joined c parts) :
    (∃ part ∈ parts, s ∈ part) ∨ s = .connective c := by
  unfold joined at h
  induction parts with
  | nil => simp at h
  | cons part parts ih =>
    cases parts with
    | nil => exact .inl ⟨part, by simp, by simpa using h⟩
    | cons next parts =>
      rw [List.intercalate_cons_cons, List.mem_append, List.mem_append, List.mem_singleton] at h
      obtain (h | h) | h := h
      · exact .inl ⟨part, by simp, h⟩
      · exact .inr h
      · obtain ⟨other, hother, hs⟩ | hs := ih h
        · exact .inl ⟨other, List.mem_cons_of_mem _ hother, hs⟩
        · exact .inr hs

theorem Whole.joined {parts : List (List Sign)} (hc : p (.connective c)) (h : ∀ part ∈ parts, Whole p part) :
    Whole p (joined c parts) := by
  unfold Sql.joined
  induction parts with
  | nil => exact .nil
  | cons part parts ih =>
    obtain ⟨hpart, hparts⟩ := List.forall_mem_cons.1 h
    cases parts with
    | nil => simpa using hpart
    | cons next parts =>
      rw [List.intercalate_cons_cons]
      exact (hpart.append (.sign hc (by simp) (by simp))).append (ih hparts)

theorem split_joined {parts : List (List Sign)} (hparts : parts ≠ [])
    (h : ∀ part ∈ parts, Whole (· ≠ .connective c) part) : split c 0 (joined c parts) = parts := by
  unfold joined
  induction parts with
  | nil => exact absurd rfl hparts
  | cons part parts ih =>
    obtain ⟨hpart, htail⟩ := List.forall_mem_cons.1 h
    cases parts with
    | nil =>
      have hend : split c 0 (part ++ []) = (split c 0 []).modifyHead (part ++ ·) :=
        hpart.split_append (fun _ s hs => hs) []
      simpa [split] using hend
    | cons next parts =>
      rw [List.intercalate_cons_cons, List.append_assoc, hpart.split_append fun _ s hs => hs, List.singleton_append,
        split, if_pos ⟨rfl, rfl⟩, ih (by simp) htail]
      simp

/-- Operands without a connective outside of brackets are read as they were joined. -/
theorem evaluate_joined (σ : List Sign → Truth) {alternatives : List (List (List Sign))} (hne : alternatives ≠ [])
    (h : ∀ operands ∈ alternatives, operands ≠ [] ∧ ∀ operand ∈ operands, Whole Sign.NotConnective operand) :
    evaluate σ (joined .or (alternatives.map (joined .and))) =
      anyOf (alternatives.map fun operands => operands.map (operandTruth σ)) := by
  have halternative : ∀ alternative ∈ alternatives.map (joined .and), Whole (· ≠ .connective .or) alternative := by
    intro alternative hmem
    obtain ⟨operands, hoperands, rfl⟩ := List.mem_map.1 hmem
    exact .joined (by simp) fun operand hoperand => ((h operands hoperands).2 operand hoperand).mono fun s hs => hs .or
  rw [evaluate_eq, split_joined (by simpa using hne) halternative, List.map_map]
  congr 1
  refine List.map_congr_left fun operands hoperands => ?_
  obtain ⟨hoperands, hwhole⟩ := h operands hoperands
  have hsplit := split_joined hoperands fun operand hoperand => (hwhole operand hoperand).mono fun s hs => hs .and
  rw [Function.comp_apply, hsplit]

theorem inside?_bracketed (h : Whole p ss) : inside? (.opening :: ss ++ [.closing]) = some ss := by
  have hdrop : (ss ++ [Sign.closing]).dropLast = ss := List.dropLast_concat
  rw [List.cons_append, inside?, if_pos ⟨by simp, by rw [hdrop]; exact h.closes⟩, hdrop]

theorem operandTruth_bracketed (h : Whole p ss) (σ : List Sign → Truth) :
    operandTruth σ (.opening :: ss ++ [.closing]) = evaluate σ ss := by
  rw [operandTruth, inside?_bracketed h]

end

theorem anyOf_some (truths : List (List Truth)) :
    anyOf (truths.map fun operands => operands.map some) = some (Truth.any (truths.map Truth.all)) := by
  have hoperands : ∀ operands : List Truth, operands.mapM some = some operands := by
    intro operands
    simpa using List.mapM_pure (m := Option) (l := operands) (f := id)
  have hall : truths.mapM (fun operands => some (Truth.all operands)) = some (truths.map Truth.all) :=
    List.mapM_pure
  simp [anyOf, List.mapM_map, Function.comp_def, hoperands, hall]

/-- Signs that are read as one operand, with what they say. -/
structure Operand (σ : List Sign → Truth) (ss : List Sign) (truth : Truth) : Prop where
  whole : Whole Sign.NotConnective ss
  sound : .broken ∉ ss
  means : operandTruth σ ss = some truth

section
variable {σ : List Sign → Truth} {ss : List Sign} {truth : Truth} {parts : List (List Sign)} {truths : List Truth}

/-- Signs without connectives that close their brackets are read as one comparison. -/
theorem Operand.comparison (hwhole : Whole Sign.NotConnective ss) (hsound : .broken ∉ ss)
    (hfirst : ∃ s ∈ ss.head?, s ≠ .opening) : Operand σ ss (σ ss) := by
  refine ⟨hwhole, hsound, ?_⟩
  obtain ⟨s, hs, hopening⟩ := hfirst
  cases ss with
  | nil => cases hs
  | cons first ss =>
    obtain rfl : first = s := by simpa using hs
    have hinside : inside? (first :: ss) = none := by cases first <;> first | contradiction | rfl
    simp [operandTruth, hinside, isAtom, hwhole.closes, hsound]

theorem operand_fragment : Operand σ [.fragment] (σ [.fragment]) :=
  .comparison (.sign (by simp [Sign.NotConnective]) (by simp) (by simp)) (by simp) ⟨.fragment, rfl, by simp⟩

theorem Operand.bracketed {p : Sign → Prop} (hwhole : Whole p ss) (hsound : .broken ∉ ss)
    (h : evaluate σ ss = some truth) : Operand σ (.opening :: ss ++ [.closing]) truth :=
  ⟨hwhole.bracketed, by simpa using hsound, by rw [operandTruth_bracketed hwhole, h]⟩

theorem map_eq_map_of_forall₂ {α β γ : Type} {f : α → γ} {g : β → γ} {xs : List α} {ys : List β}
    (h : List.Forall₂ (fun x y => f x = g y) xs ys) : xs.map f = ys.map g := by
  rw [← List.forall₂_eq_eq_eq, List.forall₂_map_left_iff, List.forall₂_map_right_iff]
  exact h

/-- Operands joined by AND, and these joined by OR, say what the connectives make of them. -/
theorem evaluate_alternatives {alternatives : List (List (List Sign))} {truths : List (List Truth)}
    (hne : alternatives ≠ []) (hparts : ∀ operands ∈ alternatives, operands ≠ [])
    (h : List.Forall₂ (List.Forall₂ (Operand σ)) alternatives truths) :
    evaluate σ (joined .or (alternatives.map (joined .and))) = some (Truth.any (truths.map Truth.all)) := by
  have hwhole : ∀ operands ∈ alternatives,
      operands ≠ [] ∧ ∀ operand ∈ operands, Whole Sign.NotConnective operand := by
    intro operands hmem
    refine ⟨hparts operands hmem, fun operand hoperand => ?_⟩
    obtain ⟨_, -, hoperands⟩ := exists_of_forall₂ h hmem
    obtain ⟨_, -, hread⟩ := exists_of_forall₂ hoperands hoperand
    exact hread.whole
  have hmeans : alternatives.map (fun operands => operands.map (operandTruth σ)) =
      truths.map fun operands => operands.map some :=
    map_eq_map_of_forall₂ (h.imp fun _ _ hoperands =>
      map_eq_map_of_forall₂ (hoperands.imp fun _ _ hread => hread.means))
  rw [evaluate_joined σ hne hwhole, hmeans, anyOf_some]

theorem joined_singleton (c : Conjunction) (part : List Sign) : joined c [part] = part := by
  simp [joined]

theorem joined_concat (c : Conjunction) (hne : parts ≠ []) (part : List Sign) :
    joined c (parts ++ [part]) = joined c parts ++ .connective c :: part := by
  unfold joined
  induction parts with
  | nil => exact absurd rfl hne
  | cons first parts ih =>
    cases parts with
    | nil => simp [List.intercalate_cons_cons]
    | cons next parts =>
      have htail := ih (by simp)
      rw [List.cons_append] at htail
      rw [List.cons_append, List.cons_append, List.intercalate_cons_cons, htail, List.intercalate_cons_cons]
      simp

theorem evaluate_any (hne : parts ≠ []) (h : List.Forall₂ (Operand σ) parts truths) :
    evaluate σ (joined .or parts) = some (Truth.any truths) := by
  have hsingle : List.Forall₂ (List.Forall₂ (Operand σ)) (parts.map fun part => [part])
      (truths.map fun truth => [truth]) := by
    rw [List.forall₂_map_left_iff, List.forall₂_map_right_iff]
    exact h.imp fun _ _ hread => .cons hread .nil
  have heval := evaluate_alternatives (by simpa using hne) (by simp) hsingle
  simpa [Function.comp_def, joined_singleton] using heval

theorem broken_notMem_joined {c : Conjunction} (h : List.Forall₂ (Operand σ) parts truths) :
    .broken ∉ joined c parts := by
  intro hmem
  obtain ⟨part, hpart, hbroken⟩ | hbroken := mem_joined hmem
  · obtain ⟨_, -, hread⟩ := exists_of_forall₂ h hpart
    exact hread.sound hbroken
  · cases hbroken

/-- Alternatives in brackets are one operand. -/
theorem Operand.any (hne : parts ≠ []) (h : List.Forall₂ (Operand σ) parts truths) :
    Operand σ (.opening :: joined .or parts ++ [.closing]) (Truth.any truths) := by
  have hwhole : Whole (fun _ => True) (joined .or parts) := by
    refine .joined trivial fun part hpart => ?_
    obtain ⟨_, -, hread⟩ := exists_of_forall₂ h hpart
    exact hread.whole.mono fun _ _ => trivial
  exact .bracketed hwhole (broken_notMem_joined h) (evaluate_any hne h)

theorem evaluate_all (hne : parts ≠ []) (h : List.Forall₂ (Operand σ) parts truths) :
    evaluate σ (joined .and parts) = some (Truth.all truths) := by
  have heval := evaluate_alternatives (by simp) (by simpa using hne) (.cons h .nil)
  simpa [joined_singleton] using heval

theorem evaluate_operand (h : Operand σ ss truth) : evaluate σ ss = some truth := by
  have heval := evaluate_all (by simp) (.cons h .nil)
  simpa [joined_singleton] using heval

/-- A further operand after conditions, joined to all of them. -/
theorem evaluate_join (c : Conjunction) (hne : parts ≠ []) (h : List.Forall₂ (Operand σ) parts truths)
    (hlast : Operand σ ss truth) :
    evaluate σ (joined .and parts ++ .connective c :: ss) = some (Truth.join c (Truth.all truths) truth) := by
  have hsingle : List.Forall₂ (Operand σ) [ss] [truth] := .cons hlast .nil
  -- by AND the operand is one more of the conditions, by OR it is an alternative to all of them
  cases c with
  | and =>
    have heval := evaluate_all (by simp) (List.rel_append h hsingle)
    rw [joined_concat .and hne, Truth.all_append, Truth.all_singleton] at heval
    exact heval
  | or =>
    have heval := evaluate_alternatives (by simp) (by simpa using hne) (.cons h (.cons hsingle .nil))
    rw [List.map_cons, List.map_cons, List.map_nil, ← List.singleton_append, joined_concat .or (by simp)] at heval
    simpa [joined_singleton, Truth.any, Truth.join] using heval

end

/-- The text of a connective between two conditions. -/
def separator (c : Conjunction) : List Char :=
  ' ' :: c.sql.toList ++ [' ']

theorem signs_separator (c : Conjunction) (rest : List Char) :
    signs (separator c ++ rest) = .connective c :: signs rest := by
  have hword : ∀ e ∈ c.sql.toList, isWordChar e := by
    cases c with
    | and => exact List.all_eq_true.1 (by decide)
    | or => exact List.all_eq_true.1 (by decide)
  have hsign : wordSign c.sql.toList = .connective c := by cases c <;> decide
  have hne : c.sql.toList ≠ [] := by cases c <;> decide
  have hbreaks : Breaks (' ' :: rest) := breaks_blank
  rw [separator, List.append_assoc, List.cons_append, signs_space, List.singleton_append,
    signs_word_append hword hne hbreaks, hsign, signs_space]

theorem breaks_separator (c : Conjunction) (rest : List Char) : Breaks (separator c ++ rest) :=
  breaks_blank

/-- Texts with a connective between them are read one by one. -/
theorem signs_intercalate {c : Conjunction} {texts : List (List Char)} (h : ∀ text ∈ texts, .broken ∉ signs text) :
    signs (List.intercalate (separator c) texts) = joined c (texts.map signs) := by
  unfold joined
  induction texts with
  | nil => simp
  | cons text texts ih =>
    obtain ⟨htext, htexts⟩ := List.forall_mem_cons.1 h
    cases texts with
    | nil => simp
    | cons next texts =>
      rw [List.intercalate_cons_cons, List.append_assoc, signs_append htext (breaks_separator c _), signs_separator,
        ih htexts]
      simp [List.intercalate_cons_cons]

end EntitySql.Sql
