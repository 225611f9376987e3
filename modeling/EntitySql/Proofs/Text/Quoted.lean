import EntitySql.Dialect
import Mathlib

/-! Reading quoted texts back. A quoted text ends where its closing mark is followed by no other one, so what follows it
is told apart from it, and texts that are quoted alike are alike. -/
namespace EntitySql
namespace Text
variable {mark : Char}

theorem closeQuoted_doubled {rest : List Char} (body : List Char) (hrest : mark ∉ rest.head?) :
    closeQuoted mark (doubled mark body ++ mark :: rest) = some (body, rest) := by
  induction body with
  | nil =>
    cases rest with
    | nil => simp [doubled, closeQuoted]
    | cons c rest =>
      have hc : c ≠ mark := by simpa using hrest
      simp [doubled, closeQuoted, hc]
  | cons c body ih =>
    by_cases hc : c = mark
    · simp [doubled, closeQuoted, hc, ih]
    · -- the rest goes on with a further character, at least with the closing mark
      have hnext : ∃ e cs, doubled mark body ++ mark :: rest = e :: cs :=
        List.exists_cons_of_ne_nil (by simp)
      obtain ⟨e, cs, hcons⟩ := hnext
      rw [doubled, if_neg hc, List.cons_append, hcons, closeQuoted, if_pos hc, ← hcons, ih]
      rfl

/-- What may stand between two marks: characters other than the mark, and the mark written twice. -/
inductive Doubled (mark : Char) : List Char → Prop where
  | nil : Doubled mark []
  | pair {cs : List Char} (h : Doubled mark cs) : Doubled mark (mark :: mark :: cs)
  | other {c : Char} {cs : List Char} (hc : c ≠ mark) (h : Doubled mark cs) : Doubled mark (c :: cs)

theorem doubled_doubled (cs : List Char) : Doubled mark (doubled mark cs) := by
  induction cs with
  | nil => exact .nil
  | cons c cs ih =>
    rw [doubled]
    split
    · exact .pair ih
    · next hc => exact .other hc ih

theorem closeQuoted_cons {c : Char} {cs : List Char} (hc : c ≠ mark) :
    closeQuoted mark (c :: cs) = (closeQuoted mark cs).map fun p => (c :: p.1, p.2) := by
  cases cs with
  | nil => simp [closeQuoted, hc]
  | cons d cs => rw [closeQuoted, if_pos hc]

/-- The text in which every double mark is one mark. -/
def undoubled (mark : Char) : List Char → List Char
  | c :: d :: cs => if c = mark ∧ d = mark then mark :: undoubled mark cs else c :: undoubled mark (d :: cs)
  | cs => cs

theorem undoubled_doubled (cs : List Char) : undoubled mark (doubled mark cs) = cs := by
  induction cs with
  | nil => rfl
  | cons c cs ih =>
    rw [doubled]
    by_cases hc : c = mark
    · rw [if_pos hc, undoubled, if_pos ⟨rfl, rfl⟩, ih, hc]
    · rw [if_neg hc]
      cases hdoubled : doubled mark cs with
      | nil =>
        rw [← ih, hdoubled]
        rfl
      | cons d ds => rw [undoubled, if_neg fun h => hc h.1, ← hdoubled, ih]

section
variable {inner tail : List Char}

/-- Reading gets over doubled marks: the quoted text ends where one that begins after them does. -/
theorem Doubled.closeQuoted_append (h : Doubled mark inner) (cs : List Char) :
    ∃ front, closeQuoted mark (inner ++ cs) = (closeQuoted mark cs).map fun p => (front ++ p.1, p.2) := by
  induction h with
  | nil => exact ⟨[], by simp⟩
  | pair _ ih =>
    obtain ⟨front, hread⟩ := ih
    refine ⟨mark :: front, ?_⟩
    rw [List.cons_append, List.cons_append, closeQuoted, if_neg (by simp), if_pos rfl, hread, Option.map_map]
    rfl
  | @other c _ hc _ ih =>
    obtain ⟨front, hread⟩ := ih
    refine ⟨c :: front, ?_⟩
    rw [List.cons_append, closeQuoted_cons hc, hread, Option.map_map]
    rfl

/-- A text is read at least up to any mark that could close it. -/
theorem Doubled.length_rest_le {content rest : List Char} (h : Doubled mark inner)
    (hclose : closeQuoted mark (inner ++ mark :: tail) = some (content, rest)) : rest.length ≤ tail.length := by
  obtain ⟨front, hread⟩ := h.closeQuoted_append (mark :: tail)
  rw [hread] at hclose
  obtain ⟨⟨body, rest'⟩, hbody, he⟩ := Option.map_eq_some_iff.1 hclose
  cases he
  have hlength := congrArg List.length (eq_of_closeQuoted hbody)
  simp only [List.length_append, List.length_cons] at hlength ⊢
  omega

theorem Doubled.head_of_closeQuoted (h : Doubled mark inner)
    (hclose : closeQuoted mark (inner ++ mark :: tail) = none) : tail.head? = some mark := by
  by_contra hhead
  obtain ⟨front, hread⟩ := h.closeQuoted_append (mark :: tail)
  have hends : closeQuoted mark (mark :: tail) = some ([], tail) := closeQuoted_doubled [] hhead
  rw [hread, hends] at hclose
  cases hclose

end

/-- A text is closed by a mark that stands alone. -/
theorem head_of_closed {cs content rest : List Char} (h : closeQuoted mark cs = some (content, rest)) :
    mark ∉ rest.head? := by
  fun_induction closeQuoted mark cs generalizing content rest with
  | case1 => cases h
  | case2 =>
    cases h
    simp
  | case3 => cases h
  | case4 c d cs hc ih =>
    obtain ⟨⟨tail, rest'⟩, htail, he⟩ := Option.map_eq_some_iff.1 h
    cases he
    exact ih htail
  | case5 d cs hd ih =>
    obtain ⟨⟨tail, rest'⟩, htail, he⟩ := Option.map_eq_some_iff.1 h
    cases he
    exact ih htail
  | case6 c d cs hc hd =>
    cases h
    simpa using hd

/-- What follows a quoted text does not change how it is read. -/
theorem closeQuoted_append {cs content rest after : List Char} (h : closeQuoted mark cs = some (content, rest))
    (hafter : mark ∉ after.head?) : closeQuoted mark (cs ++ after) = some (content, rest ++ after) := by
  fun_induction closeQuoted mark cs generalizing content rest with
  | case1 => simp at h
  | case2 =>
    cases h
    simpa [doubled] using closeQuoted_doubled [] hafter
  | case3 => simp at h
  | case4 c d cs hc ih =>
    obtain ⟨⟨tail, rest'⟩, htail, he⟩ := Option.map_eq_some_iff.1 h
    cases he
    rw [List.cons_append, List.cons_append, closeQuoted, if_pos hc, ← List.cons_append, ih htail]
    rfl
  | case5 d cs hd ih =>
    obtain ⟨⟨tail, rest'⟩, htail, he⟩ := Option.map_eq_some_iff.1 h
    cases he
    rw [List.cons_append, List.cons_append, closeQuoted, if_neg hd, if_pos rfl, ih htail]
    rfl
  | case6 c d cs hc hd =>
    cases h
    rw [List.cons_append, List.cons_append, closeQuoted, if_neg hc, if_neg hd]

/-- Quoted texts that begin one text are the same, and so is what follows them. -/
theorem quotedChars_append_inj {a b x y : List Char} (hx : mark ∉ x.head?) (hy : mark ∉ y.head?)
    (h : quotedChars mark a ++ x = quotedChars mark b ++ y) : a = b ∧ x = y := by
  have htail : doubled mark a ++ mark :: x = doubled mark b ++ mark :: y := by
    simpa [quotedChars] using h
  have hread := congrArg (closeQuoted mark) htail
  rw [closeQuoted_doubled a hx, closeQuoted_doubled b hy] at hread
  simpa using hread

end Text

theorem toList_quoteName (name : String) : (quoteName name).toList = Text.quotedChars '"' name.toList := by
  rw [quoteName, Text.quoted, String.toList_ofList]

theorem quoteName_append_inj {a b : String} {x y : List Char} (hx : '"' ∉ x.head?) (hy : '"' ∉ y.head?)
    (h : (quoteName a).toList ++ x = (quoteName b).toList ++ y) : a = b ∧ x = y := by
  rw [toList_quoteName, toList_quoteName] at h
  obtain ⟨hname, hrest⟩ := Text.quotedChars_append_inj hx hy h
  exact ⟨String.toList_inj.1 hname, hrest⟩

theorem quoteName_inj {a b : String} : quoteName a = quoteName b ↔ a = b := by
  constructor
  · intro h
    have happend : (quoteName a).toList ++ [] = (quoteName b).toList ++ [] := by rw [h]
    exact (quoteName_append_inj (by simp) (by simp) happend).1
  · exact congrArg quoteName

/-- A dialect keeps all of a name apart, but for the namespace if it has none. -/
theorem Dialect.qualify_inj {d : Dialect} {a b : ObjectName} :
    d.qualify a = d.qualify b ↔ a.name = b.name ∧ (d.hasNamespaces → a.ns = b.ns) := by
  -- what stands before the end: the name, or the namespace with a dot and the name after it
  have hqualify : ∀ o : ObjectName, d.qualify o = (if d.hasNamespaces then o.ns else none).elim (quoteName o.name)
      fun ns => quoteName ns ++ "." ++ quoteName o.name := by
    intro o
    unfold Dialect.qualify
    cases o.ns <;> cases d.hasNamespaces <;> rfl
  have hdot : ∀ name : String, '"' ∉ ('.' :: (quoteName name).toList).head? := by simp
  have hsplit : ∀ ns name : String, (quoteName ns ++ "." ++ quoteName name).toList =
      (quoteName ns).toList ++ '.' :: (quoteName name).toList := by
    intro ns name
    simp
  cases hd : d.hasNamespaces with
  | false => simp [hqualify, hd, quoteName_inj]
  | true =>
    simp only [hqualify, hd, if_true, true_implies]
    constructor
    · intro h
      have hlist := congrArg String.toList h
      cases ha : a.ns with
      | none =>
        cases hb : b.ns with
        | none => simpa [ha, hb, quoteName_inj] using h
        | some ns =>
          simp only [ha, hb, hsplit, Option.elim_none, Option.elim_some] at hlist
          rw [← List.append_nil (quoteName a.name).toList] at hlist
          cases (quoteName_append_inj (by simp) (hdot _) hlist).2
      | some ns =>
        cases hb : b.ns with
        | none =>
          simp only [ha, hb, hsplit, Option.elim_none, Option.elim_some] at hlist
          rw [← List.append_nil (quoteName b.name).toList] at hlist
          cases (quoteName_append_inj (hdot _) (by simp) hlist).2
        | some ns' =>
          simp only [ha, hb, hsplit, Option.elim_some] at hlist
          obtain ⟨hns, hrest⟩ := quoteName_append_inj (hdot _) (hdot _) hlist
          have hname := quoteName_inj.1 (String.toList_inj.1 (List.cons.inj hrest).2)
          exact ⟨hname, congrArg some hns⟩
    · rintro ⟨hname, hns⟩
      rw [hname, hns]

end EntitySql
