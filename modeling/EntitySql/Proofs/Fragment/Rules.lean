import EntitySql.Fragment.Token
import EntitySql.Proofs.Fragment.Scan
import EntitySql.Proofs.Text.Quoted
import EntitySql.Proofs.Text.Runs

/-! The rules of tokens, apart from the lexer. What the lexer takes off a source is spelled by the rule of its kind, and
no rule spells a longer text there; only a quote that nothing closes follows no rule, and takes all that is left. -/
namespace EntitySql.Fragment
open Text
variable {c mark : Char} {cs w inner name run : List Char} {path : List (List Char)} {kind : TokenKind}

/-- The rules of tokens: which texts are tokens of a kind. -/
inductive TokenKind.Matches : TokenKind → List Char → Prop where
  | stringLiteral {inner : List Char} (h : Doubled '\'' inner) : Matches .stringLiteral ('\'' :: inner ++ ['\''])
  | quotedIdentifier {inner : List Char} (h : Doubled '"' inner) : Matches .quotedIdentifier ('"' :: inner ++ ['"'])
  | cast : Matches .cast [':', ':']
  | placeholder {first : Char} {name : List Char} {path : List (List Char)} (hfirst : isNameStart first)
      (hname : ∀ c ∈ name, isNameChar c) (hpath : ∀ part ∈ path, part ≠ [] ∧ ∀ c ∈ part, isNameChar c) :
      Matches .placeholder (':' :: first :: name ++ pathChars path)
  | colon : Matches .colon [':']
  | text {run : List Char} (hne : run ≠ []) (hrun : ∀ c ∈ run, isPlain c) : Matches .text run

/-- A quote that nothing closes, with all that follows it: wherever a mark could close it another one stands after it. -/
inductive Unclosed : List Char → Prop where
  | intro {mark : Char} {rest : List Char} (hmark : mark = '\'' ∨ mark = '"')
      (h : ∀ inner tail, Doubled mark inner → rest = inner ++ mark :: tail → tail.head? = some mark) :
      Unclosed (mark :: rest)

/-- A mark that opens quoted lexemes of a kind. -/
structure Opens (mark : Char) (make : List Char → Lexeme) (kind : TokenKind) : Prop where
  mark_eq : mark = '\'' ∨ mark = '"'
  first_eq : ∀ cs, firstLexeme mark cs = quotedLexeme mark make cs
  chars_make : ∀ content, (make content).chars = quotedChars mark content
  kind_make : ∀ content, (make content).kind = kind
  kind_ne : kind ≠ .invalid ∧ kind ≠ .text
  spells : ∀ inner, Doubled mark inner → kind.Matches (mark :: inner ++ [mark])

theorem opens_literal : Opens '\'' .literal .stringLiteral :=
  ⟨.inl rfl, fun _ => rfl, fun _ => rfl, fun _ => rfl, by decide, fun _ => .stringLiteral⟩

theorem opens_quotedName : Opens '"' .quotedName .quotedIdentifier :=
  ⟨.inr rfl, fun _ => rfl, fun _ => rfl, fun _ => rfl, by decide, fun _ => .quotedIdentifier⟩

theorem isPlain_iff : isPlain c ↔ c ≠ '\'' ∧ c ≠ '"' ∧ c ≠ ':' := by
  simp [isPlain, and_assoc]

/-- What the first lexeme can be: quoted, begun by a colon, or plain. -/
theorem firstLexeme_cases {P : Lexeme × List Char → Prop}
    (hquoted : ∀ make kind, Opens c make kind → P (quotedLexeme c make cs))
    (hcolon : c = ':' → P (colonLexeme cs))
    (hplain : isPlain c → P (.plain (c :: cs.takeWhile isPlain), cs.dropWhile isPlain)) :
    P (firstLexeme c cs) := by
  unfold firstLexeme
  split
  · next hc =>
    subst hc
    exact hquoted _ _ opens_literal
  · next hliteral =>
    split
    · next hc =>
      subst hc
      exact hquoted _ _ opens_quotedName
    · next hname =>
      split
      · next hc => exact hcolon hc
      · next hc => exact hplain (isPlain_iff.2 ⟨hliteral, hname, hc⟩)

theorem kind_colonLexeme : (colonLexeme cs).1.kind ≠ .invalid ∧ (colonLexeme cs).1.kind ≠ .text := by
  unfold colonLexeme
  cases cs with
  | nil => exact ⟨TokenKind.noConfusion, TokenKind.noConfusion⟩
  | cons c cs =>
    dsimp only
    split
    · exact ⟨TokenKind.noConfusion, TokenKind.noConfusion⟩
    · split <;> exact ⟨TokenKind.noConfusion, TokenKind.noConfusion⟩

theorem matches_colonLexeme : (colonLexeme cs).1.kind.Matches (colonLexeme cs).1.chars := by
  unfold colonLexeme
  cases cs with
  | nil => exact .colon
  | cons c cs =>
    dsimp only
    split
    · exact .cast
    · split
      · next hstart => exact .placeholder hstart (fun d hd => List.mem_takeWhile_imp hd) (parts_readPath _)
      · exact .colon

/-- The first lexeme is spelled by the rule of its kind. -/
theorem matches_firstLexeme (h : (firstLexeme c cs).1.kind ≠ .invalid) :
    (firstLexeme c cs).1.kind.Matches (firstLexeme c cs).1.chars := by
  revert h
  refine firstLexeme_cases (P := fun p => p.1.kind ≠ .invalid → p.1.kind.Matches p.1.chars) ?_ ?_ ?_
  · intro make kind hopens h
    unfold quotedLexeme at h ⊢
    split
    · next content rest _ =>
      rw [hopens.kind_make, hopens.chars_make]
      exact hopens.spells _ (doubled_doubled content)
    · next hclose =>
      rw [hclose] at h
      exact absurd rfl h
  · exact fun _ _ => matches_colonLexeme
  · intro hc _
    exact .text (List.cons_ne_nil _ _) (List.forall_mem_cons.2 ⟨hc, fun d hd => List.mem_takeWhile_imp hd⟩)

theorem not_unclosed (hliteral : c ≠ '\'') (hname : c ≠ '"') : ¬Unclosed (c :: cs) := by
  rintro ⟨hmark, -⟩
  exact hmark.elim hliteral hname

/-- A first lexeme follows no rule if and only if its source is a quote that nothing closes; then it takes all of it. -/
theorem invalid_firstLexeme : ((firstLexeme c cs).1.kind = .invalid ↔ Unclosed (c :: cs)) ∧
    ((firstLexeme c cs).1.kind = .invalid → (firstLexeme c cs).2 = []) := by
  refine firstLexeme_cases (P := fun p => (p.1.kind = .invalid ↔ Unclosed (c :: cs)) ∧
    (p.1.kind = .invalid → p.2 = [])) ?_ ?_ ?_
  · intro make kind hopens
    unfold quotedLexeme
    split
    · next content rest hclose =>
      have hkind : (make content).kind ≠ .invalid := by
        rw [hopens.kind_make]
        exact hopens.kind_ne.1
      refine ⟨iff_of_false hkind ?_, fun h => absurd h hkind⟩
      rintro ⟨-, h⟩
      exact head_of_closed hclose (h _ rest (doubled_doubled content) (eq_of_closeQuoted hclose))
    · next hclose =>
      refine ⟨iff_of_true rfl (.intro hopens.mark_eq fun inner tail hinner hcs => ?_), fun _ => rfl⟩
      rw [hcs] at hclose
      exact hinner.head_of_closeQuoted hclose
  · rintro rfl
    exact ⟨iff_of_false kind_colonLexeme.1 (not_unclosed (by decide) (by decide)),
      fun h => absurd h kind_colonLexeme.1⟩
  · intro hplain
    obtain ⟨hliteral, hname, -⟩ := isPlain_iff.1 hplain
    exact ⟨iff_of_false TokenKind.noConfusion (not_unclosed hliteral hname), TokenKind.noConfusion⟩

/-- Plain text stops before what is not plain. -/
theorem head_of_plain (h : (firstLexeme c cs).1.kind = .text) :
    ∀ d ∈ (firstLexeme c cs).2.head?, isPlain d = false := by
  revert h
  refine firstLexeme_cases (P := fun p => p.1.kind = .text → ∀ d ∈ p.2.head?, isPlain d = false) ?_ ?_ ?_
  · intro make kind hopens h
    unfold quotedLexeme at h
    split at h
    · rw [hopens.kind_make] at h
      exact absurd h hopens.kind_ne.2
    · cases h
  · exact fun _ h => absurd h kind_colonLexeme.2
  · exact fun _ _ => head_dropWhile isPlain cs

theorem isPlain_of_kind (h : (firstLexeme c cs).1.kind = .text) : isPlain c := by
  have hspelled : (firstLexeme c cs).1.kind.Matches (firstLexeme c cs).1.chars :=
    matches_firstLexeme (by rw [h]; decide)
  have happend := congrArg List.head? (firstLexeme_append c cs)
  rw [h] at hspelled
  cases hspelled with
  | text hne hrun =>
    rw [List.head?_append_of_ne_nil _ hne] at happend
    exact hrun c (List.mem_of_mem_head? happend)

theorem length_le_takeWhile {p : Char → Bool} (hrun : ∀ c ∈ run, p c) (hinit : run <+: cs) :
    run.length ≤ (cs.takeWhile p).length := by
  obtain ⟨tail, rfl⟩ := hinit
  rw [List.takeWhile_append_of_pos hrun, List.length_append]
  exact Nat.le_add_right _ _

/-- No name and path that a text begins with are longer than those which are read. -/
theorem length_le_readPath (hname : ∀ c ∈ name, isNameChar c)
    (hpath : ∀ part ∈ path, part ≠ [] ∧ ∀ c ∈ part, isNameChar c) (hinit : name ++ pathChars path <+: cs) :
    (name ++ pathChars path).length ≤
      (cs.takeWhile isNameChar ++ pathChars (readPath (cs.dropWhile isNameChar)).1).length := by
  -- by the parts of the path: a name before a dot is read whole, and so is the dot with a part after it
  induction path generalizing name cs with
  | nil =>
    rw [pathChars, List.flatMap_nil, List.append_nil] at hinit ⊢
    exact (length_le_takeWhile hname hinit).trans (by simp)
  | cons part path ih =>
    obtain ⟨hpart, hparts⟩ := List.forall_mem_cons.1 hpath
    obtain ⟨tail, rfl⟩ := hinit
    obtain ⟨d, part, rfl⟩ := List.exists_cons_of_ne_nil hpart.1
    obtain ⟨hd, hpart⟩ := List.forall_mem_cons.1 hpart.2
    have hsource : name ++ pathChars ((d :: part) :: path) ++ tail =
        name ++ '.' :: d :: (part ++ pathChars path ++ tail) := by simp [pathChars]
    have hdot : ∀ e ∈ ('.' :: d :: (part ++ pathChars path ++ tail)).head?, isNameChar e = false := by
      intro e he
      cases he
      rfl
    have hdeeper := ih hpart hparts (List.prefix_append _ tail)
    rw [hsource, takeWhile_append_of_head hdot, dropWhile_append_of_head hdot, List.takeWhile_eq_self_iff.2 hname,
      List.dropWhile_eq_nil_iff.2 hname, List.nil_append, readPath, if_pos hd]
    simp only [pathChars, List.flatMap_cons, List.length_append, List.length_cons] at hdeeper ⊢
    omega

theorem length_le_colonLexeme (hfirst : isNameStart c) (hname : ∀ c ∈ name, isNameChar c)
    (hpath : ∀ part ∈ path, part ≠ [] ∧ ∀ c ∈ part, isNameChar c) (hinit : name ++ pathChars path <+: cs) :
    (':' :: c :: name ++ pathChars path).length ≤ (colonLexeme (c :: cs)).1.chars.length := by
  have hcolon : c ≠ ':' := ne_colon_of_isNameChar (isNameChar_of_isNameStart hfirst)
  have hread := length_le_readPath hname hpath hinit
  rw [colonLexeme, if_neg hcolon, if_pos hfirst, Lexeme.chars]
  simp only [List.length_append, List.length_cons] at hread ⊢
  omega

theorem length_le_quotedLexeme {make : List Char → Lexeme}
    (hchars : ∀ content, (make content).chars = quotedChars mark content) (h : Doubled mark inner)
    (hinit : inner ++ [mark] <+: cs) :
    (mark :: inner ++ [mark]).length ≤ (quotedLexeme mark make cs).1.chars.length := by
  obtain ⟨tail, rfl⟩ := hinit
  have hrest : (quotedLexeme mark make (inner ++ [mark] ++ tail)).2.length ≤ tail.length := by
    unfold quotedLexeme
    split
    · next content rest hclose =>
      rw [List.append_assoc] at hclose
      exact h.length_rest_le hclose
    · exact Nat.zero_le _
  have happend : (quotedLexeme mark make (inner ++ [mark] ++ tail)).1.chars ++
      (quotedLexeme mark make (inner ++ [mark] ++ tail)).2 = mark :: (inner ++ [mark] ++ tail) :=
    quotedLexeme_append hchars
  have hlength := congrArg List.length happend
  simp only [List.length_append, List.length_cons] at hlength ⊢
  omega

/-- No rule spells a longer text than the first lexeme. -/
theorem length_le_firstLexeme (h : kind.Matches w) (hinit : w <+: c :: cs) :
    w.length ≤ (firstLexeme c cs).1.chars.length := by
  cases h with
  | stringLiteral h =>
    obtain ⟨rfl, htail⟩ := List.cons_prefix_cons.1 hinit
    exact length_le_quotedLexeme (fun _ => rfl) h htail
  | quotedIdentifier h =>
    obtain ⟨rfl, htail⟩ := List.cons_prefix_cons.1 hinit
    exact length_le_quotedLexeme (fun _ => rfl) h htail
  | cast =>
    obtain ⟨rfl, tail, rfl⟩ := List.cons_prefix_cons.1 hinit
    exact Nat.le_refl 2
  | placeholder hfirst hname hpath =>
    obtain ⟨rfl, htail⟩ := List.cons_prefix_cons.1 hinit
    obtain ⟨d, ds, rfl⟩ := List.exists_cons_of_ne_nil (htail.ne_nil (by simp))
    obtain ⟨rfl, hrest⟩ := List.cons_prefix_cons.1 htail
    exact length_le_colonLexeme hfirst hname hpath hrest
  | colon => exact List.length_pos_iff.2 (chars_firstLexeme_ne_nil c cs)
  | text hne hrun =>
    obtain ⟨d, run, rfl⟩ := List.exists_cons_of_ne_nil hne
    obtain ⟨rfl, htail⟩ := List.cons_prefix_cons.1 hinit
    obtain ⟨hd, hrun⟩ := List.forall_mem_cons.1 hrun
    obtain ⟨hliteral, hname, hcolon⟩ := isPlain_iff.1 hd
    rw [firstLexeme, if_neg hliteral, if_neg hname, if_neg hcolon, Lexeme.chars, List.length_cons, List.length_cons]
    exact Nat.succ_le_succ (length_le_takeWhile hrun htail)

/-- The only kind that a text can be a token of, by its first two characters. -/
def kindOf : List Char → TokenKind
  | [] => .endOfInput
  | c :: cs =>
    if c = '\'' then .stringLiteral
    else if c = '"' then .quotedIdentifier
    else if c = ':' then if cs = [] then .colon else if cs.head? = some ':' then .cast else .placeholder
    else .text

theorem TokenKind.Matches.kind_eq (h : kind.Matches w) : kind = kindOf w := by
  cases h with
  | stringLiteral | quotedIdentifier | cast | colon => rfl
  | placeholder hfirst =>
    have hcolon := ne_colon_of_isNameChar (isNameChar_of_isNameStart hfirst)
    simp [kindOf, hcolon]
  | text hne hrun =>
    obtain ⟨d, run, rfl⟩ := List.exists_cons_of_ne_nil hne
    obtain ⟨hliteral, hname, hcolon⟩ := isPlain_iff.1 (hrun d List.mem_cons_self)
    rw [kindOf, if_neg hliteral, if_neg hname, if_neg hcolon]

end EntitySql.Fragment
