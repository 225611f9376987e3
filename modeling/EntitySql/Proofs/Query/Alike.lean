import EntitySql.Fragment.Token
import EntitySql.Proofs.Fragment.Parsed
import EntitySql.Proofs.Query.Readable
import EntitySql.Proofs.Text.Quoted

/-! Statements that differ in their names only. Whatever the names are, the texts have the same tokens: a quoted name is
one token, and nothing that stands between names ends in a quote or runs on into one. -/
namespace EntitySql
namespace Fragment
variable {cs w : List Char} {R : String → String → Prop}

/-- Plain text is one lexeme up to the first quote or colon. -/
theorem lexemes_plain (hne : w ≠ []) (hw : ∀ c ∈ w, isPlain c) (hcs : ∀ c ∈ cs.head?, isPlain c = false) :
    lexemes (w ++ cs) = .plain w :: lexemes cs := by
  cases w with
  | nil => exact absurd rfl hne
  | cons c w =>
    obtain ⟨hc, hw⟩ := List.forall_mem_cons.1 hw
    have htake : w.takeWhile isPlain = w := List.takeWhile_eq_self_iff.2 hw
    have hdrop : w.dropWhile isPlain = [] := List.dropWhile_eq_nil_iff.2 hw
    have hmarks : c ≠ '\'' ∧ c ≠ '"' ∧ c ≠ ':' := by simpa [isPlain, and_assoc] using hc
    have hfirst : firstLexeme c (w ++ cs) = (.plain (c :: w), cs) := by
      rw [firstLexeme, if_neg hmarks.1, if_neg hmarks.2.1, if_neg hmarks.2.2, Text.takeWhile_append_of_head hcs,
        Text.dropWhile_append_of_head hcs, htake, hdrop, List.nil_append]
    rw [List.cons_append, lexemes, hfirst]

/-- A quoted name is one lexeme if no further quote follows it. -/
theorem lexemes_quoteName (name : String) (hcs : '"' ∉ cs.head?) :
    lexemes ((quoteName name).toList ++ cs) = .quotedName name.toList :: lexemes cs := by
  have hread := Text.closeQuoted_doubled name.toList hcs
  have htail : (quoteName name).toList ++ cs = '"' :: (Text.doubled '"' name.toList ++ '"' :: cs) := by
    rw [toList_quoteName, Text.quotedChars]
    simp
  have hfirst : firstLexeme '"' (Text.doubled '"' name.toList ++ '"' :: cs) = (.quotedName name.toList, cs) := by
    rw [firstLexeme, if_neg (by decide), if_pos rfl, quotedLexeme, hread]
  rw [htail, lexemes, hfirst]

/-- Lexemes that are the same, or two quoted names that belong together. -/
inductive Lexeme.Alike (R : String → String → Prop) : Lexeme → Lexeme → Prop where
  | same {x : Lexeme} (hkind : x.kind ≠ .quotedIdentifier) : Alike R x x
  | quotedName {a b : String} (h : R a b) : Alike R (.quotedName a.toList) (.quotedName b.toList)

/-- Tokens of one kind that have the same text, or are two quoted names that belong together. -/
structure Token.Alike (R : String → String → Prop) (x y : Token) : Prop where
  kind : x.kind = y.kind
  text : x.kind ≠ .quotedIdentifier → x.text = y.text
  name : x.kind = .quotedIdentifier → ∃ a b, R a b ∧ x.text = quoteName a ∧ y.text = quoteName b

theorem alike_tokensFrom {xs ys : List Lexeme} (h : List.Forall₂ (Lexeme.Alike R) xs ys) (start start' : Nat) :
    List.Forall₂ (Token.Alike R) (tokensFrom start xs) (tokensFrom start' ys) := by
  induction h generalizing start start' with
  | nil => exact .cons ⟨rfl, fun _ => rfl, fun h => nomatch h⟩ .nil
  | @cons x y xs ys hx _ ih =>
    refine .cons ?_ (ih _ _)
    cases hx with
    | same hkind => exact ⟨rfl, fun _ => rfl, fun h => absurd h hkind⟩
    | @quotedName a b h =>
      have htext : ∀ name : String, String.ofList (Lexeme.quotedName name.toList).chars = quoteName name :=
        fun _ => rfl
      exact ⟨rfl, fun h => absurd rfl h, fun _ => ⟨a, b, h, htext a, htext b⟩⟩

end Fragment

namespace Query
open Fragment (lexemes isPlain)
variable {R : String → String → Prop} {d : Dialect} {a b a' b' : List Piece}

/-- A piece that can follow a name: it begins with no quote. -/
def Piece.OpensPlain : Piece → Prop
  | .text sql => sql ≠ ""
  | .name _ | .object _ => False
  | .nullSafeEquals | .slot _ => True

/-- Names of tables, both in a namespace or both in none, that belong together part by part. -/
inductive ObjectAlike (R : String → String → Prop) : ObjectName → ObjectName → Prop where
  | bare {m n : String} (h : R m n) : ObjectAlike R ⟨none, m⟩ ⟨none, n⟩
  | qualified {x y m n : String} (hns : R x y) (h : R m n) : ObjectAlike R ⟨some x, m⟩ ⟨some y, n⟩

theorem ObjectAlike.symm {m n : ObjectName} (h : ObjectAlike R m n) : ObjectAlike (flip R) n m := by
  cases h with
  | bare h => exact .bare h
  | qualified hns h => exact .qualified hns h

/-- Pieces that differ in their names only. Texts have no quotes and no colons, and two names never meet. -/
inductive Alike (R : String → String → Prop) : List Piece → List Piece → Prop where
  | nil : Alike R [] []
  | text {sql : String} {a b : List Piece} (hplain : ∀ c ∈ sql.toList, isPlain c) (hrest : Alike R a b) :
      Alike R (.text sql :: a) (.text sql :: b)
  | name {m n : String} {a b : List Piece} (hname : R m n) (hnext : ∀ p ∈ a.head?, p.OpensPlain)
      (hrest : Alike R a b) : Alike R (.name m :: a) (.name n :: b)
  | object {m n : ObjectName} {a b : List Piece} (hname : ObjectAlike R m n)
      (hnext : ∀ p ∈ a.head?, p.OpensPlain) (hrest : Alike R a b) : Alike R (.object m :: a) (.object n :: b)
  | nullSafeEquals {a b : List Piece} (hrest : Alike R a b) : Alike R (.nullSafeEquals :: a) (.nullSafeEquals :: b)
  | slot {s s' : Slot} {a b : List Piece} (hrest : Alike R a b) : Alike R (.slot s :: a) (.slot s' :: b)

theorem Alike.opensPlain (h : Alike R a b) (hopens : ∀ p ∈ a.head?, p.OpensPlain) : ∀ p ∈ b.head?, p.OpensPlain := by
  cases h with
  | nil => exact hopens
  | text => exact fun p hp => by cases hp; exact hopens _ rfl
  | name => exact absurd (hopens _ rfl) id
  | object => exact absurd (hopens _ rfl) id
  | nullSafeEquals | slot => exact fun p hp => by cases hp; trivial

theorem Alike.symm (h : Alike R a b) : Alike (flip R) b a := by
  induction h with
  | nil => exact .nil
  | text hplain _ ih => exact .text hplain ih
  | name hname hnext hrest ih => exact .name hname (hrest.opensPlain hnext) ih
  | object hname hnext hrest ih => exact .object hname.symm (hrest.opensPlain hnext) ih
  | nullSafeEquals _ ih => exact .nullSafeEquals ih
  | slot _ ih => exact .slot ih

theorem Alike.append (ha : Alike R a b) (hb : Alike R a' b') (hopens : ∀ p ∈ a'.head?, p.OpensPlain) :
    Alike R (a ++ a') (b ++ b') := by
  have hnext : ∀ {rest : List Piece}, (∀ p ∈ rest.head?, p.OpensPlain) → ∀ p ∈ (rest ++ a').head?, p.OpensPlain := by
    intro rest hrest
    cases rest with
    | nil => exact hopens
    | cons p rest => exact hrest
  induction ha with
  | nil => exact hb
  | text hplain _ ih => exact .text hplain ih
  | name hname hrest _ ih => exact .name hname (hnext hrest) ih
  | object hname hrest _ ih => exact .object hname (hnext hrest) ih
  | nullSafeEquals _ ih => exact .nullSafeEquals ih
  | slot _ ih => exact .slot ih

theorem Alike.append_text (ha : Alike R a b) (sql : String) (hplain : ∀ c ∈ sql.toList, isPlain c) (hne : sql ≠ "")
    (hb : Alike R a' b') : Alike R (a ++ .text sql :: a') (b ++ .text sql :: b') :=
  ha.append (.text hplain hb) fun p hp => by cases hp; exact hne

theorem alike_separated {separator : String} {groups groups' : List (List Piece)}
    (hplain : ∀ c ∈ separator.toList, isPlain c) (hne : separator ≠ "") (h : List.Forall₂ (Alike R) groups groups') :
    Alike R (separated separator groups) (separated separator groups') := by
  unfold separated
  induction h with
  | nil => exact .nil
  | @cons group group' groups groups' hgroup hgroups ih =>
    cases hgroups with
    | nil => simpa using hgroup
    | cons =>
      rw [List.intercalate_cons_cons, List.intercalate_cons_cons, List.append_assoc, List.append_assoc]
      exact hgroup.append_text separator hplain hne ih

theorem alike_separated_map {α β : Type} {separator : String} {f : α → List Piece} {g : β → List Piece} {xs : List α}
    {ys : List β} (hplain : ∀ c ∈ separator.toList, isPlain c) (hne : separator ≠ "")
    (h : List.Forall₂ (fun x y => Alike R (f x) (g y)) xs ys) :
    Alike R (separated separator (xs.map f)) (separated separator (ys.map g)) := by
  apply alike_separated hplain hne
  rwa [List.forall₂_map_left_iff, List.forall₂_map_right_iff]

/-- Where a piece can follow a name so can its text. -/
theorem quote_notMem_head (d : Dialect) (index : Nat) (h : Alike R a b) (hopens : ∀ p ∈ a.head?, p.OpensPlain) :
    '"' ∉ (renderFrom d index a).toList.head? := by
  have hfirst : ∀ {u v : List Char}, u ≠ [] → '"' ∉ u.head? → '"' ∉ (u ++ v).head? := by
    intro u v hne hu
    cases u with
    | nil => exact absurd rfl hne
    | cons c u => exact hu
  cases h with
  | nil => simp [renderFrom]
  | @text sql a b hplain =>
    have hsql : sql ≠ "" := hopens _ rfl
    have hne : sql.toList ≠ [] := by simpa using hsql
    rw [renderFrom, String.toList_append]
    refine hfirst hne fun hquote => ?_
    exact absurd (hplain '"' (List.mem_of_head? hquote)) (by decide)
  | name => exact absurd (hopens _ rfl) id
  | object => exact absurd (hopens _ rfl) id
  | nullSafeEquals =>
    have hhead : d.nullSafeEquals.toList.head? = some 'I' := by cases d <;> rfl
    rw [renderFrom, String.toList_append]
    refine hfirst (fun hnil => ?_) (by simp [hhead])
    rw [hnil] at hhead
    cases hhead
  | slot =>
    rw [renderFrom, String.toList_append, placeholder_toList]
    exact hfirst (List.cons_ne_nil _ _) (by cases d <;> simp [Dialect.placeholderMark])

theorem lexemes_qualify (o : ObjectName) {cs : List Char} (hcs : '"' ∉ cs.head?) :
    lexemes ((d.qualify o).toList ++ cs) =
      (match (if d.hasNamespaces then o.ns else none) with
        | some ns => [.quotedName ns.toList, .plain ['.']]
        | none => []) ++ .quotedName o.name.toList :: lexemes cs := by
  have hname := Fragment.lexemes_quoteName o.name hcs
  have hqualified : ∀ ns : String, lexemes ((quoteName ns ++ "." ++ quoteName o.name).toList ++ cs) =
      [.quotedName ns.toList, .plain ['.'], .quotedName o.name.toList] ++ lexemes cs := by
    intro ns
    have hhead : ∀ c ∈ ((quoteName o.name).toList ++ cs).head?, isPlain c = false := by
      intro c hc
      rw [toList_quoteName] at hc
      cases hc
      rfl
    have hdot := Fragment.lexemes_plain (List.cons_ne_nil '.' []) (by simp [isPlain]) hhead
    rw [String.toList_append, String.toList_append, List.append_assoc, List.append_assoc,
      Fragment.lexemes_quoteName ns (by simp)]
    change _ :: lexemes (['.'] ++ _) = _
    rw [hdot, hname]
    rfl
  unfold Dialect.qualify
  cases hns : o.ns with
  | none => simpa using hname
  | some ns =>
    cases hd : d.hasNamespaces with
    | false => simpa using hname
    | true => simpa using hqualified ns

theorem isPlain_of_isDigit {c : Char} (h : c.isDigit) : isPlain c := by
  have hne (mark : Char) (hmark : mark.isDigit = false) : c ≠ mark := Text.ne_of_isDigit h hmark
  simp [isPlain, hne '\'' rfl, hne '"' rfl, hne ':' rfl]

theorem isPlain_placeholder (d : Dialect) (index : Nat) : ∀ c ∈ (d.placeholder index).toList, isPlain c := by
  intro c hc
  rw [placeholder_toList] at hc
  obtain rfl | hc := List.mem_cons.1 hc
  · cases d <;> rfl
  · exact isPlain_of_isDigit (Text.isDigit_of_mem_toString hc)

theorem isPlain_nullSafeEquals (d : Dialect) : ∀ c ∈ d.nullSafeEquals.toList, isPlain c :=
  List.all_eq_true.1 (by cases d <;> rfl)

theorem alike_plain_append {w cs cs' : List Char} (hw : ∀ c ∈ w, isPlain c)
    (hcs : ∀ c ∈ cs.head?, isPlain c = false) (hcs' : ∀ c ∈ cs'.head?, isPlain c = false)
    (h : List.Forall₂ (Fragment.Lexeme.Alike R) (lexemes cs) (lexemes cs')) :
    List.Forall₂ (Fragment.Lexeme.Alike R) (lexemes (w ++ cs)) (lexemes (w ++ cs')) := by
  by_cases hne : w = []
  · rwa [hne]
  · rw [Fragment.lexemes_plain hne hw hcs, Fragment.lexemes_plain hne hw hcs']
    exact .cons (.same (by simp [Fragment.Lexeme.kind])) h

theorem alike_qualify {m n : ObjectName} {cs cs' : List Char} (hname : ObjectAlike R m n) (hcs : '"' ∉ cs.head?)
    (hcs' : '"' ∉ cs'.head?) (h : List.Forall₂ (Fragment.Lexeme.Alike R) (lexemes cs) (lexemes cs')) :
    List.Forall₂ (Fragment.Lexeme.Alike R) (lexemes ((d.qualify m).toList ++ cs))
      (lexemes ((d.qualify n).toList ++ cs')) := by
  rw [lexemes_qualify m hcs, lexemes_qualify n hcs']
  cases hname with
  | bare hname => cases d.hasNamespaces <;> exact .cons (.quotedName hname) h
  | qualified hns hname =>
    have hlast := List.Forall₂.cons (Fragment.Lexeme.Alike.quotedName hname) h
    cases d.hasNamespaces with
    | false => exact hlast
    | true => exact .cons (.quotedName hns) (.cons (.same (by simp [Fragment.Lexeme.kind])) hlast)

theorem head_quoteName (name : String) (cs : List Char) : ((quoteName name).toList ++ cs).head? = some '"' := by
  rw [toList_quoteName]
  rfl

theorem head_qualify (o : ObjectName) (cs : List Char) : ((d.qualify o).toList ++ cs).head? = some '"' := by
  unfold Dialect.qualify
  split
  · split
    · rw [String.toList_append, String.toList_append, List.append_assoc, List.append_assoc]
      exact head_quoteName _ _
    · exact head_quoteName _ _
  · exact head_quoteName _ _

/-- The lexemes of alike pieces are alike, also after plain text that runs on into them. -/
theorem Alike.lexemes (h : Alike R a b) (index : Nat) {w : List Char} (hw : ∀ c ∈ w, isPlain c) :
    List.Forall₂ (Fragment.Lexeme.Alike R) (Fragment.lexemes (w ++ (renderFrom d index a).toList))
      (Fragment.lexemes (w ++ (renderFrom d index b).toList)) := by
  -- plain text is put off until a name or the end stands behind it
  have hlonger : ∀ {u v : List Char}, (∀ c ∈ u, isPlain c) → (∀ c ∈ v, isPlain c) → ∀ c ∈ u ++ v, isPlain c :=
    fun hu hv c hc => (List.mem_append.1 hc).elim (hu c) (hv c)
  have hquote : ∀ {cs : List Char}, cs.head? = some '"' → ∀ c ∈ cs.head?, isPlain c = false := by
    intro cs hcs c hc
    rw [hcs] at hc
    cases hc
    rfl
  induction h generalizing index w with
  | nil =>
    exact alike_plain_append hw (by simp [renderFrom]) (by simp [renderFrom]) (by simp [renderFrom, Fragment.lexemes])
  | @text sql a b hplain _ ih =>
    have hrest := ih index (hlonger hw hplain)
    simpa [renderFrom] using hrest
  | @name m n a b hname hnext hrest ih =>
    have ha := quote_notMem_head d index hrest hnext
    have hb := quote_notMem_head d index hrest.symm (hrest.opensPlain hnext)
    rw [renderFrom, renderFrom, String.toList_append, String.toList_append]
    refine alike_plain_append hw (hquote (head_quoteName _ _)) (hquote (head_quoteName _ _)) ?_
    rw [Fragment.lexemes_quoteName m ha, Fragment.lexemes_quoteName n hb]
    exact .cons (.quotedName hname) (ih index (w := []) (by simp))
  | @object m n a b hname hnext hrest ih =>
    have ha := quote_notMem_head d index hrest hnext
    have hb := quote_notMem_head d index hrest.symm (hrest.opensPlain hnext)
    rw [renderFrom, renderFrom, String.toList_append, String.toList_append]
    refine alike_plain_append hw (hquote (head_qualify _ _)) (hquote (head_qualify _ _)) ?_
    exact alike_qualify hname ha hb (ih index (w := []) (by simp))
  | nullSafeEquals _ ih =>
    have hrest := ih index (hlonger hw (isPlain_nullSafeEquals d))
    simpa [renderFrom] using hrest
  | slot _ ih =>
    have hrest := ih (index + 1) (hlonger hw (isPlain_placeholder d index))
    simpa [renderFrom] using hrest

theorem Alike.tokens (h : Alike R a b) :
    List.Forall₂ (Fragment.Token.Alike R) (Fragment.tokenize (render d a)) (Fragment.tokenize (render d b)) := by
  have hlexemes := h.lexemes (d := d) 1 (w := []) (by simp)
  exact Fragment.alike_tokensFrom hlexemes 0 0

end Query
end EntitySql
