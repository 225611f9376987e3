import EntitySql.Proofs.Fragment.Segments
import EntitySql.Proofs.Query.Slots
import EntitySql.Proofs.Text.Runs

/-! Reading the numbers of placeholders back from a text. It needs that no other piece holds the mark that starts a
placeholder, and that no text after a slot begins with a digit. -/
namespace EntitySql.Query
open Fragment (NoDigitFirst)
open Text (isDigit_of_mem_toString takeWhile_digits)
variable {mark : Char} {d : Dialect}

/-- The numbers that follow the marks of a text, each with as many digits as there are. -/
def scanPlaceholders (mark : Char) : List Char → List String
  | [] => []
  | c :: cs =>
    if c = mark then String.ofList (cs.takeWhile Char.isDigit) :: scanPlaceholders mark cs
    else scanPlaceholders mark cs

theorem scan_append_of_notMem {a : List Char} (h : mark ∉ a) (b : List Char) :
    scanPlaceholders mark (a ++ b) = scanPlaceholders mark b := by
  induction a with
  | nil => rfl
  | cons c a ih =>
    obtain ⟨hc, ha⟩ := List.ne_and_not_mem_of_not_mem_cons h
    rw [List.cons_append, scanPlaceholders, if_neg hc.symm, ih ha]

/-- A piece that no number before it can run on into. -/
def Piece.NoDigitFirst : Piece → Prop
  | .text sql => Fragment.NoDigitFirst sql.toList
  | _ => True

/-- Pieces whose placeholders can be read back from their text. -/
inductive Readable (mark : Char) : List Piece → Prop where
  | nil : Readable mark []
  | text {sql : String} {rest : List Piece} (hmark : mark ∉ sql.toList) (hrest : Readable mark rest) :
      Readable mark (.text sql :: rest)
  | name {name : String} {rest : List Piece} (hmark : mark ∉ name.toList) (hrest : Readable mark rest) :
      Readable mark (.name name :: rest)
  | object {name : ObjectName} {rest : List Piece} (hns : ∀ ns ∈ name.ns, mark ∉ ns.toList)
      (hmark : mark ∉ name.name.toList) (hrest : Readable mark rest) : Readable mark (.object name :: rest)
  | nullSafeEquals {rest : List Piece} (hrest : Readable mark rest) : Readable mark (.nullSafeEquals :: rest)
  | slot {slot : Slot} {rest : List Piece} (hnext : ∀ p ∈ rest.head?, p.NoDigitFirst)
      (hrest : Readable mark rest) : Readable mark (.slot slot :: rest)

theorem mem_doubled {c : Char} {cs : List Char} (h : c ∈ Text.doubled mark cs) : c ∈ cs := by
  induction cs with
  | nil => cases h
  | cons e cs ih =>
    rw [Text.doubled] at h
    split at h
    · next he =>
      subst he
      simp only [List.mem_cons] at h ⊢
      obtain h | h | h := h
      · exact .inl h
      · exact .inl h
      · exact .inr (ih h)
    · obtain rfl | h := List.mem_cons.1 h
      · exact List.mem_cons_self
      · exact List.mem_cons_of_mem _ (ih h)

theorem notMem_quoteName {name : String} (hname : mark ∉ name.toList) (hquote : mark ≠ '"') :
    mark ∉ (quoteName name).toList := by
  intro h
  rw [quoteName, Text.quoted, String.toList_ofList, Text.quotedChars, List.cons_append] at h
  obtain h | h := List.mem_cons.1 h
  · exact hquote h
  · obtain h | h := List.mem_append.1 h
    · exact hname (mem_doubled h)
    · exact hquote (List.mem_singleton.1 h)

theorem placeholderMark_ne_quote : d.placeholderMark ≠ '"' := by
  cases d <;> decide

theorem placeholderMark_not_isDigit : d.placeholderMark.isDigit = false := by
  cases d <;> decide

theorem notMem_nullSafeEquals : d.placeholderMark ∉ d.nullSafeEquals.toList := by
  cases d <;> decide

theorem notMem_qualify {name : ObjectName} (hns : ∀ ns ∈ name.ns, d.placeholderMark ∉ ns.toList)
    (hname : d.placeholderMark ∉ name.name.toList) : d.placeholderMark ∉ (d.qualify name).toList := by
  have halone := notMem_quoteName hname placeholderMark_ne_quote
  unfold Dialect.qualify
  split
  · next ns heq =>
    split
    · have hfirst := notMem_quoteName (hns ns heq) placeholderMark_ne_quote
      have hdot : d.placeholderMark ∉ ".".toList := by cases d <;> decide
      simp only [String.toList_append, List.mem_append, not_or]
      exact ⟨⟨hfirst, hdot⟩, halone⟩
    · exact halone
  · exact halone

theorem noDigitFirst_quoteName (name : String) : NoDigitFirst (quoteName name).toList :=
  ⟨'"', by simp [quoteName, Text.quoted, Text.quotedChars], rfl⟩

theorem noDigitFirst_qualify (name : ObjectName) : NoDigitFirst (d.qualify name).toList := by
  unfold Dialect.qualify
  split
  · split
    · rw [String.toList_append, String.toList_append, List.append_assoc]
      exact Fragment.noDigitFirst_append (noDigitFirst_quoteName _) _
    · exact noDigitFirst_quoteName _
  · exact noDigitFirst_quoteName _

theorem placeholder_toList (index : Nat) :
    (d.placeholder index).toList = d.placeholderMark :: (toString index).toList := by
  simp [Dialect.placeholder]

/-- Where pieces begin with no digit their text does not either. -/
theorem head_renderFrom {index : Nat} {ps : List Piece} (h : ∀ p ∈ ps.head?, p.NoDigitFirst) :
    ∀ c ∈ (renderFrom d index ps).toList.head?, c.isDigit = false := by
  have hfirst : ∀ {a b : List Char}, NoDigitFirst a → ∀ c ∈ (a ++ b).head?, c.isDigit = false := by
    intro a b ha c hc
    obtain ⟨e, he, hdigit⟩ := Fragment.noDigitFirst_append ha b
    rw [Option.mem_unique hc he]
    exact hdigit
  cases ps with
  | nil => simp [renderFrom]
  | cons p ps =>
    have hp := h p rfl
    cases p with
    | text sql =>
      rw [renderFrom, String.toList_append]
      exact hfirst hp
    | name name =>
      rw [renderFrom, String.toList_append]
      exact hfirst (noDigitFirst_quoteName name)
    | object name =>
      rw [renderFrom, String.toList_append]
      exact hfirst (noDigitFirst_qualify name)
    | nullSafeEquals =>
      rw [renderFrom, String.toList_append]
      refine hfirst ?_
      cases d <;> exact ⟨'I', rfl, rfl⟩
    | slot slot =>
      rw [renderFrom, String.toList_append, placeholder_toList]
      exact hfirst ⟨_, rfl, placeholderMark_not_isDigit⟩

theorem notMem_toString (n : Nat) : d.placeholderMark ∉ (toString n).toList := by
  intro hmem
  have hdigit := isDigit_of_mem_toString hmem
  rw [placeholderMark_not_isDigit] at hdigit
  cases hdigit

theorem scan_renderFrom {ps : List Piece} (h : Readable d.placeholderMark ps) (index : Nat) :
    scanPlaceholders d.placeholderMark (renderFrom d index ps).toList =
      (List.range' index (slots ps).length).map toString := by
  induction h generalizing index with
  | nil => rfl
  | text hmark _ ih =>
    rw [renderFrom, String.toList_append, scan_append_of_notMem hmark, ih]
    rfl
  | name hmark _ ih =>
    rw [renderFrom, String.toList_append,
      scan_append_of_notMem (notMem_quoteName hmark placeholderMark_ne_quote), ih]
    rfl
  | object hns hmark _ ih =>
    rw [renderFrom, String.toList_append, scan_append_of_notMem (notMem_qualify hns hmark), ih]
    rfl
  | nullSafeEquals _ ih =>
    rw [renderFrom, String.toList_append, scan_append_of_notMem notMem_nullSafeEquals, ih]
    rfl
  | slot hnext _ ih =>
    rw [renderFrom, String.toList_append, placeholder_toList, List.cons_append, scanPlaceholders, if_pos rfl,
      takeWhile_digits (head_renderFrom hnext), String.ofList_toList, scan_append_of_notMem (notMem_toString index), ih]
    rfl

end EntitySql.Query
