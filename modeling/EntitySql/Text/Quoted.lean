/-!
Quoting: a text between two marks, in which every mark is written twice. Reading takes a quoted text up to its
closing mark; main statement: what is read, written again, is what stood there.
-/
namespace EntitySql.Text

def doubled (mark : Char) : List Char → List Char
  | [] => []
  | c :: cs => if c = mark then mark :: mark :: doubled mark cs else c :: doubled mark cs

/-- The text between two marks, its own marks doubled. -/
def quotedChars (mark : Char) (cs : List Char) : List Char :=
  mark :: doubled mark cs ++ [mark]

/-- The text between two marks, its own marks doubled. -/
def quoted (mark : Char) (s : String) : String :=
  String.ofList (quotedChars mark s.toList)

/-- Reads up to the first mark that stands alone: the content, and what follows that mark. There is none if the
marks are all doubled. -/
def closeQuoted (mark : Char) : List Char → Option (List Char × List Char)
  | [] => none
  | [c] => if c = mark then some ([], []) else none
  | c :: d :: cs =>
    if c ≠ mark then (closeQuoted mark (d :: cs)).map fun p => (c :: p.1, p.2)
    else if d = mark then (closeQuoted mark cs).map fun p => (mark :: p.1, p.2)
    else some ([], d :: cs)

theorem eq_of_closeQuoted {mark : Char} {cs body rest : List Char}
    (h : closeQuoted mark cs = some (body, rest)) : cs = doubled mark body ++ mark :: rest := by
  fun_induction closeQuoted mark cs generalizing body rest with
  | case1 => simp at h
  | case2 => simp_all [doubled]
  | case3 => simp at h
  | case4 c d cs hc ih =>
    obtain ⟨⟨b, r⟩, hb, he⟩ := Option.map_eq_some_iff.1 h
    cases he
    simp [doubled, hc, ih hb]
  | case5 d cs hd ih =>
    obtain ⟨⟨b, r⟩, hb, he⟩ := Option.map_eq_some_iff.1 h
    cases he
    simp_all [doubled]
  | case6 => simp_all [doubled]

end EntitySql.Text
