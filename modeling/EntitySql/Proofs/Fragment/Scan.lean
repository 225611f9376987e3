import EntitySql.Proofs.Fragment.Segments

/-! A fragment read character by character. Whether a character is quoted, and whether a colon starts a placeholder,
is told from the text before it: by the quotes that are open there, and by the run of colons that ends there. -/
namespace EntitySql.Fragment
open Text
variable {c mark : Char} {before after cs w : List Char}

/-- Where a text stops: outside of quotes, or after a mark that is to be closed. -/
inductive Place where
  | outside
  | inside (mark : Char)
  deriving DecidableEq

/-- An apostrophe and a double quote open and close; between two of one kind the other is a character like any. -/
def Place.next : Place → Char → Place
  | .outside, c => if c = '\'' ∨ c = '"' then .inside c else .outside
  | .inside mark, c => if c = mark then .outside else .inside mark

def placeAfter (before : List Char) : Place :=
  before.foldl Place.next .outside

/-- The run of colons at the end of a text. -/
def endColons (before : List Char) : List Char :=
  (before.reverse.takeWhile (· = ':')).reverse

/-- Whether a parameter is named between two parts of a source: outside of quotes, after an odd number of colons, and
before a character that starts a name. -/
def namesAt (before after : List Char) : Bool :=
  placeAfter before = .outside && (endColons before).length % 2 = 1 && after.head?.any isNameStart

/-- The places where a source can be cut, from left to right. -/
def cuts (source : List Char) : List (List Char × List Char) :=
  source.inits.zip source.tails

/-- The name and the path that a text begins with, both as long as they can be. -/
structure Named (after name : List Char) (path : List (List Char)) : Prop where
  name_eq : name = after.takeWhile isNameChar
  parts : ∀ part ∈ path, part ≠ [] ∧ ∀ c ∈ part, isNameChar c
  path_eq : ∃ rest, after.dropWhile isNameChar = pathChars path ++ rest ∧
    (∀ c ∈ rest.head?, isNameChar c = false) ∧ ∀ c cs, rest = '.' :: c :: cs → isNameChar c = false

/-- The source with the runs of blanks outside of quotes collapsed, from a place on. -/
def collapseOutside (before : List Char) : List Char → List Char
  | [] => []
  | c :: cs =>
    if placeAfter before = .outside ∧ isBlank c then
      collapsedRun (c :: cs.takeWhile isBlank) ++
        collapseOutside (before ++ c :: cs.takeWhile isBlank) (cs.dropWhile isBlank)
    else c :: collapseOutside (before ++ [c]) cs
termination_by cs => cs.length
decreasing_by
  · exact Nat.lt_succ_of_le (List.dropWhile_sublist isBlank).length_le
  · exact Nat.lt_succ_self _

/-- What is read: a character that is kept, or a placeholder. -/
inductive Item where
  | kept (c : Char)
  | placeholder (name : List Char) (path : List (List Char))

theorem length_readPath_le (cs : List Char) : (readPath cs).2.length ≤ cs.length := by
  have happend := congrArg List.length (readPath_append cs)
  rw [List.length_append] at happend
  omega

/-- Reads a source from a place on. -/
def scan (before : List Char) : List Char → List Item
  | [] => []
  | c :: cs =>
    if namesAt (before ++ [c]) cs then
      let name := cs.takeWhile isNameChar
      let path := readPath (cs.dropWhile isNameChar)
      .placeholder name path.1 :: scan (before ++ c :: name ++ pathChars path.1) path.2
    else if placeAfter before = .outside ∧ isBlank c then
      (collapsedRun (c :: cs.takeWhile isBlank)).map .kept ++
        scan (before ++ c :: cs.takeWhile isBlank) (cs.dropWhile isBlank)
    else .kept c :: scan (before ++ [c]) cs
termination_by cs => cs.length
decreasing_by
  · exact Nat.lt_succ_of_le ((length_readPath_le _).trans (List.dropWhile_sublist isNameChar).length_le)
  · exact Nat.lt_succ_of_le (List.dropWhile_sublist isBlank).length_le
  · exact Nat.lt_succ_self _

/-- Puts what was read in front of segments; characters that follow each other make up one text. -/
def Item.attach : Item → List Segment → List Segment
  | .kept c, .text s :: rest => .text (String.singleton c ++ s) :: rest
  | .kept c, rest => .text (String.singleton c) :: rest
  | .placeholder name path, rest => .placeholder (String.ofList name) (path.map String.ofList) :: rest

/-- The text that a segment was read from, blanks apart. -/
def Segment.source : Segment → List Char
  | .text s => s.toList
  | .placeholder name path => ':' :: name.toList ++ pathChars (path.map String.toList)

def Segment.named? : Segment → Option (List Char × List (List Char))
  | .text _ => none
  | .placeholder name path => some (name.toList, path.map String.toList)

def Segment.isText : Segment → Bool
  | .text _ => true
  | .placeholder _ _ => false

@[simp]
theorem placeAfter_concat : placeAfter (before ++ [c]) = (placeAfter before).next c := by
  simp [placeAfter]

@[simp]
theorem endColons_concat_colon : endColons (before ++ [':']) = endColons before ++ [':'] := by
  simp [endColons]

theorem endColons_concat (hc : c ≠ ':') : endColons (before ++ [c]) = [] := by
  simp [endColons, hc]

theorem namesAt_concat (hc : c ≠ ':') : namesAt (before ++ [c]) after = false := by
  simp [namesAt, endColons_concat hc]

/-- The places at which a parameter is named, after a first one that is not asked. -/
def namedCuts (before : List Char) : List Char → List (List Char × List Char)
  | [] => []
  | c :: cs =>
    if namesAt (before ++ [c]) cs then (before ++ [c], cs) :: namedCuts (before ++ [c]) cs
    else namedCuts (before ++ [c]) cs

theorem namedCuts_append (hw : ':' ∉ w) : namedCuts before (w ++ cs) = namedCuts (before ++ w) cs := by
  induction w generalizing before with
  | nil => simp
  | cons c w ih =>
    obtain ⟨hc, hw⟩ := List.ne_and_not_mem_of_not_mem_cons hw
    rw [List.cons_append, namedCuts, if_neg (by simp [namesAt_concat hc.symm]), ih hw]
    simp

theorem cuts_cons : cuts (c :: cs) = ([], c :: cs) :: (cuts cs).map (Prod.map (c :: ·) id) := by
  simp [cuts, List.zip_map_left]

theorem filter_cuts : ((cuts cs).map (Prod.map (before ++ ·) id)).filter (fun cut => namesAt cut.1 cut.2) =
    if namesAt before cs then (before, cs) :: namedCuts before cs else namedCuts before cs := by
  induction cs generalizing before with
  | nil => simp [cuts, namedCuts, List.filter_cons]
  | cons c cs ih =>
    have hrest : (cuts cs).map (Prod.map (before ++ ·) id ∘ Prod.map (c :: ·) id) =
        (cuts cs).map (Prod.map ((before ++ [c]) ++ ·) id) := by
      simp [Function.comp_def, Prod.map]
    rw [cuts_cons, List.map_cons, List.map_map, hrest, List.filter_cons, ih, namedCuts]
    simp [Prod.map]

theorem filter_cuts_source (source : List Char) :
    (cuts source).filter (fun cut => namesAt cut.1 cut.2) = namedCuts [] source := by
  have hid : Prod.map (([] : List Char) ++ ·) (id : List Char → List Char) = id := rfl
  have hall := @filter_cuts [] source
  rwa [hid, List.map_id, if_neg (by simp [namesAt, endColons])] at hall

theorem isNameChar_of_isNameStart (h : isNameStart c) : isNameChar c := by
  simp [isNameChar, h]

theorem ne_colon_of_isNameChar (h : isNameChar c) : c ≠ ':' := by
  rintro rfl
  exact absurd h (by decide)

theorem not_isBlank_of_isNameChar (h : isNameChar c) : isBlank c = false := by
  have hrange : 48 ≤ c.toNat ∧ c.toNat ≤ 122 := by
    simp only [isNameChar, isNameStart, Bool.or_eq_true, Bool.and_eq_true, decide_eq_true_eq, Char.le_def,
      UInt32.le_iff_toNat_le, Char.toNat_val, Char.reduceVal, UInt32.reduceToNat] at h
    obtain (h | rfl) | h := h
    · omega
    · decide
    · omega
  simp only [isBlank, Bool.or_eq_false_iff, Bool.and_eq_false_iff, decide_eq_false_iff_not, beq_eq_false_iff_ne]
  omega

theorem ne_of_isBlank (h : isBlank c) : c ≠ '\'' ∧ c ≠ '"' ∧ c ≠ ':' := by
  refine ⟨?_, ?_, ?_⟩
  all_goals
    rintro rfl
    exact absurd h (by decide)

theorem parts_readPath (cs : List Char) : ∀ part ∈ (readPath cs).1, part ≠ [] ∧ ∀ c ∈ part, isNameChar c := by
  fun_induction readPath cs with
  | case1 c cs hc deeper ih =>
    refine List.forall_mem_cons.2 ⟨⟨List.cons_ne_nil _ _, ?_⟩, ih⟩
    exact List.forall_mem_cons.2 ⟨hc, fun d hd => List.mem_takeWhile_imp hd⟩
  | case2 => simp
  | case3 => simp

theorem readPath_maximal (cs : List Char) :
    ∀ c cs', (readPath cs).2 = '.' :: c :: cs' → isNameChar c = false := by
  fun_induction readPath cs with
  | case1 c cs hc deeper ih => exact ih
  | case2 c cs hc =>
    intro d ds h
    cases h
    simpa using hc
  | case3 cs h =>
    intro c cs' heq
    exact absurd heq (h c cs')

theorem named_readPath (after : List Char) :
    Named after (after.takeWhile isNameChar) (readPath (after.dropWhile isNameChar)).1 where
  name_eq := rfl
  parts := parts_readPath _
  path_eq := ⟨_, (readPath_append _).symm, head_readPath (head_dropWhile isNameChar after), readPath_maximal _⟩

theorem forall_mem_pathChars {path : List (List Char)} (h : ∀ part ∈ path, part ≠ [] ∧ ∀ c ∈ part, isNameChar c) :
    ∀ c ∈ pathChars path, c = '.' ∨ isNameChar c := by
  intro c hc
  obtain ⟨part, hpart, hc⟩ := List.mem_flatMap.1 hc
  obtain rfl | hc := List.mem_cons.1 hc
  · exact .inl rfl
  · exact .inr ((h part hpart).2 c hc)

def Item.named? : Item → Option (List Char × List (List Char))
  | .kept _ => none
  | .placeholder name path => some (name, path)

theorem filterMap_named_kept : (w.map Item.kept).filterMap Item.named? = [] := by
  simp [List.filterMap_map, Item.named?, Function.comp_def]

/-- The placeholders that are read are those which the cuts tell of. -/
theorem forall₂_named_scan : List.Forall₂ (fun cut named => Named cut.2 named.1 named.2) (namedCuts before cs)
    ((scan before cs).filterMap Item.named?) := by
  fun_induction scan before cs with
  | case1 before => exact .nil
  | case2 before c cs hnames name path ih =>
    have hname : ':' ∉ name := fun hmem => ne_colon_of_isNameChar (List.mem_takeWhile_imp hmem) rfl
    have hpath : ':' ∉ pathChars path.1 := by
      intro hmem
      obtain h | h := forall_mem_pathChars (parts_readPath _) _ hmem
      · cases h
      · exact ne_colon_of_isNameChar h rfl
    have hsource : cs = name ++ pathChars path.1 ++ path.2 := by
      rw [List.append_assoc, readPath_append, List.takeWhile_append_dropWhile]
    have hcuts : namedCuts (before ++ [c]) cs = namedCuts (before ++ c :: name ++ pathChars path.1) path.2 := by
      conv_lhs => rw [hsource]
      rw [namedCuts_append (by simp [hname, hpath])]
      simp
    rw [namedCuts, if_pos hnames, hcuts]
    exact .cons (named_readPath cs) ih
  | case3 before c cs hnames hblank ih =>
    have hrun : ':' ∉ c :: cs.takeWhile isBlank := by
      intro hmem
      obtain heq | hmem := List.mem_cons.1 hmem
      · exact (ne_of_isBlank hblank.2).2.2 heq.symm
      · exact (ne_of_isBlank (List.mem_takeWhile_imp hmem)).2.2 rfl
    have hcuts : namedCuts before (c :: cs) =
        namedCuts (before ++ c :: cs.takeWhile isBlank) (cs.dropWhile isBlank) := by
      conv_lhs => rw [← List.takeWhile_append_dropWhile (p := isBlank) (l := cs)]
      exact namedCuts_append hrun
    rw [hcuts, List.filterMap_append, filterMap_named_kept]
    exact ih
  | case4 before c cs hnames hblank ih =>
    rw [namedCuts, if_neg hnames]
    exact ih

def Item.source : Item → List Char
  | .kept c => [c]
  | .placeholder name path => ':' :: name ++ pathChars path

theorem flatMap_source_kept : (w.map Item.kept).flatMap Item.source = w := by
  rw [List.flatMap_map]
  exact List.flatMap_singleton' w

theorem collapseOutside_append (hw : ∀ c ∈ w, isBlank c = false) :
    collapseOutside before (w ++ cs) = w ++ collapseOutside (before ++ w) cs := by
  induction w generalizing before with
  | nil => simp
  | cons c w ih =>
    obtain ⟨hc, hw⟩ := List.forall_mem_cons.1 hw
    rw [List.cons_append, collapseOutside, if_neg (by simp [hc]), ih hw]
    simp

theorem eq_colon_of_namesAt (h : namesAt (before ++ [c]) after) : c = ':' := by
  by_contra hc
  rw [namesAt_concat hc] at h
  cases h

/-- With the placeholders in their places what is kept is the source, its blanks collapsed. -/
theorem flatMap_source_scan : (scan before cs).flatMap Item.source = collapseOutside before cs := by
  fun_induction scan before cs with
  | case1 before => rw [collapseOutside, List.flatMap_nil]
  | case2 before c cs hnames name path ih =>
    have hplain : ∀ d ∈ c :: name ++ pathChars path.1, isBlank d = false := by
      intro d hd
      obtain hd | hd := List.mem_append.1 hd
      · obtain rfl | hd := List.mem_cons.1 hd
        · rw [eq_colon_of_namesAt hnames]
          rfl
        · exact not_isBlank_of_isNameChar (List.mem_takeWhile_imp hd)
      · obtain rfl | hd := forall_mem_pathChars (parts_readPath _) _ hd
        · rfl
        · exact not_isBlank_of_isNameChar hd
    have hsource : c :: cs = (c :: name ++ pathChars path.1) ++ path.2 := by
      rw [List.append_assoc, readPath_append, List.cons_append, List.takeWhile_append_dropWhile]
    rw [List.flatMap_cons, ih, hsource, collapseOutside_append hplain, Item.source, eq_colon_of_namesAt hnames]
    simp
  | case3 before c cs hnames hblank ih =>
    rw [collapseOutside, if_pos hblank, List.flatMap_append, flatMap_source_kept, ih]
  | case4 before c cs hnames hblank ih =>
    rw [collapseOutside, if_neg hblank, List.flatMap_cons, ih]
    rfl

section
variable {items : List Item}

theorem named_attached :
    (items.foldr Item.attach []).filterMap Segment.named? = items.filterMap Item.named? := by
  induction items with
  | nil => rfl
  | cons x items ih =>
    rw [List.foldr_cons, List.filterMap_cons, ← ih]
    generalize items.foldr Item.attach [] = segments
    cases x with
    | kept c =>
      unfold Item.attach
      cases segments with
      | nil => rfl
      | cons s rest => cases s <;> rfl
    | placeholder name path => simp [Item.attach, Segment.named?, Item.named?]

theorem source_attached :
    (items.foldr Item.attach []).flatMap Segment.source = items.flatMap Item.source := by
  induction items with
  | nil => rfl
  | cons x items ih =>
    rw [List.foldr_cons, List.flatMap_cons, ← ih]
    generalize items.foldr Item.attach [] = segments
    cases x with
    | kept c =>
      unfold Item.attach
      cases segments with
      | nil => simp [Segment.source, Item.source]
      | cons s rest => cases s <;> simp [Segment.source, Item.source]
    | placeholder name path => simp [Item.attach, Segment.source, Item.source]

/-- Texts are not empty, and no two of them stand side by side. -/
theorem texts_attached : (∀ s, .text s ∈ items.foldr Item.attach [] → s ≠ "") ∧
    (items.foldr Item.attach []).IsChain fun s s' => s.isText = false ∨ s'.isText = false := by
  induction items with
  | nil => simp
  | cons x items ih =>
    rw [List.foldr_cons]
    generalize items.foldr Item.attach [] = segments at ih
    obtain ⟨htexts, hchain⟩ := ih
    cases x with
    | kept c =>
      cases segments with
      | nil => simp [Item.attach]
      | cons s rest =>
        cases s with
        | text s =>
          refine ⟨fun s' hs' => ?_, ?_⟩
          · obtain heq | hs' := List.mem_cons.1 hs'
            · cases heq
              simp
            · exact htexts s' (List.mem_cons_of_mem _ hs')
          · obtain ⟨hnext, hrest⟩ := List.isChain_cons.1 hchain
            exact List.isChain_cons.2 ⟨hnext, hrest⟩
        | placeholder name path =>
          refine ⟨fun s' hs' => ?_, List.isChain_cons_cons.2 ⟨.inr rfl, hchain⟩⟩
          obtain heq | hs' := List.mem_cons.1 hs'
          · cases heq
            simp
          · exact htexts s' hs'
    | placeholder name path =>
      refine ⟨fun s' hs' => ?_, List.isChain_cons.2 ⟨fun _ _ => .inl rfl, hchain⟩⟩
      obtain heq | hs' := List.mem_cons.1 hs'
      · cases heq
      · exact htexts s' hs'

end

end EntitySql.Fragment
