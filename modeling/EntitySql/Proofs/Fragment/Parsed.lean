import EntitySql.Proofs.Fragment.Scan
import EntitySql.Proofs.Text.Runs

/-! The lexemes of a fragment and its characters tell the same. A lexeme ends where the reader of single characters is
outside of quotes again, and not within a run of colons; so both go through a source side by side. -/
namespace EntitySql.Fragment
open Text
variable {c mark : Char} {before after cs : List Char}

/-- What a lexeme holds, character by character. -/
def Lexeme.items : Lexeme → List Item
  | .placeholder name path => [.placeholder name path]
  | .plain run => (collapseLineBreaks run).map .kept
  | x => x.chars.map .kept

theorem scan_kept (hnames : namesAt (before ++ [c]) cs = false)
    (hblank : placeAfter before = .outside → isBlank c = false) :
    scan before (c :: cs) = .kept c :: scan (before ++ [c]) cs := by
  rw [scan, if_neg (by simp [hnames]), if_neg]
  rintro ⟨hplace, h⟩
  rw [hblank hplace] at h
  cases h

/-- A character that opens and closes quotes. -/
def IsMark (mark : Char) : Prop :=
  mark = '\'' ∨ mark = '"'

theorem IsMark.ne_colon (h : IsMark mark) : mark ≠ ':' := by
  obtain rfl | rfl := h
  · decide
  · decide

theorem IsMark.not_isBlank (h : IsMark mark) : isBlank mark = false := by
  obtain rfl | rfl := h
  · decide
  · decide

theorem scan_mark (hmark : IsMark mark) : scan before (mark :: cs) = .kept mark :: scan (before ++ [mark]) cs :=
  scan_kept (namesAt_concat hmark.ne_colon) fun _ => hmark.not_isBlank

theorem scan_inside (hmark : IsMark mark) (hplace : placeAfter before = .inside mark) :
    scan before (c :: cs) = .kept c :: scan (before ++ [c]) cs := by
  refine scan_kept ?_ (by simp [hplace])
  by_cases hc : c = ':'
  · subst c
    simp [namesAt, hplace, Place.next, hmark.ne_colon.symm]
  · exact namesAt_concat hc

theorem placeAfter_opened (hmark : IsMark mark) (hplace : placeAfter before = .outside) :
    placeAfter (before ++ [mark]) = .inside mark := by
  rw [placeAfter_concat, hplace]
  exact if_pos hmark

theorem placeAfter_closed (hplace : placeAfter before = .inside mark) :
    placeAfter (before ++ [mark]) = .outside := by
  simp [hplace, Place.next]

theorem placeAfter_inside (hc : c ≠ mark) (hplace : placeAfter before = .inside mark) :
    placeAfter (before ++ [c]) = .inside mark := by
  simp [hplace, Place.next, hc]

/-- A quoted text up to its closing mark: a doubled mark closes the quotes and opens them again. -/
theorem scan_closed (hmark : IsMark mark) (body rest : List Char) (hplace : placeAfter before = .inside mark) :
    scan before (doubled mark body ++ mark :: rest) =
        (doubled mark body ++ [mark]).map .kept ++ scan (before ++ (doubled mark body ++ [mark])) rest ∧
      placeAfter (before ++ (doubled mark body ++ [mark])) = .outside := by
  induction body generalizing before with
  | nil => exact ⟨scan_inside hmark hplace, placeAfter_closed hplace⟩
  | cons c body ih =>
    by_cases hc : c = mark
    · have hclosed := placeAfter_closed hplace
      obtain ⟨hscan, hplace'⟩ := ih (placeAfter_opened hmark hclosed)
      rw [doubled, if_pos hc, List.cons_append, List.cons_append, scan_inside hmark hplace, scan_mark hmark, hscan]
      simpa using hplace'
    · obtain ⟨hscan, hplace'⟩ := ih (placeAfter_inside hc hplace)
      rw [doubled, if_neg hc, List.cons_append, scan_inside hmark hplace, hscan]
      simpa using hplace'

theorem scan_unclosed (hmark : IsMark mark) (hplace : placeAfter before = .inside mark)
    (h : closeQuoted mark cs = none) : scan before cs = cs.map .kept := by
  fun_induction closeQuoted mark cs generalizing before with
  | case1 => simp [scan]
  | case2 => simp at h
  | case3 c hc => rw [scan_inside hmark hplace, scan, List.map_singleton]
  | case4 c d cs hc ih =>
    rw [scan_inside hmark hplace, ih (placeAfter_inside hc hplace) (by simpa using h)]
    rfl
  | case5 d cs hd ih =>
    obtain rfl := not_not.1 hd
    have hclosed := placeAfter_closed hplace
    rw [scan_inside hmark hplace, scan_mark hmark, ih (placeAfter_opened hmark hclosed) (by simpa using h)]
    rfl
  | case6 => simp at h

/-- A place where a lexeme may end: outside of quotes unless the source ends, and not between the two colons of a
pair. -/
structure Between (before after : List Char) : Prop where
  outside : after ≠ [] → placeAfter before = .outside
  even : after.head? = some ':' → (endColons before).length % 2 = 0

theorem Between.start : Between [] cs :=
  ⟨fun _ => rfl, fun _ => rfl⟩

theorem Between.after_mark (hmark : IsMark mark) (hplace : placeAfter (before ++ [mark]) = .outside) :
    Between (before ++ [mark]) after :=
  ⟨fun _ => hplace, fun _ => by rw [endColons_concat hmark.ne_colon]; rfl⟩

/-- How the reader of characters gets over a lexeme. -/
structure Passes (before : List Char) (x : Lexeme) (rest : List Char) : Prop where
  scan_eq : scan before (x.chars ++ rest) = x.items ++ scan (before ++ x.chars) rest
  between : Between (before ++ x.chars) rest

theorem passes_quotedLexeme (hmark : IsMark mark) (hplace : placeAfter before = .outside)
    {make : List Char → Lexeme} (hchars : ∀ body, (make body).chars = quotedChars mark body)
    (hitems : ∀ body, (make body).items = (quotedChars mark body).map .kept) :
    Passes before (quotedLexeme mark make cs).1 (quotedLexeme mark make cs).2 := by
  have hopened := placeAfter_opened hmark hplace
  unfold quotedLexeme
  split
  · next body rest hclose =>
    obtain ⟨hscan, houtside⟩ := scan_closed hmark body rest hopened
    have hbefore : before ++ quotedChars mark body = before ++ [mark] ++ (doubled mark body ++ [mark]) := by
      simp [quotedChars]
    refine ⟨?_, ?_⟩
    · have hsource : quotedChars mark body ++ rest = mark :: (doubled mark body ++ mark :: rest) := by
        simp [quotedChars]
      rw [hchars, hitems, hbefore, hsource, scan_mark hmark, hscan]
      rfl
    · rw [hchars, hbefore]
      rw [← List.append_assoc] at houtside ⊢
      exact .after_mark hmark houtside
  · next hclose =>
    refine ⟨?_, fun hne => absurd rfl hne, fun h => by cases h⟩
    change scan before (mark :: cs ++ []) = (mark :: cs).map .kept ++ scan (before ++ mark :: cs) []
    rw [List.append_nil, scan_mark hmark, scan_unclosed hmark hopened hclose, scan, List.append_nil]
    rfl

theorem scan_colon (hnames : namesAt (before ++ [':']) cs = false) :
    scan before (':' :: cs) = .kept ':' :: scan (before ++ [':']) cs :=
  scan_kept hnames fun _ => rfl

theorem namesAt_even (heven : (endColons before).length % 2 = 0) : namesAt before after = false := by
  simp [namesAt, heven]

theorem namesAt_of_head (hhead : ∀ c ∈ after.head?, isNameStart c = false) : namesAt before after = false := by
  cases after with
  | nil => simp [namesAt]
  | cons c after => simp [namesAt, hhead c rfl]

theorem placeAfter_append (hafter : ∀ c ∈ after, ¬IsMark c) (hplace : placeAfter before = .outside) :
    placeAfter (before ++ after) = .outside := by
  induction after generalizing before with
  | nil => simpa using hplace
  | cons c after ih =>
    obtain ⟨hc, hafter⟩ := List.forall_mem_cons.1 hafter
    have hnext : placeAfter (before ++ [c]) = .outside := by
      rw [placeAfter_concat, hplace]
      exact if_neg hc
    simpa using ih hafter hnext

theorem passes_cast (hplace : placeAfter before = .outside) (heven : (endColons before).length % 2 = 0) :
    Passes before .cast cs := by
  have hpair : (endColons (before ++ [':'] ++ [':'])).length % 2 = 0 := by
    simp only [endColons_concat_colon, List.length_append, List.length_singleton]
    omega
  refine ⟨?_, ?_⟩
  · change scan before (':' :: ':' :: cs) = _
    rw [scan_colon (namesAt_of_head (by simp; rfl)), scan_colon (namesAt_even hpair)]
    simp [Lexeme.items, Lexeme.chars]
  · refine ⟨fun _ => placeAfter_append (by simp [IsMark, Lexeme.chars]) hplace, fun _ => ?_⟩
    rwa [List.append_assoc] at hpair

theorem passes_colon (hplace : placeAfter before = .outside)
    (hhead : ∀ c ∈ cs.head?, c ≠ ':' ∧ isNameStart c = false) : Passes before .colon cs := by
  refine ⟨?_, fun _ => by simp [Lexeme.chars, hplace, Place.next], fun h => absurd rfl (hhead ':' h).1⟩
  exact scan_colon (namesAt_of_head fun c hc => (hhead c hc).2)

theorem endColons_append {w : List Char} (hne : w ≠ []) (hw : ':' ∉ w) : endColons (before ++ w) = [] := by
  obtain ⟨w, d, rfl⟩ := (List.eq_nil_or_concat w).resolve_left hne
  rw [List.concat_eq_append, ← List.append_assoc]
  refine endColons_concat ?_
  rintro rfl
  exact hw (by simp)

theorem not_isMark_of_isNameChar (h : isNameChar c) : ¬IsMark c := by
  rintro (rfl | rfl)
  · exact absurd h (by decide)
  · exact absurd h (by decide)

theorem passes_placeholder (hplace : placeAfter before = .outside) (heven : (endColons before).length % 2 = 0)
    (hstart : isNameStart c) :
    Passes before
      (.placeholder (c :: cs.takeWhile isNameChar) (readPath (cs.dropWhile isNameChar)).1)
      (readPath (cs.dropWhile isNameChar)).2 := by
  have hodd : (endColons (before ++ [':'])).length % 2 = 1 := by
    simp only [endColons_concat_colon, List.length_append, List.length_singleton]
    omega
  have hnames : namesAt (before ++ [':']) (c :: cs) := by
    simp [namesAt, hplace, Place.next, hodd, hstart, -endColons_concat_colon]
  have hchar := isNameChar_of_isNameStart hstart
  have hparts := parts_readPath (cs.dropWhile isNameChar)
  have hsource := readPath_append (cs.dropWhile isNameChar)
  generalize hpath : readPath (cs.dropWhile isNameChar) = path at hparts hsource ⊢
  generalize hname : c :: cs.takeWhile isNameChar = name
  have hplain : ∀ d ∈ name ++ pathChars path.1, d = '.' ∨ isNameChar d := by
    intro d hd
    obtain hd | hd := List.mem_append.1 hd
    · rw [← hname] at hd
      obtain rfl | hd := List.mem_cons.1 hd
      · exact .inr hchar
      · exact .inr (List.mem_takeWhile_imp hd)
    · exact forall_mem_pathChars hparts d hd
  have hread : (Lexeme.placeholder name path.1).chars ++ path.2 = ':' :: c :: cs := by
    rw [Lexeme.chars, List.append_assoc, hsource, ← hname, List.cons_append, List.cons_append,
      List.takeWhile_append_dropWhile]
  refine ⟨?_, ?_⟩
  · rw [hread, scan, if_pos hnames]
    simp only [List.takeWhile_cons_of_pos hchar, List.dropWhile_cons_of_pos hchar, hpath, hname]
    simp [Lexeme.items, Lexeme.chars]
  · have hmarks : ∀ d ∈ (Lexeme.placeholder name path.1).chars, ¬IsMark d := by
      intro d hd
      obtain rfl | hd := List.mem_cons.1 hd
      · simp [IsMark]
      · obtain rfl | hd := hplain d hd
        · simp [IsMark]
        · exact not_isMark_of_isNameChar hd
    refine ⟨fun _ => placeAfter_append hmarks hplace, fun _ => ?_⟩
    have hcolons : ':' ∉ name ++ pathChars path.1 := by
      intro hmem
      obtain h | h := hplain _ hmem
      · cases h
      · exact ne_colon_of_isNameChar h rfl
    have hchars : before ++ (Lexeme.placeholder name path.1).chars = before ++ [':'] ++ (name ++ pathChars path.1) := by
      simp [Lexeme.chars]
    rw [hchars, endColons_append (by simp [← hname]) hcolons]
    rfl

theorem collapseAfter_eq (run cs : List Char) :
    collapseAfter run cs = collapsedRun (run ++ cs.takeWhile isBlank) ++ collapseLineBreaks (cs.dropWhile isBlank) := by
  induction cs generalizing run with
  | nil => simp [collapseAfter, collapseLineBreaks, collapsedRun]
  | cons c cs ih =>
    rw [collapseAfter]
    by_cases hc : isBlank c
    · rw [if_pos hc, ih, List.takeWhile_cons_of_pos hc, List.dropWhile_cons_of_pos hc]
      simp
    · rw [if_neg hc, List.takeWhile_cons_of_neg hc, List.dropWhile_cons_of_neg hc, collapseLineBreaks, collapseAfter,
        if_neg hc]
      simp [collapsedRun]

theorem collapse_blank (hc : isBlank c) : collapseLineBreaks (c :: cs) =
    collapsedRun (c :: cs.takeWhile isBlank) ++ collapseLineBreaks (cs.dropWhile isBlank) := by
  rw [collapseLineBreaks, collapseAfter, if_pos hc]
  exact collapseAfter_eq [c] cs

theorem collapse_other (hc : isBlank c = false) : collapseLineBreaks (c :: cs) = c :: collapseLineBreaks cs := by
  rw [collapseLineBreaks, collapseAfter, if_neg (by simp [hc])]
  rfl

theorem isPlain_of_isBlank (h : isBlank c) : isPlain c := by
  obtain ⟨hliteral, hname, hcolon⟩ := ne_of_isBlank h
  simp [isPlain, hliteral, hname, hcolon]

theorem not_isMark_of_isPlain (h : isPlain c) : ¬IsMark c := by
  rintro (rfl | rfl)
  · exact absurd h (by decide)
  · exact absurd h (by decide)

section
variable {run rest : List Char}

/-- Plain text is read like its characters: no run of blanks goes on beyond it. -/
theorem scan_plain (hrun : ∀ c ∈ run, isPlain c) (hrest : ∀ c ∈ rest.head?, isPlain c = false)
    (hplace : placeAfter before = .outside) :
    scan before (run ++ rest) = (collapseLineBreaks run).map .kept ++ scan (before ++ run) rest := by
  induction hlength : run.length using Nat.strong_induction_on generalizing before run with
  | _ n ih =>
    cases run with
    | nil => simp [collapseLineBreaks, collapseAfter, collapsedRun]
    | cons c run =>
      obtain ⟨hc, hrun⟩ := List.forall_mem_cons.1 hrun
      have hcolon : c ≠ ':' := by
        rintro rfl
        exact absurd hc (by decide)
      by_cases hblank : isBlank c
      · have hend : ∀ d ∈ rest.head?, isBlank d = false := by
          intro d hd
          cases hd' : isBlank d with
          | false => rfl
          | true =>
            have hplain := hrest d hd
            rw [isPlain_of_isBlank hd'] at hplain
            cases hplain
        have hblanks : ∀ d ∈ c :: run.takeWhile isBlank, isPlain d := by
          refine List.forall_mem_cons.2 ⟨hc, fun d hd => ?_⟩
          exact isPlain_of_isBlank (List.mem_takeWhile_imp hd)
        have hnext : placeAfter (before ++ c :: run.takeWhile isBlank) = .outside :=
          placeAfter_append (fun d hd => not_isMark_of_isPlain (hblanks d hd)) hplace
        have hshorter : (run.dropWhile isBlank).length < n := by
          have hle := List.length_dropWhile_le isBlank run
          rw [← hlength, List.length_cons]
          omega
        have hrest' := ih _ hshorter (fun d hd => hrun d ((List.dropWhile_sublist isBlank).subset hd)) hnext rfl
        rw [List.cons_append, scan, if_neg (by simp [namesAt_concat hcolon]), if_pos ⟨hplace, hblank⟩,
          takeWhile_append_of_head hend, dropWhile_append_of_head hend, hrest', collapse_blank hblank]
        simp
      · rw [Bool.not_eq_true] at hblank
        have hnext : placeAfter (before ++ [c]) = .outside :=
          placeAfter_append (by simpa using not_isMark_of_isPlain hc) hplace
        rw [List.cons_append, scan_kept (namesAt_concat hcolon) fun _ => hblank, collapse_other hblank,
          ih run.length (by simp at hlength; omega) hrun hnext rfl]
        simp

end

theorem passes_colonLexeme (hplace : placeAfter before = .outside) (heven : (endColons before).length % 2 = 0) :
    Passes before (colonLexeme cs).1 (colonLexeme cs).2 := by
  unfold colonLexeme
  cases cs with
  | nil => exact passes_colon hplace (by simp)
  | cons c cs =>
    dsimp only
    split
    · exact passes_cast hplace heven
    · next hcolon =>
      split
      · next hstart => exact passes_placeholder hplace heven hstart
      · next hstart => exact passes_colon hplace (by simpa [hcolon] using hstart)

theorem passes_plain {run rest : List Char} (hne : run ≠ []) (hrun : ∀ c ∈ run, isPlain c)
    (hrest : ∀ c ∈ rest.head?, isPlain c = false) (hplace : placeAfter before = .outside) :
    Passes before (.plain run) rest := by
  have hmarks : ∀ c ∈ run, ¬IsMark c := fun c hc => not_isMark_of_isPlain (hrun c hc)
  refine ⟨scan_plain hrun hrest hplace, fun _ => placeAfter_append hmarks hplace, fun _ => ?_⟩
  rw [Lexeme.chars, endColons_append hne fun hmem => absurd (hrun _ hmem) (by decide)]
  rfl

/-- One step: the reader of characters gets over the first lexeme. -/
theorem passes_firstLexeme (h : Between before (c :: cs)) :
    Passes before (firstLexeme c cs).1 (firstLexeme c cs).2 := by
  have hplace := h.outside (List.cons_ne_nil c cs)
  unfold firstLexeme
  split
  · exact passes_quotedLexeme (.inl rfl) hplace (fun _ => rfl) fun _ => rfl
  · next hliteral =>
    split
    · exact passes_quotedLexeme (.inr rfl) hplace (fun _ => rfl) fun _ => rfl
    · next hname =>
      split
      · next hcolon => exact passes_colonLexeme hplace (h.even (congrArg some hcolon))
      · next hcolon =>
        refine passes_plain (List.cons_ne_nil _ _) ?_ (head_dropWhile isPlain cs) hplace
        exact List.forall_mem_cons.2 ⟨by simp [isPlain, hliteral, hname, hcolon], fun d hd => List.mem_takeWhile_imp hd⟩

/-- A run: lexemes and characters tell the same of a whole source. -/
theorem items_lexemes (h : Between before cs) : (lexemes cs).flatMap Lexeme.items = scan before cs := by
  fun_induction lexemes cs generalizing before with
  | case1 => simp [scan]
  | case2 c cs ih =>
    obtain ⟨hscan, hbetween⟩ := passes_firstLexeme h
    rw [firstLexeme_append] at hscan
    rw [List.flatMap_cons, ih hbetween, hscan]

theorem attach_text {w : List Char} (hne : w ≠ []) (segments : List Segment) :
    Segment.attach (.text (String.ofList w)) segments = (w.map Item.kept).foldr Item.attach segments := by
  induction w with
  | nil => exact absurd rfl hne
  | cons c w ih =>
    cases w with
    | nil =>
      cases segments with
      | nil => rfl
      | cons s rest => cases s <;> rfl
    | cons d w =>
      rw [List.map_cons, List.foldr_cons, ← ih (List.cons_ne_nil d w)]
      have hsplit : String.ofList (c :: d :: w) = String.singleton c ++ String.ofList (d :: w) :=
        @String.ofList_append [c] (d :: w)
      rw [hsplit]
      cases segments with
      | nil => rfl
      | cons s rest =>
        cases s with
        | text s => simp [Segment.attach, Item.attach, String.append_assoc]
        | placeholder name path => rfl

theorem collapse_ne_nil (hne : cs ≠ []) : collapseLineBreaks cs ≠ [] := by
  cases cs with
  | nil => exact absurd rfl hne
  | cons c cs =>
    by_cases hc : isBlank c
    · rw [collapse_blank hc, collapsedRun]
      split <;> simp
    · rw [collapse_other (by simpa using hc)]
      exact List.cons_ne_nil _ _

theorem attach_segment {x : Lexeme} (hne : x.chars ≠ []) (segments : List Segment) :
    x.segment.attach segments = x.items.foldr Item.attach segments := by
  cases x with
  | placeholder name path => rfl
  | plain run => exact attach_text (collapse_ne_nil hne) segments
  | literal | quotedName | cast | colon | unclosed => exact attach_text hne segments

theorem chars_ne_nil_of_mem_lexemes {x : Lexeme} (hx : x ∈ lexemes cs) : x.chars ≠ [] := by
  fun_induction lexemes cs with
  | case1 => cases hx
  | case2 c cs ih =>
    obtain rfl | hx := List.mem_cons.1 hx
    · exact chars_firstLexeme_ne_nil c cs
    · exact ih hx

theorem attach_lexemes {xs : List Lexeme} (h : ∀ x ∈ xs, x.chars ≠ []) :
    (xs.map Lexeme.segment).foldr Segment.attach [] = (xs.flatMap Lexeme.items).foldr Item.attach [] := by
  induction xs with
  | nil => rfl
  | cons x xs ih =>
    obtain ⟨hx, hxs⟩ := List.forall_mem_cons.1 h
    rw [List.map_cons, List.foldr_cons, List.flatMap_cons, List.foldr_append, ih hxs, attach_segment hx]

theorem segments_eq_scan (sql : String) :
    (Raw.ofSql sql).segments = (scan [] (trimChars sql.toList)).foldr Item.attach [] := by
  rw [← items_lexemes .start]
  exact attach_lexemes fun x => chars_ne_nil_of_mem_lexemes

/-- A text of a fragment is not empty. -/
theorem text_ne_empty {sql s : String} (h : .text s ∈ (Raw.ofSql sql).segments) : s ≠ "" := by
  rw [segments_eq_scan] at h
  exact texts_attached.1 s h

/-- The segments of a fragment are what is read of its characters. The placeholders stand where outside of quotes an odd
run of colons meets the start of a name; with them in their places the segments are the source, its line breaks outside
of quotes collapsed; texts are not empty and stand apart. -/
theorem segments_ofSql (sql : String) :
    (Raw.ofSql sql).segments = (scan [] (trimChars sql.toList)).foldr Item.attach [] ∧
    List.Forall₂ (fun cut named => Named cut.2 named.1 named.2)
      ((cuts (trimChars sql.toList)).filter fun cut => namesAt cut.1 cut.2)
      ((Raw.ofSql sql).segments.filterMap Segment.named?) ∧
    (Raw.ofSql sql).segments.flatMap Segment.source = collapseOutside [] (trimChars sql.toList) ∧
    (∀ s, .text s ∈ (Raw.ofSql sql).segments → s ≠ "") ∧
    (Raw.ofSql sql).segments.IsChain fun s s' => s.isText = false ∨ s'.isText = false := by
  have hsegments : (Raw.ofSql sql).segments = (scan [] (trimChars sql.toList)).foldr Item.attach [] := by
    rw [← items_lexemes .start]
    exact attach_lexemes fun x => chars_ne_nil_of_mem_lexemes
  refine ⟨hsegments, ?_, ?_, ?_⟩
  · rw [hsegments, named_attached, filter_cuts_source]
    exact forall₂_named_scan
  · rw [hsegments, source_attached, flatMap_source_scan]
  · rw [hsegments]
    exact texts_attached

end EntitySql.Fragment
