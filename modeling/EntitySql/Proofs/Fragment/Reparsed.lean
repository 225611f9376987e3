import EntitySql.Proofs.Fragment.Parsed

/-! Fragments that are written back as text. Collapsing the blanks of a source moves no place at which a placeholder or
a quoted text begins or ends, so a reader of the collapsed source is always where a reader of the source is. Main
statement: a fragment that is written back and read again is the same fragment. -/
namespace EntitySql.Fragment
open Text
variable {c : Char} {before before' cs rest w : List Char}

/-- The text of a fragment: its texts as they are, its placeholders after a colon, their paths with dots. -/
def Raw.source (raw : Raw) : String :=
  String.ofList (raw.segments.flatMap Segment.source)

/-- Texts after which a source is read on in the same way. -/
structure SameState (before before' : List Char) : Prop where
  place : placeAfter before' = placeAfter before
  colons : (endColons before').length % 2 = (endColons before).length % 2

theorem SameState.refl (before : List Char) : SameState before before :=
  ⟨rfl, rfl⟩

theorem SameState.concat (h : SameState before before') (c : Char) : SameState (before ++ [c]) (before' ++ [c]) := by
  refine ⟨by rw [placeAfter_concat, placeAfter_concat, h.place], ?_⟩
  by_cases hc : c = ':'
  · subst c
    have hcolons := h.colons
    simp only [endColons_concat_colon, List.length_append, List.length_singleton]
    omega
  · rw [endColons_concat hc, endColons_concat hc]

theorem SameState.append (h : SameState before before') (w : List Char) : SameState (before ++ w) (before' ++ w) := by
  induction w generalizing before before' with
  | nil => simpa using h
  | cons c w ih => simpa using ih (h.concat c)

theorem SameState.namesAt_eq (h : SameState before before') {after after' : List Char}
    (hhead : after'.head?.any isNameStart = after.head?.any isNameStart) :
    namesAt before' after' = namesAt before after := by
  rw [namesAt, namesAt, h.place, h.colons, hhead]

theorem not_isMark_of_isBlank (h : isBlank c) : ¬IsMark c :=
  not_isMark_of_isPlain (isPlain_of_isBlank h)

/-- After a run of blanks outside of quotes it does not matter which blanks they were. -/
theorem sameState_blanks {v : List Char} (hplace : placeAfter before = .outside)
    (hplace' : placeAfter before' = .outside) (hw : w ≠ [] ∧ ∀ c ∈ w, isBlank c) (hv : v ≠ [] ∧ ∀ c ∈ v, isBlank c) :
    SameState (before ++ w) (before' ++ v) := by
  have hcolons : ∀ {run : List Char}, (∀ c ∈ run, isBlank c) → ':' ∉ run :=
    fun hrun hmem => (ne_of_isBlank (hrun _ hmem)).2.2 rfl
  refine ⟨?_, ?_⟩
  · rw [placeAfter_append (fun c hc => not_isMark_of_isBlank (hw.2 c hc)) hplace,
      placeAfter_append (fun c hc => not_isMark_of_isBlank (hv.2 c hc)) hplace']
  · rw [endColons_append hw.1 (hcolons hw.2), endColons_append hv.1 (hcolons hv.2)]

theorem blanks_takeWhile (hc : isBlank c) (cs : List Char) : ∀ d ∈ c :: cs.takeWhile isBlank, isBlank d :=
  List.forall_mem_cons.2 ⟨hc, fun _ hd => List.mem_takeWhile_imp hd⟩

theorem collapsedRun_collapsedRun (run : List Char) : collapsedRun (collapsedRun run) = collapsedRun run := by
  unfold collapsedRun
  by_cases h : '\n' ∈ run
  · rw [if_pos h]
    decide
  · rw [if_neg h, if_neg h]

theorem blanks_collapsedRun (hne : w ≠ []) (hw : ∀ c ∈ w, isBlank c) :
    collapsedRun w ≠ [] ∧ ∀ c ∈ collapsedRun w, isBlank c := by
  unfold collapsedRun
  split
  · exact ⟨by simp, by simp; decide⟩
  · exact ⟨hne, hw⟩

theorem collapseOutside_eq_nil : collapseOutside before cs = [] ↔ cs = [] := by
  cases cs with
  | nil => simp [collapseOutside]
  | cons c cs =>
    rw [collapseOutside]
    split
    · next h => simp [(blanks_collapsedRun (List.cons_ne_nil c _) (blanks_takeWhile h.2 cs)).1]
    · simp

/-- The first character stays, but for a blank, in whose place another one may stand. -/
theorem head_collapseOutside {p : Char → Bool} (hp : ∀ c, isBlank c → p c = false) :
    (collapseOutside before cs).head?.any p = cs.head?.any p := by
  cases cs with
  | nil => rw [collapseOutside]
  | cons c cs =>
    rw [collapseOutside]
    split
    · next h =>
      obtain ⟨hne, hblank⟩ := blanks_collapsedRun (List.cons_ne_nil c _) (blanks_takeWhile h.2 cs)
      obtain ⟨d, run, hrun⟩ := List.exists_cons_of_ne_nil hne
      rw [hrun] at hblank ⊢
      simp [hp c h.2, hp d (hblank d List.mem_cons_self)]
    · rfl

/-- The first character stays if it is no blank. -/
theorem head_collapseOutside_of_not_isBlank (h : ∀ c ∈ cs.head?, isBlank c = false) :
    (collapseOutside before cs).head? = cs.head? := by
  cases cs with
  | nil => rw [collapseOutside]
  | cons c cs =>
    rw [collapseOutside, if_neg (by simp [h c rfl])]
    rfl

theorem isNameChar_of_isBlank (h : isBlank c) : isNameChar c = false := by
  by_contra hname
  rw [Bool.not_eq_false] at hname
  rw [not_isBlank_of_isNameChar hname] at h
  cases h

theorem isNameStart_of_isBlank (h : isBlank c) : isNameStart c = false := by
  have hname := isNameChar_of_isBlank h
  rw [isNameChar, Bool.or_eq_false_iff] at hname
  exact hname.1

/-- The last character stays if it is no blank. -/
theorem getLast_collapseOutside (h : ∀ c ∈ cs.getLast?, isBlank c = false) :
    (collapseOutside before cs).getLast? = cs.getLast? := by
  fun_induction collapseOutside before cs with
  | case1 => rfl
  | case2 before c cs hblank ih =>
    have hsplit : c :: cs = c :: cs.takeWhile isBlank ++ cs.dropWhile isBlank := by
      rw [List.cons_append, List.takeWhile_append_dropWhile]
    have hne : cs.dropWhile isBlank ≠ [] := by
      intro hnil
      rw [hnil, List.append_nil] at hsplit
      rw [hsplit] at h
      have hlast := List.getLast?_eq_some_getLast (List.cons_ne_nil c (cs.takeWhile isBlank))
      have hnot := h _ hlast
      rw [blanks_takeWhile hblank.2 cs _ (List.getLast_mem _)] at hnot
      cases hnot
    rw [hsplit, List.getLast?_append_of_ne_nil _ hne] at h ⊢
    rw [List.getLast?_append_of_ne_nil _ (mt collapseOutside_eq_nil.1 hne), ih h]
  | case3 before c cs hblank ih =>
    by_cases hnil : cs = []
    · subst hnil
      rw [collapseOutside]
    · have hne : collapseOutside (before ++ [c]) cs ≠ [] := mt collapseOutside_eq_nil.1 hnil
      have hlast : (c :: cs).getLast? = cs.getLast? := List.getLast?_append_of_ne_nil [c] hnil
      rw [hlast] at h ⊢
      rw [← List.singleton_append, List.getLast?_append_of_ne_nil _ hne, ih h]

theorem forall_head_collapseOutside (h : ∀ c ∈ cs.head?, isNameChar c = false) :
    ∀ c ∈ (collapseOutside before cs).head?, isNameChar c = false := by
  have hany : (collapseOutside before cs).head?.any isNameChar = cs.head?.any isNameChar :=
    head_collapseOutside fun _ => isNameChar_of_isBlank
  exact (Option.any_eq_false _ _).1 (hany.trans ((Option.any_eq_false _ _).2 h))

/-- A dot before what is no character of a name stays one. -/
theorem forall_dot_collapseOutside (h : ∀ c rest, cs = '.' :: c :: rest → isNameChar c = false) :
    ∀ c rest, collapseOutside before cs = '.' :: c :: rest → isNameChar c = false := by
  intro d ds hdot
  cases cs with
  | nil =>
    rw [collapseOutside] at hdot
    cases hdot
  | cons c cs =>
    rw [collapseOutside] at hdot
    split at hdot
    · next hblank =>
      obtain ⟨hne, hblanks⟩ := blanks_collapsedRun (List.cons_ne_nil c _) (blanks_takeWhile hblank.2 cs)
      obtain ⟨b, run, hrun⟩ := List.exists_cons_of_ne_nil hne
      rw [hrun] at hdot hblanks
      obtain ⟨rfl, -⟩ := List.cons.inj hdot
      exact absurd (hblanks '.' List.mem_cons_self) (by decide)
    · obtain ⟨rfl, hcs⟩ := List.cons.inj hdot
      have hhead : ∀ c ∈ (collapseOutside (before ++ ['.']) cs).head?, isNameChar c = false := by
        refine forall_head_collapseOutside fun c hc => ?_
        obtain ⟨rest, rfl⟩ := List.head?_eq_some_iff.1 hc
        exact h c rest rfl
      exact hhead d (by rw [hcs]; rfl)

theorem readPath_pathChars {path : List (List Char)} (hpath : ∀ part ∈ path, part ≠ [] ∧ ∀ c ∈ part, isNameChar c)
    (hhead : ∀ c ∈ rest.head?, isNameChar c = false) (hdot : ∀ c cs, rest = '.' :: c :: cs → isNameChar c = false) :
    readPath (pathChars path ++ rest) = (path, rest) := by
  induction path with
  | nil =>
    rw [pathChars, List.flatMap_nil, List.nil_append]
    unfold readPath
    split
    · next c cs =>
      rw [if_neg (by simp [hdot c cs rfl])]
    · rfl
  | cons part path ih =>
    obtain ⟨⟨hne, hpart⟩, htail⟩ := List.forall_mem_cons.1 hpath
    obtain ⟨c, part, rfl⟩ := List.exists_cons_of_ne_nil hne
    obtain ⟨hc, hpart⟩ := List.forall_mem_cons.1 hpart
    -- what follows the part is the dot of the next one, or the rest
    have hnext : ∀ d ∈ (pathChars path ++ rest).head?, isNameChar d = false := by
      cases path with
      | nil => simpa [pathChars] using hhead
      | cons next path =>
        intro d hd
        cases hd
        rfl
    have hsource : pathChars ((c :: part) :: path) ++ rest = '.' :: c :: (part ++ (pathChars path ++ rest)) := by
      simp [pathChars]
    rw [hsource, readPath, if_pos hc, takeWhile_append_of_head hnext, dropWhile_append_of_head hnext,
      List.takeWhile_eq_self_iff.2 hpart, List.dropWhile_eq_nil_iff.2 hpart, List.nil_append, ih htail]

/-- A run of blanks outside of quotes, up to what is no blank, is read as one. -/
theorem scan_blanks (hplace : placeAfter before = .outside) (hne : w ≠ []) (hw : ∀ c ∈ w, isBlank c)
    (hrest : ∀ c ∈ rest.head?, isBlank c = false) :
    scan before (w ++ rest) = (collapsedRun w).map .kept ++ scan (before ++ w) rest := by
  obtain ⟨c, w, rfl⟩ := List.exists_cons_of_ne_nil hne
  obtain ⟨hc, hw⟩ := List.forall_mem_cons.1 hw
  rw [List.cons_append, scan, if_neg (by simp [namesAt_concat (ne_of_isBlank hc).2.2]), if_pos ⟨hplace, hc⟩,
    takeWhile_append_of_head hrest, dropWhile_append_of_head hrest, List.takeWhile_eq_self_iff.2 hw,
    List.dropWhile_eq_nil_iff.2 hw, List.nil_append]

/-- A placeholder is read where it is written, up to what does not belong to it. -/
theorem scan_placeholder {name : List Char} {path : List (List Char)}
    (hnames : namesAt (before ++ [':']) (name ++ (pathChars path ++ rest))) (hname : ∀ c ∈ name, isNameChar c)
    (hpath : ∀ part ∈ path, part ≠ [] ∧ ∀ c ∈ part, isNameChar c) (hhead : ∀ c ∈ rest.head?, isNameChar c = false)
    (hdot : ∀ c cs, rest = '.' :: c :: cs → isNameChar c = false) :
    scan before (':' :: (name ++ (pathChars path ++ rest))) =
      .placeholder name path :: scan (before ++ ':' :: name ++ pathChars path) rest := by
  have hnext : ∀ d ∈ (pathChars path ++ rest).head?, isNameChar d = false := by
    cases path with
    | nil => simpa [pathChars] using hhead
    | cons part path =>
      intro d hd
      cases hd
      rfl
  rw [scan, if_pos hnames]
  simp only [takeWhile_append_of_head hnext, dropWhile_append_of_head hnext, List.takeWhile_eq_self_iff.2 hname,
    List.dropWhile_eq_nil_iff.2 hname, List.nil_append, readPath_pathChars hpath hhead hdot]

/-- A source and its collapsed form are read alike. -/
theorem scan_collapseOutside (h : SameState before before') :
    scan before' (collapseOutside before cs) = scan before cs := by
  -- both readers go on side by side: one has read `before`, the other one its collapsed form
  fun_induction scan before cs generalizing before' with
  | case1 => rw [collapseOutside, scan]
  | case2 before c cs hnames name path =>
    rename_i ih
    obtain rfl := eq_colon_of_namesAt hnames
    have hname : ∀ d ∈ name, isNameChar d := fun d hd => List.mem_takeWhile_imp hd
    have hparts : ∀ part ∈ path.1, part ≠ [] ∧ ∀ c ∈ part, isNameChar c := parts_readPath _
    have hplain : ∀ d ∈ name ++ pathChars path.1, isBlank d = false := by
      intro d hd
      obtain hd | hd := List.mem_append.1 hd
      · exact not_isBlank_of_isNameChar (hname d hd)
      · obtain rfl | hd := forall_mem_pathChars hparts _ hd
        · rfl
        · exact not_isBlank_of_isNameChar hd
    have hsource : cs = (name ++ pathChars path.1) ++ path.2 := by
      rw [List.append_assoc, readPath_append, List.takeWhile_append_dropWhile]
    have hcollapsed : collapseOutside (before ++ [':']) cs = name ++ (pathChars path.1 ++
        collapseOutside (before ++ ':' :: name ++ pathChars path.1) path.2) := by
      conv_lhs => rw [hsource, collapseOutside_append hplain]
      simp
    have hnames' : namesAt (before' ++ [':']) (collapseOutside (before ++ [':']) cs) := by
      rwa [(h.concat ':').namesAt_eq (head_collapseOutside fun _ => isNameStart_of_isBlank)]
    -- what stops the placeholder is kept, or it is a blank in both
    have hhead : ∀ d ∈ path.2.head?, isNameChar d = false := head_readPath (head_dropWhile isNameChar cs)
    rw [collapseOutside, if_neg fun hblank => absurd hblank.2 (by decide), hcollapsed]
    rw [hcollapsed] at hnames'
    rw [scan_placeholder hnames' hname hparts (forall_head_collapseOutside hhead)
      (forall_dot_collapseOutside (readPath_maximal _))]
    refine congrArg _ (ih ?_)
    simpa using h.append (':' :: name ++ pathChars path.1)
  | case3 before c cs hnames hblank ih =>
    obtain ⟨hne, hblanks⟩ := blanks_collapsedRun (List.cons_ne_nil c _) (blanks_takeWhile hblank.2 cs)
    have hplace' := h.place.trans hblank.1
    have hstop := head_dropWhile isBlank cs
    have hstop' : ∀ d ∈ (collapseOutside (before ++ c :: cs.takeWhile isBlank) (cs.dropWhile isBlank)).head?,
        isBlank d = false := by
      rwa [head_collapseOutside_of_not_isBlank hstop]
    rw [collapseOutside, if_pos hblank, scan_blanks hplace' hne hblanks hstop', collapsedRun_collapsedRun]
    refine congrArg _ (ih ?_)
    exact sameState_blanks hblank.1 hplace' ⟨List.cons_ne_nil _ _, blanks_takeWhile hblank.2 cs⟩ ⟨hne, hblanks⟩
  | case4 before c cs hnames hblank ih =>
    have hnames' : namesAt (before' ++ [c]) (collapseOutside (before ++ [c]) cs) = namesAt (before ++ [c]) cs :=
      (h.concat c).namesAt_eq (head_collapseOutside fun _ => isNameStart_of_isBlank)
    rw [collapseOutside, if_neg hblank, scan, if_neg (by rw [hnames']; exact hnames), if_neg (by rwa [h.place]),
      ih (h.concat c)]

theorem dropWhile_eq_self_of_head {p : Char → Bool} (h : ∀ c ∈ cs.head?, p c = false) : cs.dropWhile p = cs := by
  rw [← List.nil_append cs, dropWhile_append_of_head h, List.dropWhile_nil]

/-- A text that begins and ends with no blank is trimmed. -/
theorem trimChars_eq_self (hhead : ∀ c ∈ cs.head?, isBlank c = false) (hlast : ∀ c ∈ cs.getLast?, isBlank c = false) :
    trimChars cs = cs := by
  rw [trimChars, dropWhile_eq_self_of_head hhead, dropWhile_eq_self_of_head (by rwa [List.head?_reverse]),
    List.reverse_reverse]

theorem head_trimChars (cs : List Char) : ∀ c ∈ (trimChars cs).head?, isBlank c = false := by
  intro c hc
  obtain ⟨rest, hrest⟩ := List.head?_eq_some_iff.1 hc
  have hprefix : trimChars cs <+: cs.dropWhile isBlank := by
    rw [← List.reverse_suffix, trimChars, List.reverse_reverse]
    exact List.dropWhile_suffix isBlank
  obtain ⟨after, hafter⟩ := hprefix
  refine head_dropWhile isBlank cs c ?_
  rw [← hafter, hrest]
  rfl

theorem getLast_trimChars (cs : List Char) : ∀ c ∈ (trimChars cs).getLast?, isBlank c = false := by
  rw [trimChars, List.getLast?_reverse]
  exact head_dropWhile isBlank _

theorem source_ofSql (sql : String) :
    (Raw.ofSql sql).source = String.ofList (collapseOutside [] (trimChars sql.toList)) := by
  rw [Raw.source, segments_eq_scan, source_attached, flatMap_source_scan]

theorem trimChars_collapseOutside (cs : List Char) :
    trimChars (collapseOutside [] (trimChars cs)) = collapseOutside [] (trimChars cs) := by
  refine trimChars_eq_self ?_ ?_
  · rw [head_collapseOutside_of_not_isBlank (head_trimChars cs)]
    exact head_trimChars cs
  · rw [getLast_collapseOutside (getLast_trimChars cs)]
    exact getLast_trimChars cs

/-- A fragment that is written back as text and read again is the same fragment. -/
theorem ofSql_source (sql : String) : Raw.ofSql (Raw.ofSql sql).source = Raw.ofSql sql := by
  have hsegments : (Raw.ofSql (Raw.ofSql sql).source).segments = (Raw.ofSql sql).segments := by
    rw [segments_eq_scan, segments_eq_scan sql, source_ofSql, String.toList_ofList, trimChars_collapseOutside,
      scan_collapseOutside (.refl [])]
  exact congrArg Raw.mk hsegments

end EntitySql.Fragment
