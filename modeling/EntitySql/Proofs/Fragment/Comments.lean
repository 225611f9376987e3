import EntitySql.Proofs.Fragment.Reparsed

/-! What a fragment says to a reader who knows the comments of SQL. A fragment itself knows quotes only: a line break
outside of its quotes becomes a space, also one that ends a comment. Main statement: the tokens stay as they are if the
line breaks that are collapsed do no more than separate tokens, and they always stay if `--` is read as text; of what
follows a comment whose line break is collapsed, nothing is read. -/
namespace EntitySql.Fragment
open Text

/-- Where a reader of SQL is. -/
inductive Spot where
  /-- In code or in a quoted text. -/
  | text (place : Place)
  | comment
  deriving DecidableEq

/-- A reader of SQL, with the tokens that are read and the characters of one that has begun. -/
structure Reader where
  spot : Spot
  begun : List Char
  tokens : List (List Char)

def Reader.start : Reader :=
  ⟨.text .outside, [], []⟩

/-- Ends the token that has begun, if there is one. -/
def Reader.cut (r : Reader) : Reader :=
  if r.begun = [] then r else { r with begun := [], tokens := r.tokens ++ [r.begun] }

/-- Reads a character. Outside of quotes a blank ends a token, and two dashes begin a comment, if there are comments;
it ends with the line. Everything else is taken as it is. -/
def Reader.step (comments : Bool) (r : Reader) (c : Char) : Reader :=
  match r.spot with
  | .comment => if c = '\n' then { r with spot := .text .outside } else r
  | .text place =>
    if place = .outside ∧ isBlank c then r.cut
    else if comments ∧ place = .outside ∧ c = '-' ∧ r.begun.getLast? = some '-' then
      { { r with begun := r.begun.dropLast }.cut with spot := .comment }
    else { r with spot := .text (place.next c), begun := r.begun ++ [c] }

def readSql (comments : Bool) (cs : List Char) : Reader :=
  cs.foldl (.step comments) .start

/-- The tokens of a text, as far as blanks tell them apart; quoted texts stand in them as they are written. -/
def sqlTokens (comments : Bool) (cs : List Char) : List (List Char) :=
  (readSql comments cs).cut.tokens

/-- The line breaks outside of what a fragment takes for quotes separate tokens: none ends a comment, and none stands in
a text that is quoted for SQL. -/
def BreaksSeparate (comments : Bool) (cs : List Char) : Prop :=
  ∀ before after, cs = before ++ '\n' :: after → placeAfter before = .outside →
    (readSql comments before).spot = .text .outside

variable {comments : Bool} {r : Reader} {c mark : Char} {before after cs rest w : List Char}

theorem readSql_append (a b : List Char) : readSql comments (a ++ b) = b.foldl (.step comments) (readSql comments a) :=
  List.foldl_append

theorem readSql_concat : readSql comments (cs ++ [c]) = (readSql comments cs).step comments c :=
  readSql_append cs [c]

@[simp]
theorem Reader.cut_spot (r : Reader) : r.cut.spot = r.spot := by
  unfold cut
  split <;> rfl

@[simp]
theorem Reader.cut_begun (r : Reader) : r.cut.begun = [] := by
  unfold cut
  split
  · assumption
  · rfl

theorem Reader.cut_eq_self (h : r.begun = []) : r.cut = r :=
  if_pos h

/-- What one character does. -/
inductive Steps (comments : Bool) (r : Reader) (c : Char) : Reader → Prop
  | skip (hspot : r.spot = .comment) (hc : c ≠ '\n') : Steps comments r c r
  | resume (hspot : r.spot = .comment) (hc : c = '\n') : Steps comments r c { r with spot := .text .outside }
  | blank (hspot : r.spot = .text .outside) (hc : isBlank c) : Steps comments r c r.cut
  | dashes (hcomments : comments) (hspot : r.spot = .text .outside) (hc : c = '-') :
    Steps comments r c { { r with begun := r.begun.dropLast }.cut with spot := .comment }
  | take (place : Place) (hspot : r.spot = .text place) (hc : place = .outside → isBlank c = false) :
    Steps comments r c { r with spot := .text (place.next c), begun := r.begun ++ [c] }

theorem steps_step (comments : Bool) (r : Reader) (c : Char) : Steps comments r c (r.step comments c) := by
  unfold Reader.step
  split
  · next hspot =>
    split
    · next hc => exact .resume hspot hc
    · next hc => exact .skip hspot hc
  · next place hspot =>
    split
    · next h => exact .blank (by rw [hspot, h.1]) h.2
    · next hblank =>
      split
      · next h => exact .dashes h.1 (by rw [hspot, h.2.1]) h.2.2.1
      · exact .take place hspot fun hplace => by simpa [hplace] using hblank

/-- What holds at the start and is kept by each character holds of every text that is read. -/
theorem readSql_induction {P : List Char → Reader → Prop} (start : P [] .start)
    (step : ∀ {cs c r next}, P cs r → Steps comments r c next → P (cs ++ [c]) next) (cs : List Char) :
    P cs (readSql comments cs) := by
  induction cs using List.reverseRecOn with
  | nil => exact start
  | append_singleton cs c ih =>
    rw [readSql_concat]
    exact step ih (steps_step comments _ c)

/-- Blanks in code end a token, however many there are. -/
theorem foldl_blanks (hspot : r.spot = .text .outside) (hne : w ≠ []) (hw : ∀ c ∈ w, isBlank c) :
    w.foldl (.step comments) r = r.cut := by
  induction w generalizing r with
  | nil => exact absurd rfl hne
  | cons c w ih =>
    obtain ⟨hc, hw⟩ := List.forall_mem_cons.1 hw
    have hstep : r.step comments c = r.cut := by
      rw [Reader.step, hspot]
      exact if_pos ⟨rfl, hc⟩
    rw [List.foldl_cons, hstep]
    by_cases hnil : w = []
    · rw [hnil, List.foldl_nil]
    · rw [ih (r.cut_spot.trans hspot) hnil hw, Reader.cut_eq_self r.cut_begun]

theorem Place.next_outside (hc : ¬IsMark c) : Place.next .outside c = .outside :=
  if_neg hc

/-- Only a quote opens a quoted text. -/
theorem isMark_of_spot : (readSql comments cs).spot = .text (.inside mark) → IsMark mark := by
  refine readSql_induction (P := fun _ r => r.spot = .text (.inside mark) → IsMark mark) (fun h => by cases h) ?_ cs
  intro cs c r next ih hsteps h
  cases hsteps with
  | skip => exact ih h
  | resume => cases h
  | blank => exact ih (r.cut_spot ▸ h)
  | dashes => cases h
  | take place hspot =>
    injection h with h
    cases place with
    | outside =>
      by_cases hc : IsMark c
      · cases (if_pos hc).symm.trans h
        exact hc
      · rw [Place.next_outside hc] at h
        cases h
    | inside opened =>
      rw [Place.next] at h
      split at h
      · cases h
      · cases h
        exact ih hspot

/-- A blank that ends no line moves nobody from where he is. -/
theorem spot_step_blank (hmark : ∀ mark, r.spot = .text (.inside mark) → IsMark mark) (hc : isBlank c)
    (hbreak : c ≠ '\n') : (r.step comments c).spot = r.spot := by
  generalize hnext : r.step comments c = next
  have hsteps := steps_step comments r c
  rw [hnext] at hsteps
  cases hsteps with
  | skip => rfl
  | resume hspot hc => exact absurd hc hbreak
  | blank => exact r.cut_spot
  | dashes hcomments hspot hdash =>
    subst hdash
    exact absurd hc (by decide)
  | take place hspot hcode =>
    rw [hspot]
    cases place with
    | outside => rw [hcode rfl] at hc; cases hc
    | inside mark =>
      have hne : c ≠ mark := by
        rintro rfl
        rw [(hmark c hspot).not_isBlank] at hc
        cases hc
      simp [Place.next, hne]

theorem spot_blanks (hw : ∀ c ∈ w, isBlank c) (hbreak : '\n' ∉ w) :
    (readSql comments (cs ++ w)).spot = (readSql comments cs).spot := by
  induction w using List.reverseRecOn with
  | nil => rw [List.append_nil]
  | append_singleton w c ih =>
    simp only [List.mem_append, List.mem_singleton, not_or] at hw hbreak
    rw [← List.append_assoc, readSql_concat,
      spot_step_blank (fun _ => isMark_of_spot) (hw c (.inr rfl)) (Ne.symm hbreak.2),
      ih (fun d hd => hw d (.inl hd)) hbreak.1]

theorem BreaksSeparate.spot (h : BreaksSeparate comments (before ++ w ++ rest)) (hplace : placeAfter before = .outside)
    (hw : ∀ c ∈ w, isBlank c) (hbreak : '\n' ∈ w) : (readSql comments before).spot = .text .outside := by
  obtain ⟨v, v', rfl, hfirst⟩ := List.eq_append_cons_of_mem hbreak
  have hv : ∀ c ∈ v, isBlank c := fun c hc => hw c (List.mem_append_left _ hc)
  rw [← spot_blanks hv hfirst]
  refine h (before ++ v) (v' ++ rest) (by simp) ?_
  exact placeAfter_append (fun c hc => not_isMark_of_isBlank (hv c hc)) hplace

/-- Collapsing moves no reader if the line breaks only separate tokens. -/
theorem foldl_collapseOutside (h : BreaksSeparate comments (before ++ cs)) :
    (collapseOutside before cs).foldl (.step comments) (readSql comments before) = readSql comments (before ++ cs) := by
  fun_induction collapseOutside before cs with
  | case1 before => rw [List.append_nil, List.foldl_nil]
  | case2 before c cs hblank ih =>
    have hrun := blanks_takeWhile hblank.2 cs
    have hsource : before ++ c :: cs = before ++ c :: cs.takeWhile isBlank ++ cs.dropWhile isBlank := by
      rw [List.append_assoc, List.cons_append, List.takeWhile_append_dropWhile]
    rw [hsource] at h ⊢
    have hcollapsed : (collapsedRun (c :: cs.takeWhile isBlank)).foldl (.step comments) (readSql comments before) =
        readSql comments (before ++ c :: cs.takeWhile isBlank) := by
      rw [readSql_append]
      by_cases hbreak : '\n' ∈ c :: cs.takeWhile isBlank
      · -- the run ends a token, and so does the space in its place
        have hspot := h.spot hblank.1 hrun hbreak
        obtain ⟨hne, hblanks⟩ := blanks_collapsedRun (List.cons_ne_nil c _) hrun
        rw [foldl_blanks hspot hne hblanks, foldl_blanks hspot (List.cons_ne_nil c _) hrun]
      · rw [collapsedRun, if_neg hbreak]
    rw [List.foldl_append, hcollapsed, ih h]
  | case3 before c cs hblank ih =>
    have hsource : before ++ c :: cs = before ++ [c] ++ cs := List.append_cons before c cs
    rw [hsource] at h ⊢
    rw [List.foldl_cons, ← readSql_concat, ih h]

theorem readSql_collapseOutside (h : BreaksSeparate comments cs) :
    readSql comments (collapseOutside [] cs) = readSql comments cs := by
  rw [← List.nil_append cs] at h
  exact foldl_collapseOutside h

/-- Where no comment begins, a reader of SQL is where a fragment takes him to be. -/
theorem spot_readSql (h : ∀ before, before <+: cs → (readSql comments before).spot ≠ .comment) :
    (readSql comments cs).spot = .text (placeAfter cs) := by
  induction cs using List.reverseRecOn with
  | nil => rfl
  | append_singleton cs c ih =>
    have hspot := ih fun before hbefore => h before (hbefore.trans (List.prefix_append cs [c]))
    have hnext := h (cs ++ [c]) List.prefix_rfl
    rw [readSql_concat] at hnext ⊢
    rw [placeAfter_concat]
    generalize readSql comments cs = r at hspot hnext ⊢
    generalize hr : r.step comments c = next at hnext ⊢
    have hsteps := steps_step comments r c
    rw [hr] at hsteps
    cases hsteps with
    | skip hcomment => exact absurd hcomment hnext
    | resume hcomment =>
      rw [hcomment] at hspot
      cases hspot
    | blank hcode hc =>
      rw [hcode] at hspot
      injection hspot with hplace
      rw [Reader.cut_spot, hcode, ← hplace, Place.next_outside (not_isMark_of_isBlank hc)]
    | dashes => exact absurd rfl hnext
    | take place htext hc =>
      rw [htext] at hspot
      injection hspot with hplace
      rw [← hplace]

theorem breaksSeparate_of_no_comment (h : ∀ before, before <+: cs → (readSql comments before).spot ≠ .comment) :
    BreaksSeparate comments cs := by
  rintro before after rfl hplace
  rw [spot_readSql fun v hv => h v (hv.trans (List.prefix_append before _)), hplace]

theorem spot_ne_comment (cs : List Char) : (readSql false cs).spot ≠ .comment := by
  refine readSql_induction (P := fun _ r => r.spot ≠ .comment) (fun h => by cases h) ?_ cs
  intro cs c r next ih hsteps
  cases hsteps with
  | skip => exact ih
  | resume hspot => exact absurd hspot ih
  | blank => rwa [Reader.cut_spot]
  | dashes hcomments => cases hcomments
  | take => exact fun h => by cases h

theorem begun_of_comment : (readSql comments cs).spot = .comment → (readSql comments cs).begun = [] := by
  refine readSql_induction (P := fun _ r => r.spot = .comment → r.begun = []) (fun h => by cases h) ?_ cs
  intro cs c r next ih hsteps h
  cases hsteps with
  | skip hspot => exact ih hspot
  | resume => cases h
  | blank => exact Reader.cut_begun _
  | dashes => exact Reader.cut_begun _
  | take => cases h

/-- A comment that does not end is not read. -/
theorem foldl_comment (hspot : r.spot = .comment) (hw : '\n' ∉ w) : w.foldl (.step comments) r = r := by
  induction w with
  | nil => rfl
  | cons c w ih =>
    obtain ⟨hc, hw⟩ := List.ne_and_not_mem_of_not_mem_cons hw
    rw [List.foldl_cons, Reader.step, hspot]
    dsimp only
    rw [if_neg hc.symm, ih hw]

/-- A reader with other tokens read before. -/
def Reader.withTokens (tokens : List (List Char)) (r : Reader) : Reader :=
  { r with tokens := tokens ++ r.tokens }

theorem Reader.cut_withTokens (tokens : List (List Char)) (r : Reader) :
    (r.withTokens tokens).cut = r.cut.withTokens tokens := by
  unfold cut withTokens
  split
  · rfl
  · simp

theorem Reader.step_withTokens (tokens : List (List Char)) (r : Reader) (c : Char) :
    (r.withTokens tokens).step comments c = (r.step comments c).withTokens tokens := by
  have hsame : (r.withTokens tokens).spot = r.spot ∧ (r.withTokens tokens).begun = r.begun := ⟨rfl, rfl⟩
  unfold step
  rw [hsame.1, hsame.2]
  cases r.spot with
  | comment => dsimp only; split <;> rfl
  | text place =>
    dsimp only
    split
    · exact cut_withTokens tokens r
    · split
      · exact congrArg (fun r : Reader => { r with spot := .comment })
          (cut_withTokens tokens ⟨.text place, r.begun.dropLast, r.tokens⟩)
      · rfl

/-- The tokens that are read already change nothing of those to come. -/
theorem foldl_withTokens (tokens : List (List Char)) (r : Reader) :
    w.foldl (.step comments) (r.withTokens tokens) = (w.foldl (.step comments) r).withTokens tokens := by
  induction w generalizing r with
  | nil => rfl
  | cons c w ih => rw [List.foldl_cons, Reader.step_withTokens, ih, List.foldl_cons]

theorem not_mem_collapsedRun (run : List Char) : '\n' ∉ collapsedRun run := by
  unfold collapsedRun
  split
  · decide
  · assumption

/-- Of the line breaks only those inside of quotes are kept. -/
theorem not_mem_collapseOutside (h : ∀ v v', cs = v ++ '\n' :: v' → placeAfter (before ++ v) = .outside) :
    '\n' ∉ collapseOutside before cs := by
  fun_induction collapseOutside before cs with
  | case1 => exact List.not_mem_nil
  | case2 before c cs hblank ih =>
    rw [List.mem_append, not_or]
    refine ⟨not_mem_collapsedRun _, ih fun v v' hv => ?_⟩
    rw [List.append_assoc]
    refine h _ v' ?_
    rw [List.append_assoc, ← hv, List.cons_append, List.takeWhile_append_dropWhile]
  | case3 before c cs hblank ih =>
    rw [List.mem_cons, not_or]
    refine ⟨?_, ih fun v v' hv => ?_⟩
    · rintro rfl
      have hplace := h [] cs rfl
      rw [List.append_nil] at hplace
      exact hblank ⟨hplace, by decide⟩
    · rw [List.append_assoc]
      exact h _ v' (by rw [hv]; rfl)

theorem collapseOutside_append_of_head (hhead : ∀ c ∈ rest.head?, isBlank c = false) :
    collapseOutside before (cs ++ rest) = collapseOutside before cs ++ collapseOutside (before ++ cs) rest := by
  fun_induction collapseOutside before cs with
  | case1 => rw [List.nil_append, List.nil_append, List.append_nil]
  | case2 before c cs hblank ih =>
    rw [List.cons_append, collapseOutside, if_pos hblank, takeWhile_append_of_head hhead,
      dropWhile_append_of_head hhead, ih]
    simp [List.takeWhile_append_dropWhile]
  | case3 before c cs hblank ih =>
    rw [List.cons_append, collapseOutside, if_neg hblank, ih]
    simp

/-- Where the line breaks after the beginning of a comment are collapsed, the comment does not end. -/
theorem readSql_swallowed (hbefore : BreaksSeparate comments before)
    (hcomment : (readSql comments (before ++ ['-', '-'])).spot = .comment)
    (hrest : ∀ v v', rest = v ++ '\n' :: v' → placeAfter (before ++ ['-', '-'] ++ v) = .outside) :
    readSql comments (collapseOutside [] (before ++ (['-', '-'] ++ rest))) =
      readSql comments (before ++ ['-', '-']) := by
  have hdashes : ∀ c ∈ ['-', '-'], isBlank c = false := by
    intro c hc
    obtain rfl : c = '-' := by simpa using hc
    rfl
  have hhead : ∀ c ∈ (['-', '-'] ++ rest).head?, isBlank c = false := by
    intro c hc
    cases hc
    rfl
  rw [collapseOutside_append_of_head hhead, collapseOutside_append hdashes, readSql_append,
    readSql_collapseOutside hbefore, List.foldl_append, ← readSql_append, foldl_comment hcomment]
  exact not_mem_collapseOutside hrest

/-- A comment that ends with its line is read on behind it. -/
theorem sqlTokens_resumed {line : List Char} (hcomment : (readSql comments before).spot = .comment)
    (hline : '\n' ∉ line) : sqlTokens comments (before ++ (line ++ '\n' :: after)) =
      sqlTokens comments before ++ sqlTokens comments after := by
  have hbegun := begun_of_comment hcomment
  have hresume : (readSql comments before).step comments '\n' =
      Reader.start.withTokens (readSql comments before).tokens := by
    rw [Reader.step, hcomment]
    simp [Reader.withTokens, Reader.start, hbegun]
  unfold sqlTokens
  rw [readSql_append, List.foldl_append, foldl_comment hcomment hline, List.foldl_cons, hresume, foldl_withTokens,
    Reader.cut_withTokens, Reader.cut_eq_self hbegun]
  rfl

/-- A fragment and its text have the same tokens for a reader who takes two dashes for a part of the text, and for every
reader if the line breaks outside of quotes only separate tokens, as they do where no comment begins. Otherwise a
comment takes the place of all that follows it, if its line break and the later ones are outside of quotes. -/
theorem sqlTokens_source (sql : String) :
    let source := trimChars sql.toList
    let written := (Raw.ofSql sql).source.toList
    sqlTokens false written = sqlTokens false source ∧
    (BreaksSeparate true source → sqlTokens true written = sqlTokens true source) ∧
    ((∀ before, before <+: source → (readSql true before).spot ≠ .comment) →
      sqlTokens true written = sqlTokens true source) ∧
    ∀ before rest, source = before ++ (['-', '-'] ++ rest) → BreaksSeparate true before →
      (readSql true (before ++ ['-', '-'])).spot = .comment →
      (∀ v v', rest = v ++ '\n' :: v' → placeAfter (before ++ ['-', '-'] ++ v) = .outside) →
      sqlTokens true written = sqlTokens true (before ++ ['-', '-']) ∧
      ∀ line after, rest = line ++ '\n' :: after → '\n' ∉ line →
        sqlTokens true source = sqlTokens true (before ++ ['-', '-']) ++ sqlTokens true after := by
  dsimp only
  rw [source_ofSql, String.toList_ofList]
  have hsame : ∀ {comments}, BreaksSeparate comments (trimChars sql.toList) →
      sqlTokens comments (collapseOutside [] (trimChars sql.toList)) = sqlTokens comments (trimChars sql.toList) :=
    fun h => congrArg (fun r : Reader => r.cut.tokens) (readSql_collapseOutside h)
  refine ⟨hsame ?_, hsame, fun h => hsame (breaksSeparate_of_no_comment h), ?_⟩
  · exact breaksSeparate_of_no_comment fun before _ => spot_ne_comment before
  · intro before rest hsource hbefore hcomment hrest
    rw [hsource]
    refine ⟨congrArg (fun r : Reader => r.cut.tokens) (readSql_swallowed hbefore hcomment hrest), ?_⟩
    rintro line after rfl hline
    rw [← List.append_assoc]
    exact sqlTokens_resumed hcomment hline

/-- Here the comment takes the place of the second condition. -/
theorem sqlTokens_swallowed :
    sqlTokens true (Raw.ofSql "A = 1 -- note\nAND B = 2").source.toList = sqlTokens true "A = 1 --".toList ∧
    sqlTokens true "A = 1 -- note\nAND B = 2".toList =
      sqlTokens true "A = 1 --".toList ++ sqlTokens true "AND B = 2".toList := by
  have hsource : trimChars "A = 1 -- note\nAND B = 2".toList =
      "A = 1 ".toList ++ (['-', '-'] ++ " note\nAND B = 2".toList) := by cbv
  have hbefore : BreaksSeparate true "A = 1 ".toList := by
    intro v v' hv _
    have hbreak : '\n' ∈ "A = 1 ".toList := by simp [hv]
    exact absurd hbreak (by decide)
  have hmarks : ∀ c ∈ " note\nAND B = 2".toList, ¬IsMark c := by simp [IsMark]
  have hrest : ∀ v v', " note\nAND B = 2".toList = v ++ '\n' :: v' →
      placeAfter ("A = 1 ".toList ++ ['-', '-'] ++ v) = .outside := by
    intro v v' hv
    exact placeAfter_append (fun c hc => hmarks c (by simp [hv, hc])) (by cbv)
  obtain ⟨hwritten, hresumed⟩ := (sqlTokens_source "A = 1 -- note\nAND B = 2").2.2.2 _ _ hsource hbefore (by cbv) hrest
  have hline : " note\nAND B = 2".toList = " note".toList ++ '\n' :: "AND B = 2".toList := by cbv
  exact ⟨hwritten, hresumed _ _ hline (by decide)⟩

/-- What is read of a fragment's text is not always what is read of its source. -/
theorem sqlTokens_source_ne : sqlTokens true (Raw.ofSql "A = 1 -- note\nAND B = 2").source.toList ≠
    sqlTokens true (trimChars "A = 1 -- note\nAND B = 2".toList) := by
  have hwritten : sqlTokens true (Raw.ofSql "A = 1 -- note\nAND B = 2").source.toList = [['A'], ['='], ['1']] := by cbv
  have hsource : (sqlTokens true (trimChars "A = 1 -- note\nAND B = 2".toList)).length = 7 := by cbv
  intro h
  rw [← h, hwritten] at hsource
  cases hsource

end EntitySql.Fragment
