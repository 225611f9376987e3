import EntitySql.Proofs.Fragment.Rules

/-! Tokens and the source that they are read from. Each token covers the bytes from the end of the one before it to its
own, so nothing of the source is lost or repeated, and each is the longest that the rules allow there. Main statement:
the tokens of a source are such tokens, and no others are. -/
namespace EntitySql.Fragment
variable {source : String} {start : Nat} {c : Char} {cs : List Char} {x : Lexeme} {xs : List Lexeme} {t : Token}
  {before after : List Token}

/-- The last token of a source: its end. -/
def Token.atEnd (source : String) : Token :=
  ⟨.endOfInput, source.utf8ByteSize, source.utf8ByteSize, ""⟩

def textOf (tokens : List Token) : String :=
  String.join (tokens.map Token.text)

/-- Tokens that make up a source, from its first byte to its end, where the last of them stands; no two texts are
neighbours. -/
structure MakeUp (source : String) (tokens : List Token) : Prop where
  length_le : tokens.length ≤ source.length + 1
  starts : ∀ t ∈ tokens.head?, t.start = 0
  touch : tokens.IsChain fun s t => t.start = s.stop
  ends : ∃ front, tokens = front ++ [.atEnd source] ∧ ∀ t ∈ front, t.kind ≠ .endOfInput
  text_eq : textOf tokens = source
  texts_apart : tokens.IsChain fun s t => s.kind = .text → t.kind ≠ .text

/-- A token before the end of a source, with the tokens after it: the bytes that it covers and how it is spelled. -/
structure Reads (source : String) (t : Token) (after : List Token) : Prop where
  nonempty : t.start < t.stop
  start_valid : String.Pos.Raw.IsValid source ⟨t.start⟩
  stop_valid : String.Pos.Raw.IsValid source ⟨t.stop⟩
  bytes_eq : source.toByteArray.extract t.start t.stop = t.text.toByteArray
  spelled : t.kind ≠ .invalid → t.kind.Matches t.text.toList
  longest : ∀ kind w, TokenKind.Matches kind w → w <+: (textOf (t :: after)).toList → w.length ≤ t.text.toList.length
  /-- Only a quote that nothing closes follows no rule, and then it takes all that is left. -/
  invalid_iff : t.kind = .invalid ↔ Unclosed (textOf (t :: after)).toList
  ends : t.kind = .invalid → after = [.atEnd source]

/-- Tokens that make up a source and are read by the rules. -/
structure Tokenizes (source : String) (tokens : List Token) : Prop extends MakeUp source tokens where
  reads : ∀ before t after, tokens = before ++ t :: after → t.kind ≠ .endOfInput → Reads source t after

theorem byteLength_eq (cs : List Char) : byteLength cs = (String.ofList cs).utf8ByteSize := by
  rw [String.utf8ByteSize_ofList]
  induction cs with
  | nil => rfl
  | cons c cs ih => rw [byteLength, ih, String.utf8Len_cons, Nat.add_comm]

theorem start_head_tokensFrom : ∀ t ∈ (tokensFrom start xs).head?, t.start = start := by
  intro t ht
  cases xs with
  | nil =>
    cases ht
    rfl
  | cons x xs =>
    cases ht
    rfl

theorem tokensFrom_concat (start : Nat) (xs : List Lexeme) :
    ∃ front, tokensFrom start xs = front ++ [⟨.endOfInput, start + byteLength (xs.flatMap Lexeme.chars),
      start + byteLength (xs.flatMap Lexeme.chars), ""⟩] ∧ ∀ t ∈ front, t.kind ≠ .endOfInput := by
  induction xs generalizing start with
  | nil => exact ⟨[], rfl, by simp⟩
  | cons x xs ih =>
    obtain ⟨front, hfront, hkinds⟩ := ih (start + byteLength x.chars)
    have hlength : byteLength ((x :: xs).flatMap Lexeme.chars) =
        byteLength x.chars + byteLength (xs.flatMap Lexeme.chars) := by
      simp [byteLength_eq, String.ofList_append]
    have hkind : x.kind ≠ .endOfInput := by cases x <;> exact TokenKind.noConfusion
    refine ⟨⟨x.kind, start, start + byteLength x.chars, String.ofList x.chars⟩ :: front, ?_, ?_⟩
    · rw [tokensFrom, hfront, hlength, Nat.add_assoc]
      rfl
    · exact List.forall_mem_cons.2 ⟨hkind, hkinds⟩

theorem textOf_cons (t : Token) (after : List Token) : textOf (t :: after) = t.text ++ textOf after :=
  String.join_cons

theorem textOf_tokensFrom : textOf (tokensFrom start xs) = String.ofList (xs.flatMap Lexeme.chars) := by
  induction xs generalizing start with
  | nil => rfl
  | cons x xs ih =>
    rw [tokensFrom, textOf_cons, ih, List.flatMap_cons, String.ofList_append]

/-- Tokens before the end are lexemes, placed by the bytes of the lexemes before them. -/
theorem split_tokensFrom (h : tokensFrom start xs = before ++ t :: after) (ht : t.kind ≠ .endOfInput) :
    ∃ ys x zs, xs = ys ++ x :: zs ∧ t = ⟨x.kind, start + byteLength (ys.flatMap Lexeme.chars),
      start + byteLength (ys.flatMap Lexeme.chars) + byteLength x.chars, String.ofList x.chars⟩ ∧
      after = tokensFrom t.stop zs := by
  induction before generalizing start xs with
  | nil =>
    cases xs with
    | nil =>
      obtain ⟨rfl, rfl⟩ := List.cons.inj h
      exact absurd rfl ht
    | cons x zs =>
      obtain ⟨rfl, rfl⟩ := List.cons.inj h
      exact ⟨[], x, zs, rfl, rfl, rfl⟩
  | cons s before ih =>
    cases xs with
    | nil => simp [tokensFrom] at h
    | cons y xs =>
      obtain ⟨ys, x, zs, rfl, hplace, hafter⟩ := ih (List.cons.inj h).2
      refine ⟨y :: ys, x, zs, rfl, ?_, hafter⟩
      rw [hplace]
      simp [byteLength_eq, String.ofList_append, Nat.add_assoc]

/-- A lexeme of a source is the first one of what is left after the lexemes before it. -/
theorem split_lexemes {ys zs : List Lexeme} (h : lexemes cs = ys ++ x :: zs) :
    ∃ c rest, cs = ys.flatMap Lexeme.chars ++ c :: rest ∧ x = (firstLexeme c rest).1 ∧
      zs = lexemes (firstLexeme c rest).2 := by
  induction ys generalizing cs with
  | nil =>
    cases cs with
    | nil => simp [lexemes] at h
    | cons c rest =>
      rw [lexemes] at h
      obtain ⟨rfl, rfl⟩ := List.cons.inj h
      exact ⟨c, rest, rfl, rfl, rfl⟩
  | cons y ys ih =>
    cases cs with
    | nil => simp [lexemes] at h
    | cons d ds =>
      rw [lexemes] at h
      obtain ⟨rfl, htail⟩ := List.cons.inj h
      obtain ⟨c, rest, hrest, hx, hzs⟩ := ih htail
      refine ⟨c, rest, ?_, hx, hzs⟩
      rw [List.flatMap_cons, List.append_assoc, ← hrest, firstLexeme_append]

/-- A token is the first lexeme of what its source holds from its first byte on. -/
theorem split_tokenize (h : tokenize source = before ++ t :: after) (ht : t.kind ≠ .endOfInput) :
    ∃ front c rest, source = front ++ String.ofList (c :: rest) ∧ t.start = front.utf8ByteSize ∧
      t.stop = front.utf8ByteSize + t.text.utf8ByteSize ∧ t.kind = (firstLexeme c rest).1.kind ∧
      t.text.toList = (firstLexeme c rest).1.chars ∧ after = tokensFrom t.stop (lexemes (firstLexeme c rest).2) := by
  obtain ⟨ys, x, zs, hxs, rfl, hafter⟩ := split_tokensFrom h ht
  obtain ⟨c, rest, hrest, rfl, rfl⟩ := split_lexemes hxs
  refine ⟨String.ofList (ys.flatMap Lexeme.chars), c, rest, ?_, ?_, ?_, rfl, String.toList_ofList, hafter⟩
  · rw [← String.ofList_append, ← hrest, String.ofList_toList]
  · rw [byteLength_eq, Nat.zero_add]
  · rw [byteLength_eq, byteLength_eq, Nat.zero_add]

theorem reads_of_split (h : tokenize source = before ++ t :: after) (ht : t.kind ≠ .endOfInput) :
    Reads source t after := by
  obtain ⟨front, c, rest, hsource, hstart, hstop, hkind, htext, hafter⟩ := split_tokenize h ht
  have hleft : String.ofList (c :: rest) = t.text ++ String.ofList (firstLexeme c rest).2 := by
    rw [← firstLexeme_append, String.ofList_append, ← htext, String.ofList_toList]
  have hwhole : source = front ++ t.text ++ String.ofList (firstLexeme c rest).2 := by
    rw [hsource, hleft, String.append_assoc]
  have hrest : (textOf (t :: after)).toList = c :: rest := by
    rw [textOf_cons, hafter, textOf_tokensFrom, flatMap_chars_lexemes, ← hleft, String.toList_ofList]
  have hne : t.text.toList ≠ [] := by
    rw [htext]
    exact chars_firstLexeme_ne_nil c rest
  exact {
    nonempty := by
      have hpos : t.text.utf8ByteSize ≠ 0 := by simpa using hne
      rw [hstart, hstop]
      omega
    start_valid := String.Pos.Raw.isValid_iff_exists_append.2 ⟨front, _, hsource, by rw [hstart]; rfl⟩
    stop_valid := by
      refine String.Pos.Raw.isValid_iff_exists_append.2 ⟨front ++ t.text, _, hwhole, ?_⟩
      rw [hstop, ← String.utf8ByteSize_append]
      rfl
    bytes_eq := by
      rw [hwhole, String.append_assoc, String.toByteArray_append, hstart, hstop, ← Nat.add_zero front.utf8ByteSize]
      rw [Nat.add_assoc, ByteArray.extract_append_size_add' String.size_toByteArray.symm, String.toByteArray_append,
        Nat.zero_add]
      exact ByteArray.extract_append_eq_left String.size_toByteArray.symm
    spelled := by
      rw [hkind, htext]
      exact matches_firstLexeme
    longest := by
      intro kind w hw hinit
      rw [hrest] at hinit
      rw [htext]
      exact length_le_firstLexeme hw hinit
    invalid_iff := by
      rw [hkind, hrest]
      exact invalid_firstLexeme.1
    ends := by
      intro hinvalid
      have hend := invalid_firstLexeme.2 (hkind.symm.trans hinvalid)
      rw [hend] at hafter hwhole
      rw [hafter, lexemes, tokensFrom, hstop, ← String.utf8ByteSize_append, Token.atEnd, hwhole]
      simp }

theorem isChain_tokensFrom (start : Nat) (xs : List Lexeme) :
    (tokensFrom start xs).IsChain fun s t => t.start = s.stop := by
  induction xs generalizing start with
  | nil => exact .singleton _
  | cons x xs ih => exact List.isChain_cons.2 ⟨start_head_tokensFrom, ih _⟩

theorem length_lexemes_le (cs : List Char) : (lexemes cs).length ≤ cs.length := by
  fun_induction lexemes cs with
  | case1 => exact Nat.le_refl 0
  | case2 c cs ih =>
    have hshorter := length_firstLexeme_lt c cs
    rw [List.length_cons]
    omega

theorem length_tokensFrom (start : Nat) (xs : List Lexeme) : (tokensFrom start xs).length = xs.length + 1 := by
  induction xs generalizing start with
  | nil => rfl
  | cons x xs ih => rw [tokensFrom, List.length_cons, ih, List.length_cons]

/-- What follows a text is the end, or begins with a quote or a colon. -/
theorem kind_ne_text {next : Token} (h : tokenize source = before ++ t :: next :: after) (ht : t.kind = .text) :
    next.kind ≠ .text := by
  obtain ⟨front, c, rest, -, -, -, hkind, -, hafter⟩ := split_tokenize h (by rw [ht]; decide)
  have hstop := head_of_plain (hkind.symm.trans ht)
  cases hrest : (firstLexeme c rest).2 with
  | nil =>
    rw [hrest, lexemes] at hafter
    obtain ⟨rfl, -⟩ := List.cons.inj hafter
    exact TokenKind.noConfusion
  | cons d ds =>
    rw [hrest, lexemes] at hafter
    obtain ⟨rfl, -⟩ := List.cons.inj hafter
    rw [hrest] at hstop
    intro htext
    have hplain := isPlain_of_kind htext
    rw [hstop d rfl] at hplain
    cases hplain

theorem makeUp_tokenize (source : String) : MakeUp source (tokenize source) where
  length_le := by
    rw [tokenize, length_tokensFrom, ← String.length_toList]
    exact Nat.succ_le_succ (length_lexemes_le _)
  starts := start_head_tokensFrom
  touch := isChain_tokensFrom _ _
  ends := by
    have hends := tokensFrom_concat 0 (lexemes source.toList)
    rwa [flatMap_chars_lexemes, byteLength_eq, String.ofList_toList, Nat.zero_add] at hends
  text_eq := by
    rw [tokenize, textOf_tokensFrom, flatMap_chars_lexemes, String.ofList_toList]
  texts_apart := List.isChain_iff_forall_rel_of_append_cons_cons.2 fun _ _ _ _ => kind_ne_text

theorem Reads.stop_eq (h : Reads source t after) : t.stop = t.start + t.text.utf8ByteSize := by
  have hsize := congrArg ByteArray.size h.bytes_eq
  have hle : t.stop ≤ source.utf8ByteSize := h.stop_valid.le_rawEndPos
  have hlt := h.nonempty
  rw [ByteArray.size_extract, String.size_toByteArray, String.size_toByteArray] at hsize
  omega

/-- What is read by the rules is what the lexer takes off. -/
theorem Reads.eq_firstLexeme {rest : List Char} (h : Reads source t after)
    (hrest : (textOf (t :: after)).toList = c :: rest) :
    t.kind = (firstLexeme c rest).1.kind ∧ t.text.toList = (firstLexeme c rest).1.chars := by
  have happend := firstLexeme_append c rest
  have hinit : t.text.toList <+: c :: rest := by
    rw [← hrest, textOf_cons, String.toList_append]
    exact List.prefix_append _ _
  have hinvalid : t.kind = .invalid ↔ (firstLexeme c rest).1.kind = .invalid := by
    rw [h.invalid_iff, hrest, invalid_firstLexeme.1]
  by_cases hkind : t.kind = .invalid
  · have hlexeme := hinvalid.1 hkind
    refine ⟨hkind.trans hlexeme.symm, ?_⟩
    rw [invalid_firstLexeme.2 hlexeme, List.append_nil] at happend
    rw [happend, ← hrest, h.ends hkind, textOf_cons]
    simp [textOf, Token.atEnd]
  · -- both are spelled by rules, so neither is longer than the other
    have hread := h.spelled hkind
    have hlexeme := matches_firstLexeme fun hlexeme => hkind (hinvalid.2 hlexeme)
    have hstarts : (firstLexeme c rest).1.chars <+: c :: rest := ⟨_, happend⟩
    have hle := length_le_firstLexeme hread hinit
    have hge := h.longest _ _ hlexeme (by rwa [hrest])
    have htext := (List.prefix_of_prefix_length_le hinit hstarts hle).eq_of_length_le hge
    rw [htext] at hread
    exact ⟨hread.kind_eq.trans hlexeme.kind_eq.symm, htext⟩

/-- One step: a token that is read by the rules before tokens of the lexer. -/
theorem Reads.cons_eq (h : Reads source t after)
    (hafter : after = tokensFrom t.stop (lexemes (textOf after).toList)) :
    t :: after = tokensFrom t.start (lexemes (textOf (t :: after)).toList) := by
  have hne : (textOf (t :: after)).toList ≠ [] := by
    have hlt := h.nonempty
    have hstop := h.stop_eq
    have hpos : t.text ≠ "" := by
      rintro hempty
      rw [hempty, String.utf8ByteSize_empty] at hstop
      omega
    rw [textOf_cons]
    simp [hpos]
  obtain ⟨c, rest, hrest⟩ := List.exists_cons_of_ne_nil hne
  obtain ⟨hkind, htext⟩ := h.eq_firstLexeme hrest
  have hleft : (textOf after).toList = (firstLexeme c rest).2 := by
    have happend := firstLexeme_append c rest
    rw [← htext, ← hrest, textOf_cons, String.toList_append] at happend
    exact (List.append_cancel_left happend).symm
  have htoken : t = ⟨(firstLexeme c rest).1.kind, t.start, t.start + byteLength (firstLexeme c rest).1.chars,
      String.ofList (firstLexeme c rest).1.chars⟩ := by
    rw [← hkind, ← htext, byteLength_eq, String.ofList_toList, ← h.stop_eq]
  have hlength : t.stop = t.start + byteLength (firstLexeme c rest).1.chars := congrArg Token.stop htoken
  rw [hleft, hlength] at hafter
  rw [hrest, lexemes, tokensFrom, ← hafter, ← htoken]

/-- A run: tokens that are read by the rules up to the end are those of the lexer. -/
theorem eq_tokensFrom {front : List Token} (hkinds : ∀ t ∈ front, t.kind ≠ .endOfInput)
    (hstart : ∀ t ∈ (front ++ [Token.atEnd source]).head?, t.start = start)
    (htouch : (front ++ [Token.atEnd source]).IsChain fun s t => t.start = s.stop)
    (hreads : ∀ before t after, front ++ [Token.atEnd source] = before ++ t :: after → t.kind ≠ .endOfInput →
      Reads source t after) :
    front ++ [Token.atEnd source] = tokensFrom start (lexemes (textOf (front ++ [Token.atEnd source])).toList) := by
  induction front generalizing start with
  | nil =>
    obtain rfl := hstart _ rfl
    simp [textOf, Token.atEnd, lexemes, tokensFrom]
  | cons t front ih =>
    obtain ⟨ht, hkinds⟩ := List.forall_mem_cons.1 hkinds
    obtain ⟨hnext, htouch⟩ := List.isChain_cons.1 htouch
    obtain rfl := hstart _ rfl
    refine (hreads [] t _ rfl ht).cons_eq (ih hkinds hnext htouch ?_)
    intro before s after h
    exact hreads (t :: before) s after (congrArg (t :: ·) h)

/-- The tokens of a source make it up, and each but the end is one that the rules allow where it stands: it covers bytes
of its own between two characters, the rule of its kind spells it unless it is a quote that nothing closes, which takes
all that is left, and no rule spells a longer text there. No other tokens are such. -/
theorem tokens_of_source (source : String) :
    Tokenizes source (tokenize source) ∧ ∀ tokens, Tokenizes source tokens → tokens = tokenize source := by
  refine ⟨⟨makeUp_tokenize source, fun _ _ _ => reads_of_split⟩, ?_⟩
  intro tokens h
  obtain ⟨front, hends, hkinds⟩ := h.ends
  have hstarts := h.starts
  have htouch := h.touch
  have hreads := h.reads
  have htext := h.text_eq
  subst hends
  rw [eq_tokensFrom hkinds hstarts htouch hreads, htext, tokenize]

/-- A source with tokens of all kinds. -/
def motley : String :=
  "é::int = :p.q..: 'it''s :x' || \"a:b\" 'c''"

def motleyFront : List Token := [
  ⟨.text, 0, 2, "é"⟩, ⟨.cast, 2, 4, "::"⟩, ⟨.text, 4, 10, "int = "⟩, ⟨.placeholder, 10, 14, ":p.q"⟩,
  ⟨.text, 14, 16, ".."⟩, ⟨.colon, 16, 17, ":"⟩, ⟨.text, 17, 18, " "⟩, ⟨.stringLiteral, 18, 28, "'it''s :x'"⟩,
  ⟨.text, 28, 32, " || "⟩, ⟨.quotedIdentifier, 32, 37, "\"a:b\""⟩, ⟨.text, 37, 38, " "⟩]

/-- The last quote is not closed: a literal could end before the last character, but that is a quote again. -/
theorem motley_reads : tokenize motley = motleyFront ++ [⟨.invalid, 38, 42, "'c''"⟩, .atEnd motley] ∧
    Reads motley ⟨.invalid, 38, 42, "'c''"⟩ [.atEnd motley] := by
  have htokens : tokenize motley = motleyFront ++ [⟨.invalid, 38, 42, "'c''"⟩, .atEnd motley] := by cbv
  exact ⟨htokens, (tokens_of_source motley).1.reads motleyFront _ _ htokens (by decide)⟩

end EntitySql.Fragment
