import LineLexer.Proofs.Layouts
import LineLexer.Proofs.TextTokens

/-!
# Styles of line breaks

It makes no difference how the line breaks of a text are written. The lines can be found in two
steps, the pairs before the single characters, `lines_eq_flatMap`, and they stay the same when all
breaks are turned into line feeds, `lines_withLineFeeds`. Both steps of either kind are said with
`pieces`, which knows nothing of line breaks. The main statement, `tokenize_withLineFeeds`, adds
what follows for tokens.
-/

namespace LineLexer

namespace Text

/-- What stands between the occurrences of a separator in a text. They are looked for from left to
right and do not overlap. -/
def pieces (separator : List Char) : List Char → List (List Char)
  | [] => [[]]
  | c :: rest =>
    if separator.isPrefixOf (c :: rest) then
      [] :: pieces separator (rest.drop (separator.length - 1))
    else consFirst c (pieces separator rest)
termination_by chars => chars.length
decreasing_by
  · simp only [List.length_drop, List.length_cons]
    omega
  · simp

/-- Put other characters in the place of all occurrences of a pattern. -/
def replaceAll (pattern replacement chars : List Char) : List Char :=
  replacement.intercalate (pieces pattern chars)

/-- Write all breaks of a text as line feeds: first the pairs, then the carriage returns that are
left. -/
def withLineFeeds (chars : List Char) : List Char :=
  replaceAll Break.carriageReturn.chars Break.lineFeed.chars
    (replaceAll Break.pair.chars Break.lineFeed.chars chars)

/-! ## Pieces -/

variable {separator : List Char}

theorem pieces_ne_nil (separator chars : List Char) : pieces separator chars ≠ [] := by
  fun_cases pieces separator chars with
  | case1 => exact List.cons_ne_nil _ _
  | case2 => exact List.cons_ne_nil _ _
  | case3 c rest => cases pieces separator rest <;> exact List.cons_ne_nil _ _

theorem pieces_nil : pieces separator [] = [[]] := by
  rw [pieces]

theorem pieces_append (hne : separator ≠ []) (rest : List Char) :
    pieces separator (separator ++ rest) = [] :: pieces separator rest := by
  obtain ⟨s, more, rfl⟩ := List.exists_cons_of_ne_nil hne
  have hprefix : (s :: more).isPrefixOf (s :: (more ++ rest)) = true :=
    List.isPrefixOf_iff_prefix.mpr (List.prefix_append (s :: more) rest)
  rw [List.cons_append, pieces, if_pos hprefix, List.length_cons, Nat.add_sub_cancel,
    List.drop_left]

theorem pieces_cons {c : Char} {rest : List Char} (h : ¬ separator <+: c :: rest) :
    pieces separator (c :: rest) = consFirst c (pieces separator rest) := by
  rw [pieces, if_neg (by rwa [List.isPrefixOf_iff_prefix])]

/-- A character that is read on its own is not the first one of a pair. -/
theorem not_pair_isPrefix {c : Char} {rest : List Char}
    (hpair : ∀ more, c = '\r' → rest = '\n' :: more → False) :
    ¬ Break.pair.chars <+: c :: rest := by
  intro hprefix
  obtain ⟨more, heq⟩ := hprefix
  obtain ⟨hc, hrest⟩ := List.cons.inj heq
  exact hpair more hc.symm hrest.symm

/-! ## Two steps -/

/-- The second step on a piece that a character has been put in front of. -/
theorem flatMap_consFirst {found : List (List Char)} (c : Char) (hne : found ≠ []) :
    (consFirst c found).flatMap (List.splitOnP isLineBreak) =
      if isLineBreak c then [] :: found.flatMap (List.splitOnP isLineBreak)
      else consFirst c (found.flatMap (List.splitOnP isLineBreak)) := by
  obtain ⟨piece, later, rfl⟩ := List.exists_cons_of_ne_nil hne
  show List.splitOnP isLineBreak (c :: piece) ++ _ = _
  rw [List.splitOnP_cons_eq_if_modifyHead, List.flatMap_cons]
  by_cases hc : isLineBreak c = true
  · rw [if_pos hc, if_pos hc]
    rfl
  · rw [if_neg hc, if_neg hc]
    cases hpiece : List.splitOnP isLineBreak piece with
    | nil => exact absurd hpiece (List.splitOnP_ne_nil _ _)
    | cons line more => rfl

/-- The lines of a text are found by splitting it at all pairs and what stands between these at all
single characters that end a line. -/
theorem lines_eq_flatMap (chars : List Char) :
    lines chars = (pieces Break.pair.chars chars).flatMap (List.splitOnP isLineBreak) := by
  fun_induction lines chars with
  | case1 => rw [pieces_nil]; rfl
  | case2 rest ih =>
      show _ = (pieces Break.pair.chars (Break.pair.chars ++ rest)).flatMap _
      rw [pieces_append (by decide), ih]
      rfl
  | case3 c rest hpair hbreak ih =>
      rw [pieces_cons (not_pair_isPrefix hpair), flatMap_consFirst c (pieces_ne_nil _ _),
        if_pos hbreak, ih]
  | case4 c rest hpair hbreak ih =>
      rw [pieces_cons (not_pair_isPrefix hpair), flatMap_consFirst c (pieces_ne_nil _ _),
        if_neg hbreak, ih]

/-! ## Replacement -/

variable {pattern replacement : List Char}

theorem replaceAll_nil : replaceAll pattern replacement [] = [] := by
  rw [replaceAll, pieces_nil, List.intercalate_singleton]

theorem replaceAll_append (hne : pattern ≠ []) (rest : List Char) :
    replaceAll pattern replacement (pattern ++ rest) =
      replacement ++ replaceAll pattern replacement rest := by
  rw [replaceAll, pieces_append hne, List.intercalate_cons_of_ne_nil (pieces_ne_nil _ _)]
  rfl

theorem replaceAll_cons {c : Char} {rest : List Char} (h : ¬ pattern <+: c :: rest) :
    replaceAll pattern replacement (c :: rest) = c :: replaceAll pattern replacement rest := by
  rw [replaceAll, replaceAll, pieces_cons h]
  obtain ⟨piece, later, hpieces⟩ := List.exists_cons_of_ne_nil (pieces_ne_nil pattern rest)
  rw [hpieces]
  cases later with
  | nil => rfl
  | cons next later =>
      show replacement.intercalate ((c :: piece) :: next :: later) = _
      rw [List.intercalate_cons_cons, List.intercalate_cons_cons]
      rfl

/-- To replace a single character is to look at one character after the other. -/
theorem replaceAll_single_cons (pattern : Char) (replacement : List Char) (c : Char)
    (rest : List Char) :
    replaceAll [pattern] replacement (c :: rest) =
      (if c = pattern then replacement else [c]) ++ replaceAll [pattern] replacement rest := by
  by_cases hc : c = pattern
  · rw [if_pos hc, ← replaceAll_append (List.cons_ne_nil pattern []), hc]
    rfl
  · have hprefix : ¬ [pattern] <+: c :: rest := by
      intro hprefix
      obtain ⟨more, heq⟩ := hprefix
      exact hc (List.cons.inj heq).1.symm
    rw [if_neg hc, replaceAll_cons hprefix]
    rfl

/-- A pair becomes a line feed. -/
theorem withLineFeeds_pair (rest : List Char) :
    withLineFeeds (Break.pair.chars ++ rest) = '\n' :: withLineFeeds rest := by
  have hpair : Break.pair.chars ≠ [] := List.cons_ne_nil _ _
  rw [withLineFeeds, replaceAll_append hpair]
  exact replaceAll_single_cons '\r' ['\n'] '\n' _

/-- Where no pair starts, only a carriage return is changed. -/
theorem withLineFeeds_cons {c : Char} {rest : List Char} (h : ¬ Break.pair.chars <+: c :: rest) :
    withLineFeeds (c :: rest) = (if c = '\r' then '\n' else c) :: withLineFeeds rest := by
  rw [withLineFeeds, replaceAll_cons h]
  show replaceAll ['\r'] ['\n'] _ = _
  rw [replaceAll_single_cons]
  by_cases hc : c = '\r'
  · rw [if_pos hc, if_pos hc]
    rfl
  · rw [if_neg hc, if_neg hc]
    rfl

/-- The lines of a text stay the same when its breaks are written as line feeds. -/
theorem lines_withLineFeeds (chars : List Char) : lines (withLineFeeds chars) = lines chars := by
  fun_induction lines chars with
  | case1 =>
      rw [withLineFeeds, replaceAll_nil, replaceAll_nil]
      rfl
  | case2 rest ih =>
      show lines (withLineFeeds (Break.pair.chars ++ rest)) = _
      rw [withLineFeeds_pair, lines_cons_lineFeed, ih]
  | case3 c rest hpair hbreak ih =>
      have hfeed : (if c = '\r' then '\n' else c) = '\n' := by
        rcases isLineBreak_iff.mp hbreak with rfl | rfl <;> rfl
      rw [withLineFeeds_cons (not_pair_isPrefix hpair), hfeed, lines_cons_lineFeed, ih]
  | case4 c rest hpair hbreak ih =>
      have hinside : isLineBreak c = false := Bool.eq_false_iff.mpr hbreak
      have hc : c ≠ '\r' := fun hc => hbreak (isLineBreak_iff.mpr (.inr hc))
      rw [withLineFeeds_cons (not_pair_isPrefix hpair), if_neg hc, lines_cons_of_unbroken hinside,
        ih]

end Text

/-- How line breaks are written does not matter: the lines of a text are found as well by splitting
it at pairs first and at single characters then, they are the lines of the text with line feeds for
all breaks, and this has the same tokens at the same places. -/
theorem Tokenizer.tokenize_withLineFeeds (text : String) :
    Text.lines text.toList =
        (Text.pieces Text.Break.pair.chars text.toList).flatMap
          (List.splitOnP Text.isLineBreak) ∧
      Text.lines text.toList = Text.lines (Text.withLineFeeds text.toList) ∧
      ∀ t : Tokenizer, t.Obtained →
        t.tokenize (String.ofList (Text.withLineFeeds text.toList)) = t.tokenize text := by
  have hlines := Text.lines_withLineFeeds text.toList
  refine ⟨Text.lines_eq_flatMap text.toList, hlines.symm, ?_⟩
  intro t h
  rw [tokenize_eq h.valid, tokenize_eq h.valid, String.toList_ofList, hlines]

/-- A carriage return, a pair, a line feed and a carriage return are four breaks. -/
theorem Tokenizer.tokenize_withLineFeeds_remarks :
    let text := "2go\r\r\n\n\rrem1"
    (Tokenizer.mk Rules.remarks).Obtained ∧
      Text.withLineFeeds text.toList = "2go\n\n\n\nrem1".toList ∧
      (Tokenizer.mk Rules.remarks).tokenize (String.ofList (Text.withLineFeeds text.toList)) =
        [⟨0, 0, 1, .number, .singleton .static⟩, ⟨0, 1, 2, .identifier, .singleton .declaration⟩,
          ⟨4, 0, 4, .comment, .singleton .documentation⟩] := by
  intro text
  have hsame := (tokenize_withLineFeeds text).2.2 _ remarks_obtained
  exact ⟨remarks_obtained, by decide +kernel, hsame.trans (by decide +kernel)⟩

end LineLexer
