import LineLexer.Proofs.Layouts
import LineLexer.Proofs.TextTokens

/-!
# Joined texts

Two texts that are joined by a line break keep their tokens: first come those of the first text, as
they are, then those of the second one, further down by as many lines as the first text has. If the
break forms a pair with a character of one of the texts, there is one line less, because that
character ends an empty line or begins behind one in the text that it is from. The main statement is
`Obtained.tokenize_append`.
-/

namespace LineLexer

namespace Text

/-- The index of the first line of the second one of two texts that a break joins. -/
def linesBefore (front : List Char) (b : Break) (back : List Char) : Nat :=
  if Merges front b back then (lines front).length - 1 else (lines front).length

/-- Behind a carriage return at the end of a text there is an empty line. -/
theorem lines_append_carriageReturn (front : List Char) :
    lines (front ++ ['\r']) = lines front ++ [[]] := by
  have hmerges : ¬ Merges front .carriageReturn [] := by
    rw [merges_carriageReturn_iff]
    intro hhead
    cases hhead
  have hlines := lines_append_break hmerges
  rwa [List.append_nil] at hlines

/-- A pair is one break whatever it stands between. -/
theorem lines_append_pair (front back : List Char) :
    lines (front ++ '\r' :: '\n' :: back) = lines front ++ lines back := by
  have hlines : lines (front ++ Break.pair.chars ++ back) = lines front ++ lines back :=
    lines_append_break not_merges_pair
  rwa [List.append_assoc] at hlines

/-- A break that merges makes an empty line disappear, the last one of the first text or the first
one of the second text. -/
theorem Merges.exists_lines {front back : List Char} {b : Break} (h : Merges front b back) :
    (∃ before, lines front = before ++ [[]] ∧
        lines (front ++ b.chars ++ back) = before ++ lines back) ∨
      ∃ behind, lines back = [] :: behind ∧
        lines (front ++ b.chars ++ back) = lines front ++ behind := by
  cases b with
  | lineFeed =>
      obtain ⟨before, rfl⟩ := List.getLast?_eq_some_iff.mp (merges_lineFeed_iff.mp h)
      refine .inl ⟨lines before, lines_append_carriageReturn before, ?_⟩
      rw [List.append_assoc, List.append_assoc]
      exact lines_append_pair before back
  | carriageReturn =>
      obtain ⟨behind, rfl⟩ := List.head?_eq_some_iff.mp (merges_carriageReturn_iff.mp h)
      refine .inr ⟨lines behind, lines_cons_lineFeed behind, ?_⟩
      rw [List.append_assoc]
      exact lines_append_pair front behind
  | pair => exact absurd h not_merges_pair

end Text

open Text

/-- The lines of joined texts have the tokens of the first text and then those of the second one,
which are found from `linesBefore` on. -/
theorem Rules.tokensOfLines_append_break (rules : Rules) (front : List Char) (b : Break)
    (back : List Char) :
    rules.tokensOfLines 0 (lines (front ++ b.chars ++ back)) =
      rules.tokensOfLines 0 (lines front) ++
        rules.tokensOfLines (linesBefore front b back) (lines back) := by
  by_cases hmerges : Merges front b back
  · rw [linesBefore, if_pos hmerges]
    -- The line that disappears has no tokens, but the lines behind it move up.
    rcases hmerges.exists_lines with ⟨before, hfront, hlines⟩ | ⟨behind, hback, hlines⟩
    · have hempty : rules.tokensOfLines (0 + before.length) [[]] = [] := by
        rw [tokensOfLines, tokensFrom_nil]
        rfl
      rw [hlines, hfront, tokensOfLines_append, tokensOfLines_append, hempty, List.append_nil,
        List.length_append, Nat.zero_add]
      rfl
    · have hpos : 0 < (lines front).length := List.length_pos_iff.mpr (lines_ne_nil front)
      rw [hlines, hback, tokensOfLines_append, Nat.zero_add, tokensOfLines, tokensFrom_nil,
        List.nil_append, Nat.sub_add_cancel hpos]
  · rw [linesBefore, if_neg hmerges, lines_append_break hmerges, tokensOfLines_append,
      Nat.zero_add]

/-- The tokens of two texts with a line break between them are the tokens of the first text and
those of the second one, the latter further down by the lines before them. -/
theorem Tokenizer.Obtained.tokenize_append {t : Tokenizer} (h : t.Obtained) (front : String)
    (b : Break) (back : String) :
    t.tokenize (front ++ String.ofList b.chars ++ back) =
      t.tokenize front ++ (t.tokenize back).map fun token =>
        { token with line := token.line + linesBefore front.toList b back.toList } := by
  have htoList : (front ++ String.ofList b.chars ++ back).toList =
      front.toList ++ b.chars ++ back.toList := by
    rw [String.toList_append, String.toList_append, String.toList_ofList]
  rw [tokenize_eq h.valid, tokenize_eq h.valid, tokenize_eq h.valid, htoList,
    Rules.tokensOfLines_append_break, ← Nat.zero_add (linesBefore _ _ _), Rules.tokensOfLines_add,
    Nat.zero_add]
  rfl

/-- The carriage return at the end of the first text and the line feed are one break, so that the
second text starts in the line of index 1. -/
theorem Tokenizer.tokenize_append_remarks :
    (Tokenizer.mk Rules.remarks).Obtained ∧
      (Tokenizer.mk Rules.remarks).tokenize ("2go\r" ++ String.ofList Break.lineFeed.chars ++
        "if\nrem1") =
        [⟨0, 0, 1, .number, .singleton .static⟩, ⟨0, 1, 2, .identifier, .singleton .declaration⟩,
          ⟨1, 0, 2, .keyword, .singleton .modification⟩,
          ⟨2, 0, 4, .comment, .singleton .documentation⟩] :=
  ⟨remarks_obtained,
    (Obtained.tokenize_append remarks_obtained "2go\r" .lineFeed "if\nrem1").trans
      (by decide +kernel)⟩

end LineLexer
