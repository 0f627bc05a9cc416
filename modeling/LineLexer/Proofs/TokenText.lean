import Mathlib.Data.List.TakeWhile
import LineLexer.Proofs.Layouts
import LineLexer.Proofs.Tiling

/-!
# The text of a token

A token `Marks` characters of its line, and `Token.text?` gives these, `Token.text?_eq_some_iff`.
Nothing else of the line matters for the kind of the token: the characters that it marks, as a text
of their own, have one token of the same kind, which covers all of them. This is the main statement,
`Obtained.tokenize_text`; the step towards it is `Rules.tokenAt?_take`.
-/

namespace LineLexer

namespace Token

/-- Some characters stand in a line from the first column of a token up to its last one. -/
def Marks (t : Token) (line covered : List Char) : Prop :=
  ∃ before behind, line = before ++ covered ++ behind ∧ before.length = t.startColumn ∧
    (before ++ covered).length = t.endColumn

theorem marks_iff {t : Token} {line covered : List Char} :
    t.Marks line covered ↔
      t.endColumn ≤ line.length ∧ covered = (line.drop t.startColumn).take t.length := by
  constructor
  · rintro ⟨before, behind, rfl, hstart, hend⟩
    have hlength : covered.length = t.length := by
      rw [List.length_append, hstart] at hend
      exact Nat.add_left_cancel hend
    constructor
    · have htotal : (before ++ covered ++ behind).length = t.endColumn + behind.length := by
        rw [List.length_append, hend]
      rw [htotal]
      exact Nat.le_add_right _ _
    · rw [List.append_assoc, ← hstart, List.drop_left, ← hlength, List.take_left]
  · rintro ⟨hend, rfl⟩
    have hle : t.startColumn ≤ line.length := Nat.le_trans (Nat.le_add_right _ _) hend
    refine ⟨line.take t.startColumn, line.drop t.endColumn, ?_, ?_, ?_⟩
    · rw [endColumn, List.append_assoc, ← List.drop_drop, List.take_append_drop,
        List.take_append_drop]
    · exact List.length_take_of_le hle
    · rw [← List.take_add]
      exact List.length_take_of_le hend

/-- The text of a token is what it marks in a line, if it marks something. -/
theorem text?_eq_some_iff {t : Token} {line s : String} :
    t.text? line = some s ↔ 0 < t.length ∧ t.Marks line.toList s.toList := by
  rw [marks_iff, String.length_toList]
  by_cases hfits : t.FitsIn line
  · rw [text?_of_fitsIn hfits, Option.some.injEq]
    constructor
    · intro hs
      rw [← hs, String.toList_ofList]
      exact ⟨hfits.1, hfits.2, rfl⟩
    · intro h
      rw [← h.2.2, String.ofList_toList]
  · rw [text?_of_not_fitsIn hfits]
    constructor
    · intro hnone
      cases hnone
    · intro h
      exact absurd ⟨h.1, h.2.1⟩ hfits

end Token

/-- A chunk that stands alone is still one chunk. -/
theorem chunk_chunk (chars : List Char) : chunk (chunk chars) = chunk chars := by
  by_cases hchunk : chunk chars = []
  · rw [hchunk, chunk_nil]
  · have hhead := head?_chunk hchunk
    rw [chunk, hhead]
    by_cases halpha : chars.head?.any Char.isAlpha = true
    · rw [if_pos halpha, chunk, if_pos halpha, List.takeWhile_idem]
    · rw [if_neg halpha, chunk, if_neg halpha, List.takeWhile_idem]

namespace Rules

variable {rules : Rules} {lineIndex column : Nat}

/-- A token does not hang on the characters behind it. -/
theorem tokenAt?_take {chars : List Char} {t : Token}
    (h : rules.tokenAt? lineIndex column chars = some t) :
    rules.tokenAt? lineIndex column (chars.take t.length) = some t := by
  rcases tokenAt?_cases h with ⟨_, rfl⟩ | ⟨hopens, hchunk, rfl⟩
  · show rules.tokenAt? lineIndex column (chars.take chars.length) = _
    rw [List.take_length, h]
  · show rules.tokenAt? lineIndex column (chars.take (chunk chars).length) = _
    rw [← chunk_eq_take]
    -- A marker at the start of the chunk would also be one at the start of all characters.
    have hopens' : ¬ rules.opensComment (chunk chars) = true := by
      intro hmarker
      have hprefix : chunk chars <+: chars := by
        rw [chunk_eq_take]
        exact List.take_prefix _ _
      rw [opensComment_iff.mpr ((opensComment_iff.mp hmarker).trans hprefix)] at hopens
      cases hopens
    rw [tokenAt?, if_neg hopens', chunk_chunk, if_neg hchunk]

/-- The same characters make the same token at the start of a text. -/
theorem tokenAt?_zero {chars : List Char} {t : Token}
    (h : rules.tokenAt? lineIndex column chars = some t) :
    rules.tokenAt? 0 0 chars = some ⟨0, 0, t.length, t.category, t.modifiers⟩ := by
  have hshift : (rules.tokenAt? 0 0 chars).map (Token.shift lineIndex column) = some t := by
    rw [← tokenAt?_add, Nat.zero_add, Nat.zero_add, h]
  obtain ⟨first, hfirst, rfl⟩ := Option.map_eq_some_iff.mp hshift
  have hline := line_of_tokenAt? hfirst
  have hstart := startColumn_of_tokenAt? hfirst
  obtain ⟨_, _, length, category, modifiers⟩ := first
  cases hline
  cases hstart
  exact hfirst

/-- The token that starts at a place is the only one of the characters that it covers. -/
theorem tokensFrom_take {chars : List Char} {t : Token} (hne : chars ≠ [])
    (h : rules.tokenAt? lineIndex column chars = some t) :
    rules.tokensFrom 0 0 (chars.take t.length) = [⟨0, 0, t.length, t.category, t.modifiers⟩] := by
  obtain ⟨hpos, hle⟩ := length_of_tokenAt? hne h
  have hlength : (chars.take t.length).length = t.length := List.length_take_of_le hle
  have hcovered : chars.take t.length ≠ [] := by
    rw [← List.length_pos_iff, hlength]
    exact hpos
  have hrest : (chars.take t.length).drop t.length = [] :=
    List.drop_eq_nil_of_le (Nat.le_of_eq hlength)
  rw [tokensFrom_of_some hcovered (tokenAt?_zero (tokenAt?_take h)), hrest, tokensFrom_nil]

end Rules

/-- A token of a text gives its own text back from its line, which are the characters that it marks
there, and these have one token that covers all of them and is of the same kind. -/
theorem Tokenizer.Obtained.tokenize_text {t : Tokenizer} (h : t.Obtained) (text : String)
    {token : Token} (hmem : token ∈ t.tokenize text) :
    ∃ line s, (Text.lines text.toList)[token.line]? = some line ∧
      token.text? (String.ofList line) = some s ∧ token.Marks line s.toList ∧
      t.tokenize s = [⟨0, 0, token.length, token.category, token.modifiers⟩] := by
  rw [tokenize_eq h.valid] at hmem
  obtain ⟨line, hline, hmem⟩ := Rules.exists_line_of_mem hmem
  obtain ⟨column, hcolumn, hat⟩ := Rules.exists_tokenAt?_of_mem hmem
  rw [Nat.zero_add] at hat
  have hne : line.drop column ≠ [] := by
    rw [← List.length_pos_iff, List.length_drop]
    omega
  have htext := Rules.text?_of_tokenAt? hne hat
  have hmarks := (Token.text?_eq_some_iff.mp htext).2
  rw [String.toList_ofList] at hmarks
  have hunbroken : Text.Unbroken ((line.drop column).take token.length) := by
    intro c hc
    exact Text.unbroken_of_mem_lines (List.mem_of_getElem? hline) c
      (List.mem_of_mem_drop (List.mem_of_mem_take hc))
  refine ⟨line, _, hline, htext, hmarks, ?_⟩
  rw [tokenize_eq h.valid, String.toList_ofList, Text.lines_of_unbroken hunbroken]
  show t.rules.tokensFrom 0 0 _ ++ [] = _
  rw [List.append_nil, Rules.tokensFrom_take hne hat]

/-- The word `xrem` ends with the marker `rem`, which does not open a comment in either text. -/
theorem Tokenizer.tokenize_text_remarks :
    let t := Tokenizer.mk Rules.remarks
    let token : Token := ⟨2, 3, 4, .identifier, .singleton .declaration⟩
    t.Obtained ∧ token ∈ t.tokenize "2go\n\nif xrem rem" ∧
      token.text? "if xrem rem" = some "xrem" ∧
      t.tokenize "xrem" = [⟨0, 0, 4, .identifier, .singleton .declaration⟩] := by
  intro t token
  have hmem : token ∈ t.tokenize "2go\n\nif xrem rem" := by decide +kernel
  obtain ⟨line, s, hline, htext, -, htokens⟩ := Obtained.tokenize_text remarks_obtained _ hmem
  have hthird : (Text.lines "2go\n\nif xrem rem".toList)[2]? = some "if xrem rem".toList := by
    decide +kernel
  obtain rfl := Option.some.inj (hthird.symm.trans hline)
  rw [String.ofList_toList] at htext
  have hs : token.text? "if xrem rem" = some "xrem" := by decide +kernel
  obtain rfl := Option.some.inj (hs.symm.trans htext)
  exact ⟨remarks_obtained, hmem, htext, htokens⟩

end LineLexer
