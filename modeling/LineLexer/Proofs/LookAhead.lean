import Mathlib.Data.List.Infix
import LineLexer.Proofs.Layouts
import LineLexer.Proofs.Tiling

/-!
# Bounded look-ahead

What a line goes on with has no say in its early tokens. A comment is settled by the characters of
its marker, and a word or a number by the character behind it, so that everything up to a column is
settled once the line goes on for the length of the marker from there. `EarlyView` is what can be
told of tokens up to a column. The step of the proof is about the token at one place,
`Rules.tokenAt?_append`, the run about the tokens of a line, `Rules.filterMap_tokensFrom_append`, and
the main statement is `Obtained.early_tokens`.
-/

namespace LineLexer

/-- What can be told of tokens up to a column: nothing of those that start behind it, or end behind
it and are no comments, and of a comment not how long it is. -/
structure EarlyView {α : Type} (last : Nat) (view : Token → Option α) : Prop where
  late : ∀ t, last < t.startColumn → view t = none
  long : ∀ t, t.category ≠ .comment → last < t.endColumn → view t = none
  comment : ∀ lineIndex column length length',
    view (commentToken lineIndex column length) = view (commentToken lineIndex column length')

/-- A word or a number that ends up to a column. -/
def Token.isEarlyChunk (last : Nat) (t : Token) : Bool :=
  t.category ≠ .comment ∧ t.endColumn ≤ last

/-- The column where a comment starts, up to a column. -/
def Token.earlyComment? (last : Nat) (t : Token) : Option Nat :=
  if t.category = .comment ∧ t.startColumn ≤ last then some t.startColumn else none

theorem Token.le_endColumn (t : Token) : t.startColumn ≤ t.endColumn :=
  Nat.le_add_right _ _

/-- The early words and numbers are such a view. -/
theorem earlyView_chunk (last : Nat) : EarlyView last (Option.guard (Token.isEarlyChunk last)) := by
  constructor
  · intro t hlate
    have hend : ¬ t.endColumn ≤ last :=
      Nat.not_le_of_lt (Nat.lt_of_lt_of_le hlate t.le_endColumn)
    simp [Option.guard, Token.isEarlyChunk, hend]
  · intro t _ hlong
    simp [Option.guard, Token.isEarlyChunk, Nat.not_le_of_lt hlong]
  · intro _ _ _ _
    rfl

/-- The columns of early comments are such a view. -/
theorem earlyView_comment (last : Nat) : EarlyView last (Token.earlyComment? last) := by
  constructor
  · intro t hlate
    exact if_neg fun h => Nat.not_le_of_lt hlate h.2
  · intro t hcategory _
    exact if_neg fun h => hcategory h.1
  · intro _ _ _ _
    rfl

/-! ## Words and numbers of longer lines -/

variable {chars : List Char}

/-- A run that ends before its characters do stays the same if these go on. -/
theorem takeWhile_append_of_lt {p : Char → Bool}
    (hlt : (chars.takeWhile p).length < chars.length) (suffix : List Char) :
    (chars ++ suffix).takeWhile p = chars.takeWhile p := by
  rw [List.takeWhile_append, if_neg (Nat.ne_of_lt hlt)]

/-- A run only grows if its characters go on. -/
theorem takeWhile_prefix_append (p : Char → Bool) (chars suffix : List Char) :
    chars.takeWhile p <+: (chars ++ suffix).takeWhile p := by
  rw [List.takeWhile_append]
  split
  · exact (List.takeWhile_prefix p).trans (List.prefix_append chars _)
  · exact List.prefix_rfl

/-- A chunk that ends before its line does stays the same if the line goes on. -/
theorem chunk_append_of_lt (hlt : (chunk chars).length < chars.length) (suffix : List Char) :
    chunk (chars ++ suffix) = chunk chars := by
  have hne : chars ≠ [] := List.length_pos_iff.mp (Nat.zero_lt_of_lt hlt)
  unfold chunk at hlt ⊢
  rw [List.head?_append_of_ne_nil chars hne]
  split
  · next halpha =>
      rw [if_pos halpha] at hlt
      exact takeWhile_append_of_lt hlt suffix
  · next halpha =>
      rw [if_neg halpha] at hlt
      exact takeWhile_append_of_lt hlt suffix

/-- A chunk only grows if its line goes on. -/
theorem chunk_prefix_append (hne : chars ≠ []) (suffix : List Char) :
    chunk chars <+: chunk (chars ++ suffix) := by
  unfold chunk
  rw [List.head?_append_of_ne_nil chars hne]
  split
  · exact takeWhile_prefix_append _ _ _
  · exact takeWhile_prefix_append _ _ _

namespace Rules

variable {rules : Rules} {lineIndex column last : Nat}

/-- Where a marker fits into a line it does not matter how the line goes on. -/
theorem opensComment_append (hle : rules.lineComment.length ≤ chars.length) (suffix : List Char) :
    rules.opensComment (chars ++ suffix) = rules.opensComment chars := by
  rw [Bool.eq_iff_iff, opensComment_iff, opensComment_iff]
  exact List.isPrefix_append_of_length (by rwa [String.length_toList])

/-! ## The token at a place -/

/-- Where no token starts none does if the line goes on. -/
theorem tokenAt?_append_of_none (hne : chars ≠ [])
    (hle : rules.lineComment.length ≤ chars.length) (suffix : List Char)
    (hat : rules.tokenAt? lineIndex column chars = none) :
    rules.tokenAt? lineIndex column (chars ++ suffix) = none := by
  rw [tokenAt?_eq_none_iff] at hat ⊢
  rw [opensComment_append hle]
  refine ⟨hat.1, ?_⟩
  obtain ⟨c, rest, rfl⟩ := List.exists_cons_of_ne_nil hne
  exact chunk_cons_eq_nil_iff.mpr (chunk_cons_eq_nil_iff.mp hat.2)

/-- A token that starts early enough stays the same if the line goes on, or it makes no difference
to what can be told of it: then both it and the one in the longer line end late. -/
theorem tokenAt?_append_of_some {α : Type} {view : Token → Option α} (hview : EarlyView last view)
    (hne : chars ≠ []) (hle : rules.lineComment.length ≤ chars.length)
    (hlast : last < column + chars.length) (suffix : List Char) {t : Token}
    (hat : rules.tokenAt? lineIndex column chars = some t) :
    ∃ t', rules.tokenAt? lineIndex column (chars ++ suffix) = some t' ∧
      (t' = t ∨ view t' = view t ∧ last < t.endColumn ∧ last < t'.endColumn) := by
  have hopens' := opensComment_append hle suffix
  rcases tokenAt?_cases hat with ⟨hopens, rfl⟩ | ⟨hopens, hchunk, rfl⟩
  · have hend : last < (commentToken lineIndex column chars.length).endColumn := hlast
    have hend' : last < (commentToken lineIndex column (chars ++ suffix).length).endColumn := by
      rw [List.length_append, Token.endColumn]
      exact Nat.lt_of_lt_of_le hlast (Nat.add_le_add_left (Nat.le_add_right _ _) _)
    refine ⟨_, ?_, .inr ⟨hview.comment _ _ _ _, hend, hend'⟩⟩
    rw [tokenAt?, if_pos (hopens'.trans hopens)]
  · have hprefix := chunk_prefix_append hne suffix
    have hchunk' : chunk (chars ++ suffix) ≠ [] := by
      intro hnil
      rw [hnil, List.prefix_nil] at hprefix
      exact hchunk hprefix
    have hat' : rules.tokenAt? lineIndex column (chars ++ suffix) =
        some (rules.chunkToken lineIndex column (chunk (chars ++ suffix))) := by
      rw [tokenAt?, hopens', hopens, if_neg Bool.false_ne_true, if_neg hchunk']
    refine ⟨_, hat', ?_⟩
    rcases Nat.lt_or_ge (chunk chars).length chars.length with hlt | hge
    · exact .inl (by rw [chunk_append_of_lt hlt])
    -- The chunk reaches the end of the line, and one that only grows does not end earlier.
    · have hend : last < (rules.chunkToken lineIndex column (chunk chars)).endColumn :=
        Nat.lt_of_lt_of_le hlast (Nat.add_le_add_left hge _)
      have hend' : last < (rules.chunkToken lineIndex column (chunk (chars ++ suffix))).endColumn :=
        Nat.lt_of_lt_of_le hend (Nat.add_le_add_left hprefix.length_le _)
      refine .inr ⟨?_, hend, hend'⟩
      rw [hview.long _ (classifyChunk_ne_comment _) hend,
        hview.long _ (classifyChunk_ne_comment _) hend']

/-! ## The tokens of a line -/

/-- Nothing can be told of tokens from a late column on. -/
theorem filterMap_tokensFrom_of_lt {α : Type} {view : Token → Option α}
    (hview : EarlyView last view) (hlt : last < column) (chars : List Char) :
    (rules.tokensFrom lineIndex column chars).filterMap view = [] := by
  rw [List.filterMap_eq_nil_iff]
  intro t ht
  apply hview.late
  exact Nat.lt_of_lt_of_le hlt ((rules.tiles_tokensFrom lineIndex column chars).inside ht).2.1

/-- What can be told of the early tokens of a line stays the same if the line goes on. -/
theorem filterMap_tokensFrom_append {α : Type} {view : Token → Option α}
    (hview : EarlyView last view) (hmarker : 0 < rules.lineComment.length) {column : Nat}
    {chars : List Char} (hlast : last + rules.lineComment.length ≤ column + chars.length)
    (suffix : List Char) :
    (rules.tokensFrom lineIndex column (chars ++ suffix)).filterMap view =
      (rules.tokensFrom lineIndex column chars).filterMap view := by
  rcases Nat.lt_or_ge last column with hlt | hge
  · rw [filterMap_tokensFrom_of_lt hview hlt, filterMap_tokensFrom_of_lt hview hlt]
  have hle : rules.lineComment.length ≤ chars.length := by omega
  have hne : chars ≠ [] := List.length_pos_iff.mp (Nat.lt_of_lt_of_le hmarker hle)
  have hne' : chars ++ suffix ≠ [] := by
    intro hnil
    exact hne (List.append_eq_nil_iff.mp hnil).1
  cases hat : rules.tokenAt? lineIndex column chars with
  | none =>
      have hat' := tokenAt?_append_of_none hne hle suffix hat
      obtain ⟨c, rest, rfl⟩ := List.exists_cons_of_ne_nil hne
      rw [List.length_cons] at hlast
      have hlast' : last + rules.lineComment.length ≤ column + 1 + rest.length := by omega
      have hrest := filterMap_tokensFrom_append hview hmarker hlast' suffix
      rw [List.cons_append] at hat' ⊢
      rw [tokensFrom_of_none hat, tokensFrom_of_none hat', hrest]
  | some t =>
      have hlength := length_of_tokenAt? hne hat
      obtain ⟨t', hat', hsame⟩ := tokenAt?_append_of_some hview hne hle (by omega) suffix hat
      rw [tokensFrom_of_some hne hat, tokensFrom_of_some hne' hat']
      rcases hsame with rfl | ⟨hview', hend, hend'⟩
      · have hlast' : last + rules.lineComment.length ≤
            t'.endColumn + (chars.drop t'.length).length := by
          rw [endColumn_of_tokenAt? hat, List.length_drop]
          omega
        have hrest := filterMap_tokensFrom_append hview hmarker hlast' suffix
        rw [List.drop_append_of_le_length hlength.2, List.filterMap_cons, List.filterMap_cons,
          hrest]
      · rw [List.filterMap_cons, List.filterMap_cons, hview',
          filterMap_tokensFrom_of_lt hview hend, filterMap_tokensFrom_of_lt hview hend']
termination_by chars.length

end Rules

/-- The tokens of a text that is one line. -/
theorem Tokenizer.tokenize_of_unbroken {t : Tokenizer} (h : t.rules.Valid) {line : String}
    (hline : Text.Unbroken line.toList) :
    t.tokenize line = t.rules.tokensFrom 0 0 line.toList := by
  rw [tokenize_eq h, Text.lines_of_unbroken hline]
  exact List.append_nil _

/-- A line that starts with the marker is one comment. -/
theorem Tokenizer.tokenize_marker {t : Tokenizer} (h : t.rules.Valid) {line : String}
    (hline : Text.Unbroken line.toList) (hmarker : t.rules.lineComment.toList <+: line.toList) :
    t.tokenize line = [commentToken 0 0 line.length] := by
  have hne : line.toList ≠ [] := fun hnil =>
    h.marker_ne_nil (List.prefix_nil.mp (hnil ▸ hmarker))
  rw [tokenize_of_unbroken h hline, Rules.tokensFrom_marker hne hmarker, String.length_toList]

/-- A comment of a text starts at a column. -/
def Tokenizer.CommentAt (t : Tokenizer) (text : String) (column : Nat) : Prop :=
  ∃ token ∈ t.tokenize text, token.category = .comment ∧ token.startColumn = column

theorem Tokenizer.commentAt_iff {t : Tokenizer} {text : String} {column last : Nat}
    (hle : column ≤ last) :
    t.CommentAt text column ↔
      column ∈ (t.tokenize text).filterMap (Token.earlyComment? last) := by
  rw [List.mem_filterMap]
  constructor
  · intro h
    obtain ⟨token, hmem, hcategory, hstart⟩ := h
    refine ⟨token, hmem, ?_⟩
    rw [Token.earlyComment?, hstart, if_pos ⟨hcategory, hle⟩]
  · intro h
    obtain ⟨token, hmem, hview⟩ := h
    obtain ⟨hearly, hstart⟩ := Option.ite_none_right_eq_some.mp hview
    exact ⟨token, hmem, hearly.1, Option.some.inj hstart⟩

/-- However a line goes on, the tokens up to the column that lies the length of the marker before
its end stay the same: the words and numbers that end there or earlier, and the places where comments
start. -/
theorem Tokenizer.Obtained.early_tokens {t : Tokenizer} (h : t.Obtained) {line suffix : String}
    (hline : Text.Unbroken line.toList) (hsuffix : Text.Unbroken suffix.toList) {last : Nat}
    (hlast : last + t.rules.lineComment.length = line.length) :
    (t.tokenize line).filter (Token.isEarlyChunk last) =
        (t.tokenize (line ++ suffix)).filter (Token.isEarlyChunk last) ∧
      ∀ column ≤ last, t.CommentAt line column ↔ t.CommentAt (line ++ suffix) column := by
  have hmarker : 0 < t.rules.lineComment.length := by
    rw [← String.length_toList]
    exact List.length_pos_iff.mpr h.valid.marker_ne_nil
  have hle : last + t.rules.lineComment.length ≤ 0 + line.toList.length := by
    rw [hlast, String.length_toList, Nat.zero_add]
  have hwhole : Text.Unbroken (line ++ suffix).toList := by
    intro c hc
    rw [String.toList_append, List.mem_append] at hc
    exact hc.elim (hline c) (hsuffix c)
  have hview : ∀ {α : Type} (view : Token → Option α), EarlyView last view →
      (t.tokenize (line ++ suffix)).filterMap view = (t.tokenize line).filterMap view := by
    intro α view hearly
    rw [tokenize_of_unbroken h.valid hline, tokenize_of_unbroken h.valid hwhole,
      String.toList_append]
    exact Rules.filterMap_tokensFrom_append hearly hmarker hle _
  constructor
  · rw [← List.filterMap_eq_filter, hview _ (earlyView_chunk last)]
  · intro column hcolumn
    rw [commentAt_iff hcolumn, commentAt_iff hcolumn, hview _ (earlyView_comment last)]

/-- The last two characters of the line become the start of a marker, and their word disappears. -/
theorem Tokenizer.early_tokens_remarks :
    let t := Tokenizer.mk Rules.remarks
    let early : List Token :=
      [⟨0, 0, 2, .identifier, .singleton .declaration⟩,
        ⟨0, 3, 2, .keyword, .singleton .modification⟩]
    t.Obtained ∧
      t.tokenize "go if re" = early ++ [⟨0, 6, 2, .identifier, .singleton .declaration⟩] ∧
      t.tokenize ("go if re" ++ "m 1") = early ++ [⟨0, 6, 5, .comment, .singleton .documentation⟩] ∧
      (t.tokenize "go if re").filter (Token.isEarlyChunk 5) =
        (t.tokenize ("go if re" ++ "m 1")).filter (Token.isEarlyChunk 5) ∧
      ∀ column ≤ 5, t.CommentAt "go if re" column ↔ t.CommentAt ("go if re" ++ "m 1") column := by
  intro t early
  have hearly : (t.tokenize "go if re").filter (Token.isEarlyChunk 5) =
        (t.tokenize ("go if re" ++ "m 1")).filter (Token.isEarlyChunk 5) ∧
      ∀ column ≤ 5, t.CommentAt "go if re" column ↔ t.CommentAt ("go if re" ++ "m 1") column :=
    Obtained.early_tokens remarks_obtained (by decide) (by decide) rfl
  exact ⟨remarks_obtained, by decide +kernel, by decide +kernel, hearly⟩

end LineLexer
