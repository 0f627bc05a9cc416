import LineLexer.Proofs.Layouts
import LineLexer.Proofs.Tiling

/-!
# Skipped characters

The characters of a text that belong to no token and to no line break have no say in its tokens.
`Text.overwrite` writes another character over all of them at once. If this is neither a letter nor
a digit, ends no line and does not occur in the comment marker, then no marker comes to stand
anywhere, `Text.prefix_of_overwriteLine`, words and numbers go on as far as before,
`chunk_overwriteLine`, and the tokens stay the same, first at one place,
`Rules.tokenAt?_overwriteLine`, then in a line, `Rules.tokensFrom_overwriteLine`. The main statement
is `Obtained.tokenize_overwriteSkipped`.
-/

namespace LineLexer

namespace Text

/-- Write `z` over the characters of a line that are not kept. The first one stands at a given
column. -/
def overwriteLine (kept : Nat → Bool) (z : Char) (column : Nat) : List Char → List Char
  | [] => []
  | c :: rest => (if kept column then c else z) :: overwriteLine kept z (column + 1) rest

/-- Write `z` over the characters of a text that end no line and are not kept. The first one stands
in a given line at a given column. -/
def overwrite (kept : Nat → Nat → Bool) (z : Char) (lineIndex column : Nat) :
    List Char → List Char
  | [] => []
  | '\r' :: '\n' :: rest => '\r' :: '\n' :: overwrite kept z (lineIndex + 1) 0 rest
  | c :: rest =>
    if isLineBreak c then c :: overwrite kept z (lineIndex + 1) 0 rest
    else (if kept lineIndex column then c else z) :: overwrite kept z lineIndex (column + 1) rest

/-- Write `z` over the characters of consecutive lines that are not kept. The first line begins at a
given column. -/
def overwriteLines (kept : Nat → Nat → Bool) (z : Char) :
    Nat → Nat → List (List Char) → List (List Char)
  | _, _, [] => []
  | lineIndex, column, line :: more =>
    overwriteLine (kept lineIndex) z column line :: overwriteLines kept z (lineIndex + 1) 0 more

variable {kept : Nat → Bool} {z : Char} {column : Nat} {chars : List Char}

/-! ## One line -/

theorem drop_overwriteLine (n : Nat) :
    (overwriteLine kept z column chars).drop n =
      overwriteLine kept z (column + n) (chars.drop n) := by
  induction n generalizing column chars with
  | zero => rfl
  | succ n ih =>
      cases chars with
      | nil => rfl
      | cons c rest =>
          rw [overwriteLine, List.drop_succ_cons, List.drop_succ_cons, ih, Nat.add_right_comm,
            Nat.add_assoc]

/-- A line of which everything is kept stays as it is. -/
theorem overwriteLine_eq_self
    (hkept : ∀ k, column ≤ k → k < column + chars.length → kept k = true) :
    overwriteLine kept z column chars = chars := by
  induction chars generalizing column with
  | nil => rfl
  | cons c rest ih =>
      rw [List.length_cons] at hkept
      rw [overwriteLine, if_pos (hkept column (Nat.le_refl _) (by omega)),
        ih fun k hle hlt => hkept k (by omega) (by omega)]

/-- A pattern that `z` does not occur in stands nowhere where it has not stood before. -/
theorem prefix_of_overwriteLine {pattern : List Char} (hz : z ∉ pattern)
    (h : pattern <+: overwriteLine kept z column chars) : pattern <+: chars := by
  induction chars generalizing pattern column with
  | nil => exact h
  | cons c rest ih =>
      cases pattern with
      | nil => exact List.nil_prefix
      | cons p more =>
          obtain ⟨hp, hmore⟩ := List.cons_prefix_cons.mp h
          have hhead : p = c := by
            split at hp
            · exact hp
            · exact absurd (hp ▸ List.mem_cons_self) hz
          rw [hhead, List.cons_prefix_cons]
          exact ⟨rfl, ih (fun hmem => hz (List.mem_cons_of_mem _ hmem)) hmore⟩

/-- A run that is kept goes on as far as before, because `z` does not belong to it. -/
theorem takeWhile_overwriteLine {p : Char → Bool} (hz : p z = false)
    (hkept : ∀ k, column ≤ k → k < column + (chars.takeWhile p).length → kept k = true) :
    (overwriteLine kept z column chars).takeWhile p = chars.takeWhile p := by
  induction chars generalizing column with
  | nil => rfl
  | cons c rest ih =>
      rw [overwriteLine]
      cases hc : p c with
      | true =>
          rw [List.takeWhile_cons_of_pos hc, List.length_cons] at hkept
          rw [if_pos (hkept column (Nat.le_refl _) (by omega)), List.takeWhile_cons_of_pos hc,
            List.takeWhile_cons_of_pos hc, ih fun k hle hlt => hkept k (by omega) (by omega)]
      | false =>
          have hhead : p (if kept column then c else z) = false := by
            split
            · exact hc
            · exact hz
          rw [List.takeWhile_cons_of_neg (Bool.eq_false_iff.mp hhead),
            List.takeWhile_cons_of_neg (Bool.eq_false_iff.mp hc)]

/-! ## Texts -/

/-- Where no line feed has stood first none comes to stand. -/
theorem head?_overwrite_ne {kept : Nat → Nat → Bool} {lineIndex : Nat} {text : List Char}
    (hz : isLineBreak z = false) (h : text.head? ≠ some '\n') :
    (overwrite kept z lineIndex column text).head? ≠ some '\n' := by
  have hne : z ≠ '\n' := fun heq => by
    rw [isLineBreak_iff.mpr (.inl heq)] at hz
    cases hz
  unfold overwrite
  split
  · exact h
  · intro hhead
    cases hhead
  · next c rest _ =>
      rw [List.head?_cons, Ne, Option.some.injEq] at h
      split <;> rw [List.head?_cons, Ne, Option.some.injEq]
      · exact h
      · split
        · exact h
        · exact hne

theorem overwriteLines_consFirst {kept : Nat → Nat → Bool} {lines : List (List Char)} (c : Char)
    (hne : lines ≠ []) (lineIndex column : Nat) :
    overwriteLines kept z lineIndex column (consFirst c lines) =
      consFirst (if kept lineIndex column then c else z)
        (overwriteLines kept z lineIndex (column + 1) lines) := by
  obtain ⟨line, more, rfl⟩ := List.exists_cons_of_ne_nil hne
  rfl

/-- To write over the characters of a text is to write over those of its lines. -/
theorem lines_overwrite {kept : Nat → Nat → Bool} (hz : isLineBreak z = false)
    (lineIndex column : Nat) (text : List Char) :
    lines (overwrite kept z lineIndex column text) =
      overwriteLines kept z lineIndex column (lines text) := by
  fun_induction overwrite kept z lineIndex column text with
  | case1 => rfl
  | case2 lineIndex column rest ih =>
      show [] :: lines (overwrite kept z (lineIndex + 1) 0 rest) = _
      rw [ih]
      rfl
  -- No line feed comes to stand behind a carriage return, so that the break stays what it is.
  | case3 lineIndex column c rest hpair hbreak ih =>
      have hhead : c = '\r' → (overwrite kept z (lineIndex + 1) 0 rest).head? ≠ some '\n' :=
        fun hc => head?_overwrite_ne hz (head?_ne_of_not_pair hpair hc)
      rw [lines_cons hhead, if_pos hbreak, ih, lines_cons (head?_ne_of_not_pair hpair),
        if_pos hbreak]
      rfl
  | case4 lineIndex column c rest hpair hbreak ih =>
      have hinside : isLineBreak c = false := Bool.eq_false_iff.mpr hbreak
      have hwritten : isLineBreak (if kept lineIndex column then c else z) = false := by
        split
        · exact hinside
        · exact hz
      rw [lines_cons_of_unbroken hwritten, ih, lines_cons_of_unbroken hinside,
        overwriteLines_consFirst c (lines_ne_nil rest)]

end Text

open Text

variable {kept : Nat → Bool} {z : Char} {column : Nat} {chars : List Char}

/-- A word or a number that is kept goes on as far as before. -/
theorem chunk_overwriteLine (hz : z.isAlphanum = false) (hne : chunk chars ≠ [])
    (hkept : ∀ k, column ≤ k → k < column + (chunk chars).length → kept k = true) :
    chunk (overwriteLine kept z column chars) = chunk chars := by
  have hdigit : z.isDigit = false := by
    rw [Bool.eq_false_iff] at hz ⊢
    exact fun hdigit => hz (isAlphanum_of_isDigit hdigit)
  have hhead : (overwriteLine kept z column chars).head? = chars.head? := by
    cases chars with
    | nil => rfl
    | cons c rest =>
        have hpos := List.length_pos_iff.mpr hne
        rw [overwriteLine, if_pos (hkept column (Nat.le_refl _) (by omega))]
        rfl
  unfold chunk at hkept ⊢
  rw [hhead]
  split
  · next halpha =>
      rw [if_pos halpha] at hkept
      exact takeWhile_overwriteLine hz hkept
  · next halpha =>
      rw [if_neg halpha] at hkept
      exact takeWhile_overwriteLine hdigit hkept

namespace Rules

variable {rules : Rules} {lineIndex : Nat}

/-- Where no marker has stood none comes to stand. -/
theorem opensComment_overwriteLine (hz : z ∉ rules.lineComment.toList)
    (hopens : rules.opensComment chars = false) :
    rules.opensComment (overwriteLine kept z column chars) = false := by
  rw [Bool.eq_false_iff] at hopens ⊢
  exact fun h => hopens (opensComment_iff.mpr (prefix_of_overwriteLine hz (opensComment_iff.mp h)))

/-- A token stays the same if its own characters are kept. -/
theorem tokenAt?_overwriteLine (hz : z.isAlphanum = false) (hmarker : z ∉ rules.lineComment.toList)
    {t : Token} (hat : rules.tokenAt? lineIndex column chars = some t)
    (hkept : ∀ k, column ≤ k → k < t.endColumn → kept k = true) :
    rules.tokenAt? lineIndex column (overwriteLine kept z column chars) = some t := by
  rcases tokenAt?_cases hat with ⟨_, rfl⟩ | ⟨hopens, hchunk, rfl⟩
  -- A comment takes the rest of the line, so that nothing is written over.
  · rw [overwriteLine_eq_self hkept, hat]
  · rw [tokenAt?, opensComment_overwriteLine hmarker hopens, if_neg Bool.false_ne_true,
      chunk_overwriteLine hz hchunk hkept, if_neg hchunk]

/-- Where no token starts none does afterwards. -/
theorem tokenAt?_overwriteLine_of_none (hz : z.isAlphanum = false)
    (hmarker : z ∉ rules.lineComment.toList) {c : Char} {rest : List Char}
    (hat : rules.tokenAt? lineIndex column (c :: rest) = none) :
    rules.tokenAt? lineIndex column (overwriteLine kept z column (c :: rest)) = none := by
  obtain ⟨hopens, hchunk⟩ := tokenAt?_eq_none_iff.mp hat
  refine tokenAt?_eq_none_iff.mpr ⟨opensComment_overwriteLine hmarker hopens, ?_⟩
  rw [overwriteLine, chunk_cons_eq_nil_iff]
  split
  · exact chunk_cons_eq_nil_iff.mp hchunk
  · exact hz

/-- The tokens of a line stay the same if their characters are kept. -/
theorem tokensFrom_overwriteLine (hz : z.isAlphanum = false)
    (hmarker : z ∉ rules.lineComment.toList) (column : Nat) (chars : List Char)
    (hkept : ∀ t ∈ rules.tokensFrom lineIndex column chars, ∀ k, t.startColumn ≤ k →
      k < t.endColumn → kept k = true) :
    rules.tokensFrom lineIndex column (overwriteLine kept z column chars) =
      rules.tokensFrom lineIndex column chars := by
  fun_induction rules.tokensFrom lineIndex column chars with
  | case1 column => rw [overwriteLine, tokensFrom_nil]
  | case2 column c rest hat ih =>
      have hat' :
          rules.tokenAt? lineIndex column (overwriteLine kept z column (c :: rest)) = none :=
        tokenAt?_overwriteLine_of_none hz hmarker hat
      rw [overwriteLine] at hat' ⊢
      rw [tokensFrom_of_none hat', ih hkept]
  | case3 column c rest t hat ih =>
      obtain ⟨hfirst, hlater⟩ := List.forall_mem_cons.mp hkept
      rw [startColumn_of_tokenAt? hat] at hfirst
      have hne : overwriteLine kept z column (c :: rest) ≠ [] := List.cons_ne_nil _ _
      rw [tokensFrom_of_some hne (tokenAt?_overwriteLine hz hmarker hat hfirst), drop_overwriteLine,
        ← endColumn_of_tokenAt? hat, ih hlater]

/-- The tokens of consecutive lines stay the same if their characters are kept. -/
theorem tokensOfLines_overwriteLines {kept : Nat → Nat → Bool} (hz : z.isAlphanum = false)
    (hmarker : z ∉ rules.lineComment.toList) (lineIndex : Nat) (lines : List (List Char))
    (hkept : ∀ t ∈ rules.tokensOfLines lineIndex lines, ∀ k, t.startColumn ≤ k →
      k < t.endColumn → kept t.line k = true) :
    rules.tokensOfLines lineIndex (overwriteLines kept z lineIndex 0 lines) =
      rules.tokensOfLines lineIndex lines := by
  induction lines generalizing lineIndex with
  | nil => rfl
  | cons line more ih =>
      obtain ⟨hline, hmore⟩ := List.forall_mem_append.mp hkept
      rw [overwriteLines, tokensOfLines, tokensOfLines, ih (lineIndex + 1) hmore,
        tokensFrom_overwriteLine hz hmarker]
      intro t ht k hle hlt
      rw [← line_of_mem_tokensFrom ht]
      exact hline t ht k hle hlt

end Rules

/-- Write `z` over all characters of a text that are neither part of a line break nor covered by one
of its tokens. -/
def Tokenizer.overwriteSkipped (t : Tokenizer) (z : Char) (text : String) : String :=
  String.ofList (overwrite (fun lineIndex column =>
    (t.tokenize text).any fun token => token.Covers lineIndex column) z 0 0 text.toList)

/-- Skipped characters say nothing: whatever stands in their place, the tokens of a text stay the
same, as long as it is neither a letter nor a digit, ends no line and does not occur in the comment
marker. -/
theorem Tokenizer.Obtained.tokenize_overwriteSkipped {t : Tokenizer} (h : t.Obtained)
    (text : String) {z : Char} (hz : z.isAlphanum = false) (hbreak : isLineBreak z = false)
    (hmarker : z ∉ t.rules.lineComment.toList) :
    t.tokenize (t.overwriteSkipped z text) = t.tokenize text := by
  have htokens := tokenize_eq h.valid text
  rw [tokenize_eq h.valid (t.overwriteSkipped z text), overwriteSkipped, String.toList_ofList,
    lines_overwrite hbreak, htokens]
  apply Rules.tokensOfLines_overwriteLines hz hmarker
  intro token htoken k hle hlt
  exact List.any_eq_true.mpr ⟨token, htoken, decide_eq_true ⟨rfl, hle, hlt⟩⟩

/-- The blanks, the dashes and the dots of three lines are written over, but not those of the
comment. -/
theorem Tokenizer.tokenize_overwriteSkipped_remarks :
    let text := "2go- .if\r\n--\rre rem- 1"
    let t := Tokenizer.mk Rules.remarks
    t.Obtained ∧ t.overwriteSkipped '!' text = "2go!!!if\r\n!!\rre!rem- 1" ∧
      t.tokenize "2go!!!if\r\n!!\rre!rem- 1" =
        [⟨0, 0, 1, .number, .singleton .static⟩, ⟨0, 1, 2, .identifier, .singleton .declaration⟩,
          ⟨0, 6, 2, .keyword, .singleton .modification⟩,
          ⟨2, 0, 2, .identifier, .singleton .declaration⟩,
          ⟨2, 3, 6, .comment, .singleton .documentation⟩] := by
  intro text t
  have hwritten : t.overwriteSkipped '!' text = "2go!!!if\r\n!!\rre!rem- 1" := by decide +kernel
  have hsame : t.tokenize (t.overwriteSkipped '!' text) = t.tokenize text :=
    Obtained.tokenize_overwriteSkipped remarks_obtained text (by decide) (by decide) (by decide)
  refine ⟨remarks_obtained, hwritten, ?_⟩
  rw [← hwritten, hsame]
  decide +kernel

end LineLexer
