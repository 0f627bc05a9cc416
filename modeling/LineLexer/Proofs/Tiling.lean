import LineLexer.Proofs.TextTokens

/-!
# How tokens lie in their lines

The tokens of a text come in the order of their positions, keep within their lines and do not
overlap; a comment reaches to the end of its line, every letter and every digit is in exactly one
token, and a token that is no comment covers nothing else. `Tiles` says how the tokens of one line
arise from left to right, and `Tiling` collects what follows for a text. The main statement is
`Obtained.tiling`.
-/

namespace LineLexer

/-- A token covers a column of a line. -/
def Token.Covers (t : Token) (lineIndex column : Nat) : Prop :=
  t.line = lineIndex ∧ t.startColumn ≤ column ∧ column < t.endColumn

/-- Whether a token covers a column is a comparison of numbers. -/
instance (t : Token) (lineIndex column : Nat) : Decidable (t.Covers lineIndex column) :=
  inferInstanceAs (Decidable (_ ∧ _))

/-- The tokens of a line from a column on, where the characters from there on are given: between two
tokens there are neither letters nor digits, a comment takes all characters that are left, and any
other token takes letters and digits. -/
inductive Tiles (lineIndex : Nat) : Nat → List Char → List Token → Prop where
  | finish (column : Nat) : Tiles lineIndex column [] []
  | skip (column : Nat) (c : Char) (rest : List Char) (tokens : List Token) :
      c.isAlphanum = false → Tiles lineIndex (column + 1) rest tokens →
      Tiles lineIndex column (c :: rest) tokens
  | token (chars : List Char) (t : Token) (tokens : List Token) :
      t.line = lineIndex → 0 < t.length → t.length ≤ chars.length →
      (t.category = .comment → t.length = chars.length) →
      (t.category ≠ .comment → ∀ c ∈ chars.take t.length, c.isAlphanum = true) →
      Tiles lineIndex t.endColumn (chars.drop t.length) tokens →
      Tiles lineIndex t.startColumn chars (t :: tokens)

/-- Reading a line makes tokens of this kind. -/
theorem Rules.tiles_tokensFrom (rules : Rules) (lineIndex column : Nat) (chars : List Char) :
    Tiles lineIndex column chars (rules.tokensFrom lineIndex column chars) := by
  fun_induction rules.tokensFrom lineIndex column chars with
  | case1 column => exact .finish column
  | case2 column c rest hat ih =>
      exact .skip _ _ _ _ (chunk_cons_eq_nil_iff.mp (tokenAt?_eq_none_iff.mp hat).2) ih
  | case3 column c rest t hat ih =>
      obtain ⟨hpos, hle⟩ := length_of_tokenAt? (by simp) hat
      have hstart := startColumn_of_tokenAt? hat
      subst hstart
      refine .token _ t _ (line_of_tokenAt? hat) hpos hle ?_ ?_ ih
      · rcases tokenAt?_cases hat with ⟨_, ht⟩ | ⟨_, _, ht⟩
        · intro _
          rw [ht]
          rfl
        · rw [ht]
          exact fun hcomment => (classifyChunk_ne_comment _ hcomment).elim
      · rcases tokenAt?_cases hat with ⟨_, ht⟩ | ⟨_, _, ht⟩
        · rw [ht]
          exact fun hne => (hne rfl).elim
        · intro _ d hd
          have hlength : t.length = (chunk (c :: rest)).length := congrArg Token.length ht
          rw [hlength, ← chunk_eq_take] at hd
          exact isAlphanum_of_mem_chunk hd

namespace Tiles

variable {lineIndex column : Nat} {chars : List Char} {tokens : List Token}

theorem eq_nil (h : Tiles lineIndex column [] tokens) : tokens = [] := by
  cases h with
  | finish => rfl
  | token _ t _ _ hpos hle => exact absurd hle (by simp; omega)

/-- No token leaves the line, and none is empty. -/
theorem inside (h : Tiles lineIndex column chars tokens) {t : Token} (ht : t ∈ tokens) :
    t.line = lineIndex ∧ column ≤ t.startColumn ∧ 0 < t.length ∧
      t.endColumn ≤ column + chars.length := by
  induction h with
  | finish => simp at ht
  | skip column c rest tokens _ _ ih =>
      obtain ⟨hline, hstart, hpos, hend⟩ := ih ht
      rw [List.length_cons]
      exact ⟨hline, by omega, hpos, by omega⟩
  | token chars head tokens hline hpos hle _ _ _ ih =>
      rcases List.mem_cons.mp ht with rfl | ht
      · exact ⟨hline, Nat.le_refl _, hpos, Nat.add_le_add_left hle _⟩
      · obtain ⟨htline, hstart, htpos, hend⟩ := ih ht
        simp only [Token.endColumn, List.length_drop] at hstart hend ⊢
        exact ⟨htline, by omega, htpos, by omega⟩

/-- Each token ends before the next one starts, and only the last one may be a comment. -/
theorem ordered (h : Tiles lineIndex column chars tokens) :
    tokens.Pairwise fun left right =>
      left.category ≠ .comment ∧ left.endColumn ≤ right.startColumn := by
  induction h with
  | finish => exact .nil
  | skip _ _ _ _ _ _ ih => exact ih
  | token chars t tokens _ _ _ hcomment _ hrest ih =>
      refine .cons (fun later hlater => ⟨fun hcategory => ?_, (hrest.inside hlater).2.1⟩) ih
      rw [hcomment hcategory, List.drop_length] at hrest
      simp [hrest.eq_nil] at hlater

/-- A comment ends where the line ends. -/
theorem endColumn_eq (h : Tiles lineIndex column chars tokens) {t : Token} (ht : t ∈ tokens)
    (hcategory : t.category = .comment) : t.endColumn = column + chars.length := by
  induction h with
  | finish => simp at ht
  | skip column c rest tokens _ _ ih =>
      rw [ih ht, List.length_cons]
      omega
  | token chars head tokens _ _ hle hcomment _ _ ih =>
      rcases List.mem_cons.mp ht with rfl | ht
      · rw [Token.endColumn, hcomment hcategory]
      · rw [ih ht, Token.endColumn, List.length_drop]
        omega

/-- What a token covers that is no comment is a letter or a digit. -/
theorem isAlphanum_of_covers (h : Tiles lineIndex column chars tokens) {t : Token} (ht : t ∈ tokens)
    (hcategory : t.category ≠ .comment) {place : Nat} (hcovers : t.Covers lineIndex place) :
    ∃ c, chars[place - column]? = some c ∧ c.isAlphanum = true := by
  obtain ⟨-, hlow, hhigh⟩ := hcovers
  induction h with
  | finish => simp at ht
  | skip column c rest tokens _ hrest ih =>
      obtain ⟨d, hd, halphanum⟩ := ih ht
      have hstart := (hrest.inside ht).2.1
      refine ⟨d, ?_, halphanum⟩
      rw [show place - column = (place - (column + 1)) + 1 by omega, List.getElem?_cons_succ, hd]
  | token chars head tokens _ _ hle _ hchunk hrest ih =>
      rcases List.mem_cons.mp ht with rfl | ht
      -- The place counts from the start of this token, which covers the first characters.
      · unfold Token.endColumn at hhigh
        have hlt : place - t.startColumn < t.length := by omega
        have hget : (chars.take t.length)[place - t.startColumn]? =
            some chars[place - t.startColumn] := by
          rw [List.getElem?_take_of_lt hlt, List.getElem?_eq_getElem]
        refine ⟨_, ?_, hchunk hcategory _ (List.mem_of_getElem? hget)⟩
        rw [List.getElem?_eq_getElem]
      · obtain ⟨d, hd, halphanum⟩ := ih ht
        have hstart := (hrest.inside ht).2.1
        refine ⟨d, ?_, halphanum⟩
        rw [List.getElem?_drop] at hd
        rw [← hd]
        unfold Token.endColumn at hstart ⊢
        congr 1
        omega

/-- No token covers a column before the first one. -/
theorem countP_eq_zero (h : Tiles lineIndex column chars tokens) {i place : Nat}
    (hbefore : i = lineIndex → place < column) :
    tokens.countP (fun t => t.Covers i place) = 0 := by
  rw [List.countP_eq_zero]
  rintro t ht hcovers
  obtain ⟨hline, hstart, -, -⟩ := h.inside ht
  obtain ⟨hsame, hlow, -⟩ := of_decide_eq_true hcovers
  have := hbefore (hsame.symm.trans hline)
  omega

/-- Every letter and every digit is covered once. -/
theorem countP_eq_one (h : Tiles lineIndex column chars tokens) {place : Nat} {c : Char}
    (hget : chars[place]? = some c) (halphanum : c.isAlphanum = true) :
    tokens.countP (fun t => t.Covers lineIndex (column + place)) = 1 := by
  induction h generalizing place with
  | finish => simp at hget
  | skip column d rest tokens hskip _ ih =>
      cases place with
      | zero =>
          obtain rfl : d = c := Option.some.inj hget
          rw [halphanum] at hskip
          cases hskip
      | succ place =>
          rw [List.getElem?_cons_succ] at hget
          rw [show column + (place + 1) = column + 1 + place by omega]
          exact ih hget
  | token chars t tokens hline _ _ _ _ hrest ih =>
      rw [List.countP_cons]
      -- Either the token covers the place and none of the later ones does, or it ends before it.
      by_cases hcovers : place < t.length
      · have hin : t.Covers lineIndex (t.startColumn + place) :=
          ⟨hline, Nat.le_add_right _ _, Nat.add_lt_add_left hcovers _⟩
        have hlater : tokens.countP (fun u => u.Covers lineIndex (t.startColumn + place)) = 0 :=
          hrest.countP_eq_zero fun _ => Nat.add_lt_add_left hcovers _
        rw [hlater, if_pos (by simpa using hin)]
      · have hout : ¬ t.Covers lineIndex (t.startColumn + place) := fun hin =>
          hcovers (Nat.lt_of_add_lt_add_left hin.2.2)
        have hdrop : (chars.drop t.length)[place - t.length]? = some c := by
          rw [List.getElem?_drop, ← hget]
          congr 1
          omega
        have hlater := ih hdrop
        rw [Token.endColumn, show t.startColumn + t.length + (place - t.length) =
          t.startColumn + place by omega] at hlater
        rw [hlater, if_neg (by simpa using hout)]

end Tiles

/-! ## Texts -/

/-- How the tokens of a text lie in its lines. -/
structure Tiling (lines : List (List Char)) (tokens : List Token) : Prop where
  /-- Every token covers at least one character, all of them in its line. -/
  inside : ∀ t ∈ tokens, 0 < t.length ∧ ∃ line, lines[t.line]? = some line ∧
    t.endColumn ≤ line.length
  /-- Tokens come in the order of their positions and do not overlap. -/
  ordered : tokens.Pairwise fun left right => left.position < right.position ∧
    (left.line = right.line → left.endColumn ≤ right.startColumn)
  /-- A comment is the last token of its line. -/
  comment_last : tokens.Pairwise fun left right =>
    left.category = .comment → left.line ≠ right.line
  /-- A comment ends where its line ends. -/
  comment_end : ∀ t ∈ tokens, t.category = .comment → ∀ line, lines[t.line]? = some line →
    t.endColumn = line.length
  /-- No line has two comments. -/
  comment_once : ∀ i, tokens.countP (fun t => t.line = i ∧ t.category = .comment) ≤ 1
  /-- Every letter and every digit of a line is covered by one token. -/
  covered : ∀ i chars, lines[i]? = some chars → ∀ column c, chars[column]? = some c →
    c.isAlphanum = true → tokens.countP (fun t => t.Covers i column) = 1
  /-- A token that is no comment covers letters and digits. -/
  alphanum : ∀ t ∈ tokens, t.category ≠ .comment → ∀ chars, lines[t.line]? = some chars →
    ∀ column, t.Covers t.line column → ∃ c, chars[column]? = some c ∧ c.isAlphanum = true

namespace Rules

variable {rules : Rules} {lineIndex : Nat} {lines : List (List Char)}

/-- A token of some lines is a token of one of them. -/
theorem mem_tokensOfLines {t : Token} :
    t ∈ rules.tokensOfLines lineIndex lines ↔
      ∃ i line, lines[i]? = some line ∧ t ∈ rules.tokensFrom (lineIndex + i) 0 line := by
  rw [tokensOfLines_eq_mapIdx, List.mem_flatten]
  constructor
  · rintro ⟨tokens, htokens, ht⟩
    obtain ⟨i, hi, rfl⟩ := List.mem_mapIdx.mp htokens
    exact ⟨i, lines[i], List.getElem?_eq_getElem hi, ht⟩
  · rintro ⟨i, line, hline, ht⟩
    obtain ⟨hi, rfl⟩ := List.getElem?_eq_some_iff.mp hline
    exact ⟨_, List.mem_mapIdx.mpr ⟨i, hi, rfl⟩, ht⟩

/-- The line of a token of some lines is the one that it was read in. -/
theorem exists_line_of_mem {t : Token} (ht : t ∈ rules.tokensOfLines 0 lines) :
    ∃ line, lines[t.line]? = some line ∧ t ∈ rules.tokensFrom t.line 0 line := by
  obtain ⟨i, line, hline, ht⟩ := mem_tokensOfLines.mp ht
  rw [Nat.zero_add] at ht
  obtain rfl := ((rules.tiles_tokensFrom i 0 line).inside ht).1
  exact ⟨line, hline, ht⟩

theorem line_of_mem_tokensFrom {column : Nat} {chars : List Char} {t : Token}
    (ht : t ∈ rules.tokensFrom lineIndex column chars) : t.line = lineIndex :=
  ((rules.tiles_tokensFrom lineIndex column chars).inside ht).1

theorem le_line_of_mem_tokensOfLines {t : Token} (ht : t ∈ rules.tokensOfLines lineIndex lines) :
    lineIndex ≤ t.line := by
  obtain ⟨i, line, -, ht⟩ := mem_tokensOfLines.mp ht
  rw [line_of_mem_tokensFrom ht]
  exact Nat.le_add_right _ _

/-- What holds between two tokens of one line, the earlier one first, and between tokens of
different lines, holds between any two tokens. -/
theorem pairwise_tokensOfLines {R : Token → Token → Prop}
    (hline : ∀ i line, (rules.tokensFrom i 0 line).Pairwise R)
    (hlines : ∀ left right : Token, left.line < right.line → R left right) (lineIndex : Nat)
    (lines : List (List Char)) : (rules.tokensOfLines lineIndex lines).Pairwise R := by
  induction lines generalizing lineIndex with
  | nil => exact .nil
  | cons line more ih =>
      refine List.pairwise_append.mpr ⟨hline lineIndex line, ih (lineIndex + 1), ?_⟩
      intro left hleft right hright
      apply hlines
      rw [line_of_mem_tokensFrom hleft]
      exact le_line_of_mem_tokensOfLines hright

/-- The tokens of some lines that have a property of tokens of one line are found in that line. -/
theorem filter_tokensOfLines {p : Token → Bool} {i : Nat} {line : List Char}
    (hline : lines[i]? = some line) (hp : ∀ t, p t = true → t.line = lineIndex + i) :
    (rules.tokensOfLines lineIndex lines).filter p =
      (rules.tokensFrom (lineIndex + i) 0 line).filter p := by
  induction lines generalizing lineIndex i with
  | nil => simp at hline
  | cons first more ih =>
      rw [tokensOfLines, List.filter_append]
      cases i with
      | zero =>
          obtain rfl : first = line := Option.some.inj hline
          have hlater : (rules.tokensOfLines (lineIndex + 1) more).filter p = [] := by
            rw [List.filter_eq_nil_iff]
            intro t ht hpt
            have hle := le_line_of_mem_tokensOfLines ht
            rw [hp t hpt] at hle
            omega
          rw [hlater, List.append_nil]
          rfl
      | succ i =>
          have hfirst : (rules.tokensFrom lineIndex 0 first).filter p = [] := by
            rw [List.filter_eq_nil_iff]
            intro t ht hpt
            have heq := (line_of_mem_tokensFrom ht).symm.trans (hp t hpt)
            omega
          have hshift : lineIndex + (i + 1) = lineIndex + 1 + i := by omega
          rw [hfirst, List.nil_append, hshift]
          exact ih hline fun t hpt => (hp t hpt).trans hshift

/-- Tokens of one line are counted in that line. -/
theorem countP_tokensOfLines {p : Token → Bool} {i : Nat} {line : List Char}
    (hline : lines[i]? = some line) (hp : ∀ t, p t = true → t.line = lineIndex + i) :
    (rules.tokensOfLines lineIndex lines).countP p =
      (rules.tokensFrom (lineIndex + i) 0 line).countP p := by
  rw [List.countP_eq_length_filter, List.countP_eq_length_filter, filter_tokensOfLines hline hp]

end Rules

/-- If no two members of a list can have a property, at most one has. -/
theorem countP_le_one_of_pairwise {α : Type} {p : α → Bool} {xs : List α}
    (h : xs.Pairwise fun x y => p x = true → p y = false) : xs.countP p ≤ 1 := by
  induction h with
  | nil => simp
  | @cons x xs hx _ ih =>
      cases hp : p x with
      | false => simpa [hp] using ih
      | true =>
          have hzero : xs.countP p = 0 := List.countP_eq_zero.mpr fun y hy => by simp [hx y hy hp]
          simp [hp, hzero]

namespace Rules

/-- Tokens come in the order of their positions, and those of one line do not overlap. -/
theorem ordered_tokensOfLines (rules : Rules) (lineIndex : Nat) (lines : List (List Char)) :
    (rules.tokensOfLines lineIndex lines).Pairwise fun left right =>
      left.position < right.position ∧
        (left.line = right.line → left.endColumn ≤ right.startColumn) := by
  refine pairwise_tokensOfLines (fun i line => ?_) (fun left right hlt => ?_) _ _
  · have htiles := rules.tiles_tokensFrom i 0 line
    refine htiles.ordered.imp_of_mem fun {left right} hleft hright hpair => ?_
    obtain ⟨hlineLeft, -, hpos, -⟩ := htiles.inside hleft
    obtain ⟨hlineRight, -, -, -⟩ := htiles.inside hright
    have hlt : left.startColumn < right.startColumn :=
      Nat.lt_of_lt_of_le (Nat.lt_add_of_pos_right hpos) hpair.2
    exact ⟨Position.lt_iff.mpr (.inr ⟨hlineLeft.trans hlineRight.symm, hlt⟩), fun _ => hpair.2⟩
  · exact ⟨Position.lt_iff.mpr (.inl hlt), fun heq => absurd heq (Nat.ne_of_lt hlt)⟩

/-- No token follows a comment in its line. -/
theorem comment_last_tokensOfLines (rules : Rules) (lineIndex : Nat) (lines : List (List Char)) :
    (rules.tokensOfLines lineIndex lines).Pairwise fun left right =>
      left.category = .comment → left.line ≠ right.line := by
  refine pairwise_tokensOfLines (fun i line => ?_) (fun left right hlt => ?_) _ _
  · exact (rules.tiles_tokensFrom i 0 line).ordered.imp
      fun hpair hcategory => (hpair.1 hcategory).elim
  · exact fun _ => Nat.ne_of_lt hlt

/-- Letters and digits of a text are covered once. -/
theorem countP_covers_tokensOfLines (rules : Rules) {lines : List (List Char)} {i column : Nat}
    {chars : List Char} {c : Char} (hline : lines[i]? = some chars) (hget : chars[column]? = some c)
    (halphanum : c.isAlphanum = true) :
    (rules.tokensOfLines 0 lines).countP (fun t => t.Covers i column) = 1 := by
  have hcovers : ∀ t : Token, decide (t.Covers i column) = true → t.line = 0 + i := by
    intro t ht
    rw [Nat.zero_add]
    exact (of_decide_eq_true ht).1
  rw [countP_tokensOfLines hline hcovers, Nat.zero_add]
  have hone := (rules.tiles_tokensFrom i 0 chars).countP_eq_one hget halphanum
  rwa [Nat.zero_add] at hone

end Rules

/-- The tokens of a text tile its lines: they lie in them in order and without overlap, comments end
their lines, and letters and digits are covered exactly once, other characters only by comments. -/
theorem Tokenizer.Obtained.tiling {t : Tokenizer} (h : t.Obtained) (text : String) :
    Tiling (Text.lines text.toList) (t.tokenize text) := by
  rw [tokenize_eq h.valid]
  have hlast := t.rules.comment_last_tokensOfLines 0 (Text.lines text.toList)
  refine ⟨?_, t.rules.ordered_tokensOfLines 0 _, hlast, ?_, ?_, ?_, ?_⟩
  · intro token htoken
    obtain ⟨line, hline, htoken⟩ := Rules.exists_line_of_mem htoken
    obtain ⟨-, -, hpos, hend⟩ := (t.rules.tiles_tokensFrom _ 0 line).inside htoken
    exact ⟨hpos, line, hline, by omega⟩
  · intro token htoken hcategory line hline
    obtain ⟨line', hline', htoken⟩ := Rules.exists_line_of_mem htoken
    obtain rfl := Option.some.inj (hline.symm.trans hline')
    rw [(t.rules.tiles_tokensFrom _ 0 line).endColumn_eq htoken hcategory, Nat.zero_add]
  · intro i
    refine countP_le_one_of_pairwise (hlast.imp fun {left right} hpair hleft => ?_)
    obtain ⟨rfl, hcategory⟩ := of_decide_eq_true hleft
    exact decide_eq_false fun hright => hpair hcategory hright.1.symm
  · intro i line hline column c hget halphanum
    exact t.rules.countP_covers_tokensOfLines hline hget halphanum
  · intro token htoken hcategory line hline column hcovers
    obtain ⟨line', hline', htoken⟩ := Rules.exists_line_of_mem htoken
    obtain rfl := Option.some.inj (hline.symm.trans hline')
    exact (t.rules.tiles_tokensFrom _ 0 line).isAlphanum_of_covers htoken hcategory hcovers

/-- The second line has no token, and the third one starts with characters that are in none. -/
theorem Tokenizer.tiling_remarks :
    let text := "2go rem1\n\n- if"
    let t := Tokenizer.mk Rules.remarks
    t.Obtained ∧ Text.lines text.toList = ["2go rem1".toList, [], "- if".toList] ∧
      t.tokenize text =
        [⟨0, 0, 1, .number, .singleton .static⟩, ⟨0, 1, 2, .identifier, .singleton .declaration⟩,
          ⟨0, 4, 4, .comment, .singleton .documentation⟩,
          ⟨2, 2, 2, .keyword, .singleton .modification⟩] ∧
      Tiling (Text.lines text.toList) (t.tokenize text) :=
  ⟨remarks_obtained, by decide +kernel, by decide +kernel, Obtained.tiling remarks_obtained _⟩

end LineLexer
