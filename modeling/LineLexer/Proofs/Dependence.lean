import Mathlib.Data.List.Forall2
import LineLexer.Proofs.TextTokens

/-!
# What tokens depend on

Two rule sets with the same comment marker find tokens at the same places of every text. The tokens
differ only where a word is reserved in one of the rule sets and not in the other. The name of a
rule set, its blank characters and the order of its reserved words have no influence at all. The
main statement is `Obtained.tokens_alike`.
-/

namespace LineLexer

namespace Token

/-- A token of a word. -/
def IsWord (t : Token) : Prop :=
  t.category = .keyword ∨ t.category = .typeName ∨ t.category = .identifier

/-- A token of a reserved word. -/
def IsReserved (t : Token) : Prop :=
  t.category = .keyword ∧ t.modifiers = .singleton .modification

/-- A token of a word that is not reserved. -/
def IsUnreserved (t : Token) : Prop :=
  (t.category = .typeName ∨ t.category = .identifier) ∧ t.modifiers = .singleton .declaration

/-- Two tokens of a text cover the same characters, and they are of the same kind unless these are a
word that is reserved in exactly one of two rule sets. Then the token of that rule set is the one of
a reserved word. -/
structure Alike (first second : Rules) (covered : String) (left right : Token) : Prop where
  line_eq : left.line = right.line
  startColumn_eq : left.startColumn = right.startColumn
  length_eq : left.length = right.length
  isWord_iff : left.IsWord ↔ right.IsWord
  kind_eq : (left.IsWord → (covered ∈ first.reservedWords ↔ covered ∈ second.reservedWords)) →
    left.category = right.category ∧ left.modifiers = right.modifiers
  first_only : left.IsWord → covered ∈ first.reservedWords → covered ∉ second.reservedWords →
    left.IsReserved ∧ right.IsUnreserved
  second_only : left.IsWord → covered ∉ first.reservedWords → covered ∈ second.reservedWords →
    left.IsUnreserved ∧ right.IsReserved

/-- Two tokens are alike as far as the characters go that the first one covers in its line. -/
def AlikeIn (first second : Rules) (lines : List (List Char)) (left right : Token) : Prop :=
  ∃ line covered, lines[left.line]? = some line ∧
    left.text? (String.ofList line) = some covered ∧ left.Alike first second covered right

end Token

namespace Rules

/-- The kind of a word that is not reserved. No part of a rule set has a say in it. -/
def plainKind (word : List Char) : Category × Modifier :=
  if word.head?.any Char.isUpper then (.typeName, .declaration) else (.identifier, .declaration)

variable {rules first second : Rules} {lineIndex column : Nat} {covered : List Char}

theorem classifyChunk_of_mem (halpha : covered.head?.any Char.isAlpha = true)
    (hmem : String.ofList covered ∈ rules.reservedWords) :
    rules.classifyChunk covered = (.keyword, .modification) := by
  rw [classifyChunk, if_pos halpha, classify, if_pos (List.contains_iff_mem.mpr hmem)]

theorem classifyChunk_of_notMem (halpha : covered.head?.any Char.isAlpha = true)
    (hmem : String.ofList covered ∉ rules.reservedWords) :
    rules.classifyChunk covered = plainKind covered := by
  rw [classifyChunk, if_pos halpha, classify, if_neg (mt List.contains_iff_mem.mp hmem)]
  rfl

theorem isReserved_chunkToken (halpha : covered.head?.any Char.isAlpha = true)
    (hmem : String.ofList covered ∈ rules.reservedWords) :
    (rules.chunkToken lineIndex column covered).IsReserved := by
  rw [chunkToken, classifyChunk_of_mem halpha hmem]
  exact ⟨rfl, rfl⟩

theorem isUnreserved_chunkToken (halpha : covered.head?.any Char.isAlpha = true)
    (hmem : String.ofList covered ∉ rules.reservedWords) :
    (rules.chunkToken lineIndex column covered).IsUnreserved := by
  rw [chunkToken, classifyChunk_of_notMem halpha hmem, plainKind]
  split
  · exact ⟨.inl rfl, rfl⟩
  · exact ⟨.inr rfl, rfl⟩

/-- The token of characters that start with a letter is a word, reserved or not. -/
theorem isWord_chunkToken (halpha : covered.head?.any Char.isAlpha = true) :
    (rules.chunkToken lineIndex column covered).IsWord := by
  by_cases hmem : String.ofList covered ∈ rules.reservedWords
  · exact .inl (isReserved_chunkToken halpha hmem).1
  · exact .inr (isUnreserved_chunkToken halpha hmem).1

/-- Words and numbers at the same place are alike. -/
theorem chunkToken_alike (lineIndex column : Nat) (covered : List Char) :
    (first.chunkToken lineIndex column covered).Alike first second (String.ofList covered)
      (second.chunkToken lineIndex column covered) := by
  by_cases halpha : covered.head?.any Char.isAlpha = true
  · refine ⟨rfl, rfl, rfl, iff_of_true (isWord_chunkToken halpha) (isWord_chunkToken halpha), ?_,
      fun _ hmem hmem' => ⟨isReserved_chunkToken halpha hmem, isUnreserved_chunkToken halpha hmem'⟩,
      fun _ hmem hmem' => ⟨isUnreserved_chunkToken halpha hmem, isReserved_chunkToken halpha hmem'⟩⟩
    intro hsame
    have hiff := hsame (isWord_chunkToken halpha)
    have hkind : first.classifyChunk covered = second.classifyChunk covered := by
      by_cases hmem : String.ofList covered ∈ first.reservedWords
      · rw [classifyChunk_of_mem halpha hmem, classifyChunk_of_mem halpha (hiff.mp hmem)]
      · rw [classifyChunk_of_notMem halpha hmem,
          classifyChunk_of_notMem halpha (mt hiff.mpr hmem)]
    rw [chunkToken, chunkToken, hkind]
    exact ⟨rfl, rfl⟩
  · have hkind : ∀ rules : Rules, rules.classifyChunk covered = (.number, .static) :=
      fun _ => if_neg halpha
    rw [chunkToken, chunkToken, hkind, hkind]
    have hnumber : ∀ n, ¬ Token.IsWord ⟨lineIndex, column, n, .number, .singleton .static⟩ := by
      simp [Token.IsWord]
    exact ⟨rfl, rfl, rfl, Iff.rfl, fun _ => ⟨rfl, rfl⟩, fun hword => (hnumber _ hword).elim,
      fun hword => (hnumber _ hword).elim⟩

/-- A comment is the same for all rule sets that have its marker. -/
theorem commentToken_alike (lineIndex column length : Nat) (covered : String) :
    (commentToken lineIndex column length).Alike first second covered
      (commentToken lineIndex column length) := by
  constructor <;> simp [commentToken, Token.IsWord]

/-- At every place two rule sets with the same marker find alike tokens, or none. -/
theorem tokenAt?_alike (hmarker : first.lineComment = second.lineComment) (chars : List Char) :
    (first.tokenAt? lineIndex column chars = none ∧ second.tokenAt? lineIndex column chars = none) ∨
      ∃ left right, first.tokenAt? lineIndex column chars = some left ∧
        second.tokenAt? lineIndex column chars = some right ∧
        left.Alike first second (String.ofList (chars.take left.length)) right := by
  have hopens : second.opensComment chars = first.opensComment chars := by
    rw [opensComment, opensComment, hmarker]
  unfold tokenAt?
  rw [hopens]
  -- Whether a chunk starts at a place does not depend on any rules.
  by_cases hcomment : first.opensComment chars = true
  · rw [if_pos hcomment, if_pos hcomment]
    exact .inr ⟨_, _, rfl, rfl, commentToken_alike _ _ _ _⟩
  · rw [if_neg hcomment, if_neg hcomment]
    by_cases hchunk : chunk chars = []
    · exact .inl ⟨if_pos hchunk, if_pos hchunk⟩
    · rw [if_neg hchunk, if_neg hchunk]
      refine .inr ⟨_, _, rfl, rfl, ?_⟩
      have htake : chars.take (first.chunkToken lineIndex column (chunk chars)).length =
          chunk chars := (chunk_eq_take chars).symm
      rw [htake]
      exact chunkToken_alike _ _ _

/-- The two rule sets read a line in step. -/
theorem tokensFrom_alike (hmarker : first.lineComment = second.lineComment)
    {lines : List (List Char)} {line : List Char} (hline : lines[lineIndex]? = some line)
    (column : Nat) (chars : List Char) (hchars : line.drop column = chars) :
    List.Forall₂ (Token.AlikeIn first second lines) (first.tokensFrom lineIndex column chars)
      (second.tokensFrom lineIndex column chars) := by
  fun_induction first.tokensFrom lineIndex column chars with
  | case1 column =>
      rw [tokensFrom_nil]
      exact .nil
  -- No token starts here by the first rule set, and so none does by the second.
  | case2 column c rest hat ih =>
      rcases tokenAt?_alike hmarker (c :: rest) with ⟨_, hsecond⟩ | ⟨left, _, hleft, _⟩
      · rw [tokensFrom_of_none hsecond]
        apply ih
        rw [← List.drop_drop, hchars, List.drop_one, List.tail_cons]
      · rw [hat] at hleft
        cases hleft
  | case3 column c rest t hat ih =>
      rcases tokenAt?_alike hmarker (c :: rest) with
        ⟨hfirst, _⟩ | ⟨left, right, hleft, hright, halike⟩
      · rw [hat] at hfirst
        cases hfirst
      · obtain rfl := Option.some.inj (hat.symm.trans hleft)
        have hend : right.endColumn = t.endColumn := by
          rw [endColumn_of_tokenAt? hright, endColumn_of_tokenAt? hat, halike.length_eq]
        rw [tokensFrom_of_some (by simp) hright, ← halike.length_eq, hend]
        refine .cons ⟨line, _, ?_, ?_, halike⟩ (ih ?_)
        · rw [line_of_tokenAt? hat, hline]
        · rw [← hchars] at hat ⊢
          exact text?_of_tokenAt? (by rw [hchars]; simp) hat
        · rw [endColumn_of_tokenAt? hat, ← List.drop_drop, hchars]

/-- The two rule sets read consecutive lines in step. -/
theorem tokensOfLines_alike (hmarker : first.lineComment = second.lineComment)
    {lines : List (List Char)} (lineIndex : Nat) (pending : List (List Char))
    (hpending : lines.drop lineIndex = pending) :
    List.Forall₂ (Token.AlikeIn first second lines) (first.tokensOfLines lineIndex pending)
      (second.tokensOfLines lineIndex pending) := by
  induction pending generalizing lineIndex with
  | nil => exact .nil
  | cons line more ih =>
      have hline : lines[lineIndex]? = some line := by
        rw [← List.head?_drop, hpending, List.head?_cons]
      refine List.rel_append (tokensFrom_alike hmarker hline 0 line rfl) (ih (lineIndex + 1) ?_)
      rw [← List.drop_drop, hpending, List.drop_one, List.tail_cons]

end Rules

/-- Tokens that are alike are the same if the two rule sets reserve the same words. -/
theorem Token.AlikeIn.eq {first second : Rules} {lines : List (List Char)} {left right : Token}
    (h : left.AlikeIn first second lines right)
    (hwords : ∀ word, word ∈ first.reservedWords ↔ word ∈ second.reservedWords) : left = right := by
  obtain ⟨line, covered, -, -, halike⟩ := h
  obtain ⟨hcategory, hmodifiers⟩ := halike.kind_eq fun _ => hwords covered
  obtain ⟨_, _, _, _, _⟩ := left
  obtain ⟨_, _, _, _, _⟩ := right
  cases halike.line_eq
  cases halike.startColumn_eq
  cases halike.length_eq
  cases hcategory
  cases hmodifiers
  rfl

/-- Tokenizers with the same comment marker find alike tokens in every text, and the same ones if
they reserve the same words. -/
theorem Tokenizer.Obtained.tokens_alike {first second : Tokenizer} (hfirst : first.Obtained)
    (hsecond : second.Obtained) (hmarker : first.rules.lineComment = second.rules.lineComment)
    (text : String) :
    List.Forall₂ (Token.AlikeIn first.rules second.rules (Text.lines text.toList))
        (first.tokenize text) (second.tokenize text) ∧
      ((∀ word, word ∈ first.rules.reservedWords ↔ word ∈ second.rules.reservedWords) →
        first.tokenize text = second.tokenize text) := by
  have halike : List.Forall₂ (Token.AlikeIn first.rules second.rules (Text.lines text.toList))
      (first.tokenize text) (second.tokenize text) := by
    rw [tokenize_eq hfirst.valid, tokenize_eq hsecond.valid]
    exact Rules.tokensOfLines_alike hmarker 0 _ rfl
  refine ⟨halike, fun hwords => ?_⟩
  rw [← List.forall₂_eq_eq_eq]
  exact halike.imp fun _ _ hpair => hpair.eq hwords

/-- The word `if` is reserved in the first rule set only, and `go` in the second one only. The third
one reserves the words of the first in another order, one of them twice. -/
theorem Tokenizer.tokens_alike_remarks :
    let text := "if-go rem"
    let first := Tokenizer.mk Rules.remarks
    let second := Tokenizer.mk ⟨"notes", ["go"], "rem", ['.']⟩
    let third := Tokenizer.mk ⟨"notes", ["then", "if", "then"], "rem", []⟩
    (first.Obtained ∧ second.Obtained ∧ third.Obtained) ∧
      first.tokenize text =
        [⟨0, 0, 2, .keyword, .singleton .modification⟩,
          ⟨0, 3, 2, .identifier, .singleton .declaration⟩,
          ⟨0, 6, 3, .comment, .singleton .documentation⟩] ∧
      second.tokenize text =
        [⟨0, 0, 2, .identifier, .singleton .declaration⟩,
          ⟨0, 3, 2, .keyword, .singleton .modification⟩,
          ⟨0, 6, 3, .comment, .singleton .documentation⟩] ∧
      List.Forall₂ (Token.AlikeIn first.rules second.rules (Text.lines text.toList))
        (first.tokenize text) (second.tokenize text) ∧
      first.tokenize text = third.tokenize text := by
  intro text first second third
  have hsecond : second.Obtained := .of_violation? (by decide)
  have hthird : third.Obtained := .of_violation? (by decide)
  refine ⟨⟨remarks_obtained, hsecond, hthird⟩, by decide +kernel, by decide +kernel,
    (Obtained.tokens_alike remarks_obtained hsecond rfl text).1,
    (Obtained.tokens_alike remarks_obtained hthird rfl text).2 fun word => ?_⟩
  show word ∈ ["if", "then"] ↔ word ∈ ["then", "if", "then"]
  simp only [List.mem_cons, List.not_mem_nil, or_false]
  constructor
  · rintro (hif | hthen)
    · exact .inr (.inl hif)
    · exact .inl hthen
  · rintro (hthen | hif | hthen)
    · exact .inr hthen
    · exact .inl hif
    · exact .inr hthen

end LineLexer
