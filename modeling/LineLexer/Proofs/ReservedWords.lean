import LineLexer.Proofs.Dependence
import LineLexer.Proofs.LookAhead
import LineLexer.Proofs.TokenText

/-!
# Words that can be met

The check of reserved words asks of a whole text what a scan asks of the start of a line, so that
every word that passes it is one that a scan can find, `isWord_iff`, and the other way round. Only
the comment marker stands in the way: a word that starts with it is always read as a comment, and
any other word is found at least where it stands alone. `FindsWord` says what it is to be found in
some text; the main statement is `Obtained.findsWord_iff`.
-/

namespace LineLexer

/-- A letter or a digit ends no line. -/
theorem isLineBreak_of_isAlphanum {c : Char} (h : c.isAlphanum = true) :
    Text.isLineBreak c = false := by
  rw [Bool.eq_false_iff]
  intro hbreak
  rcases Text.isLineBreak_iff.mp hbreak with rfl | rfl <;> cases h

/-- A token that reaches from the first column of a line to its end has the line as its text. -/
theorem Token.text?_of_whole {t : Token} {line : String} (hstart : t.startColumn = 0)
    (hlength : t.length = line.length) (hne : line.toList ≠ []) : t.text? line = some line := by
  rw [← String.length_toList] at hlength
  rw [text?_eq_some_iff, hlength]
  refine ⟨List.length_pos_iff.mpr hne, [], [], by simp, hstart.symm, ?_⟩
  rw [List.nil_append, endColumn, hstart, hlength, Nat.zero_add]

namespace Rules

variable {rules : Rules} {lineIndex column : Nat} {word : String}

/-- A text is a word if it starts with a letter and a scan reads to its end from there. -/
theorem isWord_iff :
    isWord word = true ↔
      word.toList.head?.any Char.isAlpha = true ∧ chunk word.toList = word.toList := by
  unfold isWord
  cases word.toList with
  | nil => simp
  | cons c rest =>
      have hwhole : c.isAlpha = true → (chunk (c :: rest) = c :: rest ↔
          ∀ d ∈ rest, d.isAlphanum = true) := by
        intro hc
        have hc' : c.isAlphanum = true := by simp [Char.isAlphanum, hc]
        rw [chunk, List.head?_cons, Option.any_some, if_pos hc, List.takeWhile_cons_of_pos hc',
          List.cons_inj_right, List.takeWhile_eq_self_iff]
      cases hc : c.isAlpha with
      | true => simp [hc, hwhole hc]
      | false => simp [hc]

/-- A word has letters and digits only, and so no line break. -/
theorem unbroken_of_isWord (h : isWord word = true) : Text.Unbroken word.toList := by
  intro c hc
  rw [← (isWord_iff.mp h).2] at hc
  exact isLineBreak_of_isAlphanum (isAlphanum_of_mem_chunk hc)

theorem toList_ne_nil_of_isWord (h : isWord word = true) : word.toList ≠ [] := by
  intro hnil
  have halpha := (isWord_iff.mp h).1
  rw [hnil] at halpha
  cases halpha

/-- What a scan reads from a letter on is a word. -/
theorem isWord_chunk {chars : List Char} (halpha : chars.head?.any Char.isAlpha = true) :
    isWord (String.ofList (chunk chars)) = true := by
  obtain ⟨c, rest, rfl⟩ : ∃ c rest, chars = c :: rest := by
    cases chars with
    | nil => cases halpha
    | cons c rest => exact ⟨c, rest, rfl⟩
  have hc : c.isAlphanum = true := by
    have hc : c.isAlpha = true := halpha
    simp [Char.isAlphanum, hc]
  have hchunk : chunk (c :: rest) ≠ [] := by
    rw [Ne, chunk_cons_eq_nil_iff, hc]
    exact Bool.noConfusion
  rw [isWord_iff, String.toList_ofList, head?_chunk hchunk, chunk_chunk]
  exact ⟨halpha, rfl⟩

/-- A number is not the token of a word. -/
theorem isAlpha_of_isWord_chunkToken {covered : List Char}
    (h : (rules.chunkToken lineIndex column covered).IsWord) :
    covered.head?.any Char.isAlpha = true := by
  by_contra halpha
  rw [chunkToken, classifyChunk, if_neg halpha] at h
  rcases h with h | h | h <;> cases h

/-- The token of a word is a keyword if the word is reserved. -/
theorem keyword_chunkToken_iff {covered : List Char}
    (halpha : covered.head?.any Char.isAlpha = true) :
    (rules.chunkToken lineIndex column covered).category = .keyword ↔
      String.ofList covered ∈ rules.reservedWords := by
  constructor
  · intro hkeyword
    by_contra hmem
    have hunreserved : (rules.chunkToken lineIndex column covered).IsUnreserved :=
      isUnreserved_chunkToken halpha hmem
    obtain ⟨hplain, -⟩ := hunreserved
    rw [hkeyword] at hplain
    rcases hplain with hplain | hplain <;> cases hplain
  · exact fun hmem => (isReserved_chunkToken halpha hmem).1

/-- The text of the token of a word is a word, and it does not start with the marker. -/
theorem isWord_of_tokenAt? {chars : List Char} {t : Token} (hword : t.IsWord)
    (hat : rules.tokenAt? lineIndex column chars = some t) :
    isWord (String.ofList (chars.take t.length)) = true ∧
      ¬ rules.lineComment.toList <+: chars.take t.length := by
  rcases tokenAt?_cases hat with ⟨_, rfl⟩ | ⟨hopens, hchunk, rfl⟩
  · rcases hword with hword | hword | hword <;> cases hword
  · have htake : chars.take (rules.chunkToken lineIndex column (chunk chars)).length =
        chunk chars := (chunk_eq_take chars).symm
    have halpha := isAlpha_of_isWord_chunkToken hword
    rw [head?_chunk hchunk] at halpha
    refine ⟨by rw [htake]; exact isWord_chunk halpha, fun hmarker => ?_⟩
    rw [opensComment_iff.mpr (hmarker.trans (List.take_prefix _ _))] at hopens
    cases hopens

/-- A word that does not start with the marker is read as one token. -/
theorem tokensFrom_word (h : isWord word = true)
    (hmarker : ¬ rules.lineComment.toList <+: word.toList) :
    rules.tokensFrom 0 0 word.toList = [rules.chunkToken 0 0 word.toList] := by
  obtain ⟨-, hchunk⟩ := isWord_iff.mp h
  have hne := toList_ne_nil_of_isWord h
  apply tokensFrom_whole hne _ rfl
  rw [tokenAt?, if_neg (mt opensComment_iff.mp hmarker), hchunk, if_neg hne]

end Rules

namespace Tokenizer

variable {t : Tokenizer} {word : String}

/-- There is a text in which a tokenizer finds a word, reserved or not. -/
def FindsWord (t : Tokenizer) (word : String) : Prop :=
  ∃ text, ∃ token ∈ t.tokenize text, token.IsWord ∧
    ∃ line, (Text.lines text.toList)[token.line]? = some line ∧
      token.text? (String.ofList line) = some word

/-- Every word that is found passes the check of reserved words and does not start with the
marker. -/
theorem FindsWord.isWord (h : t.rules.Valid) (hfinds : t.FindsWord word) :
    Rules.isWord word = true ∧ ¬ t.rules.lineComment.toList <+: word.toList := by
  obtain ⟨text, token, hmem, hword, line, hline, htext⟩ := hfinds
  rw [tokenize_eq h] at hmem
  obtain ⟨line', hline', hmem⟩ := Rules.exists_line_of_mem hmem
  obtain rfl := Option.some.inj (hline.symm.trans hline')
  obtain ⟨column, hcolumn, hat⟩ := Rules.exists_tokenAt?_of_mem hmem
  rw [Nat.zero_add] at hat
  have hne : line.drop column ≠ [] := by
    rw [← List.length_pos_iff, List.length_drop]
    omega
  obtain rfl := Option.some.inj ((Rules.text?_of_tokenAt? hne hat).symm.trans htext)
  rw [String.toList_ofList]
  exact Rules.isWord_of_tokenAt? hword hat

/-- A word that passes the check and does not start with the marker is one token where it stands
alone. -/
theorem tokenize_word (h : t.rules.Valid) (hword : Rules.isWord word = true)
    (hmarker : ¬ t.rules.lineComment.toList <+: word.toList) :
    t.tokenize word = [t.rules.chunkToken 0 0 word.toList] := by
  rw [tokenize_of_unbroken h (Rules.unbroken_of_isWord hword), Rules.tokensFrom_word hword hmarker]

/-- A word that passes the check and does not start with the marker is found. -/
theorem findsWord_of_isWord (h : t.rules.Valid) (hword : Rules.isWord word = true)
    (hmarker : ¬ t.rules.lineComment.toList <+: word.toList) : t.FindsWord word := by
  have hline : (Text.lines word.toList)[0]? = some word.toList := by
    rw [Text.lines_of_unbroken (Rules.unbroken_of_isWord hword)]
    rfl
  have hmem : t.rules.chunkToken 0 0 word.toList ∈ t.tokenize word := by
    rw [tokenize_word h hword hmarker]
    exact List.mem_singleton_self _
  refine ⟨word, _, hmem, Rules.isWord_chunkToken (Rules.isWord_iff.mp hword).1, _, hline, ?_⟩
  rw [String.ofList_toList]
  exact Token.text?_of_whole rfl String.length_toList (Rules.toList_ne_nil_of_isWord hword)

/-- A tokenizer finds exactly the words that pass the check of reserved words and do not start with
the comment marker. Where such a word stands alone it is a single token, a keyword if it is reserved
and no keyword otherwise. A reserved word is therefore never found exactly if it starts with the
marker, and then it is a single comment. -/
theorem Obtained.findsWord_iff (h : t.Obtained) (word : String) :
    (t.FindsWord word ↔
        Rules.isWord word = true ∧ ¬ t.rules.lineComment.toList <+: word.toList) ∧
      (t.FindsWord word → ∃ token, t.tokenize word = [token] ∧ token.line = 0 ∧
        token.startColumn = 0 ∧ token.length = word.length ∧ token.IsWord ∧
        (token.category = .keyword ↔ word ∈ t.rules.reservedWords)) ∧
      (word ∈ t.rules.reservedWords →
        (¬ t.FindsWord word ↔ t.rules.lineComment.toList <+: word.toList) ∧
        (¬ t.FindsWord word → t.tokenize word = [commentToken 0 0 word.length])) := by
  have hfinds : t.FindsWord word ↔
      Rules.isWord word = true ∧ ¬ t.rules.lineComment.toList <+: word.toList :=
    ⟨fun hfinds => hfinds.isWord h.valid, fun hw => findsWord_of_isWord h.valid hw.1 hw.2⟩
  refine ⟨hfinds, fun hfound => ?_, fun hreserved => ?_⟩
  · obtain ⟨hword, hmarker⟩ := hfinds.mp hfound
    have halpha := (Rules.isWord_iff.mp hword).1
    refine ⟨_, tokenize_word h.valid hword hmarker, rfl, rfl, String.length_toList,
      Rules.isWord_chunkToken halpha, ?_⟩
    rw [Rules.keyword_chunkToken_iff halpha, String.ofList_toList]
  · have hword := h.valid.reserved_isWord word hreserved
    have hdead : ¬ t.FindsWord word ↔ t.rules.lineComment.toList <+: word.toList := by
      rw [hfinds, not_and, not_not]
      exact ⟨fun hmarker => hmarker hword, fun hmarker _ => hmarker⟩
    have hline := Rules.unbroken_of_isWord hword
    exact ⟨hdead, fun hlost => tokenize_marker h.valid hline (hdead.mp hlost)⟩

/-- With the marker `rem` the reserved word `if` is found and `remark` never is. -/
theorem findsWord_remark :
    let t := Tokenizer.mk ⟨"remarks", ["if", "remark"], "rem", [' ']⟩
    t.Obtained ∧ t.FindsWord "if" ∧ t.FindsWord "xrem" ∧ ¬ t.FindsWord "2go" ∧
      ¬ t.FindsWord "remark" ∧
      t.tokenize "remark" = [⟨0, 0, 6, .comment, .singleton .documentation⟩] := by
  intro t
  have hobtained : t.Obtained := .of_violation? (by decide)
  obtain ⟨hif, -, -⟩ := hobtained.findsWord_iff "if"
  obtain ⟨hxrem, -, -⟩ := hobtained.findsWord_iff "xrem"
  obtain ⟨hgo, -, -⟩ := hobtained.findsWord_iff "2go"
  obtain ⟨-, -, hremark⟩ := hobtained.findsWord_iff "remark"
  obtain ⟨hdead, hcomment⟩ := hremark (by decide)
  have hlost : ¬ t.FindsWord "remark" := hdead.mpr (by decide)
  refine ⟨hobtained, hif.mpr (by decide), hxrem.mpr (by decide), ?_, hlost, hcomment hlost⟩
  rw [hgo]
  decide

end Tokenizer

end LineLexer
