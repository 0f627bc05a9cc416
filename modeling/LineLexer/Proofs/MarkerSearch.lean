import Mathlib.Data.Nat.Find
import LineLexer.Proofs.LookAhead

/-!
# Finding comments by searching

A comment marker that does not start with a letter or a digit opens a comment wherever it stands
first in a line, since no word and no number goes on over it: the line can be cut there without
being read, `Rules.tokensFrom_append_marker`. A marker that starts with a letter or a digit can stand
inside a word, `Rules.not_comment_behind_letter`. The main statement, `cutsAtMarker_iff`, says that
these are the two kinds of markers.
-/

namespace LineLexer

namespace Text

/-- A pattern stands at a column of a line and at no column before it. -/
def FirstAt (pattern line : List Char) (column : Nat) : Prop :=
  pattern <+: line.drop column ∧ ∀ k < column, ¬ pattern <+: line.drop k

variable {pattern line : List Char}

theorem isInfix_iff_exists_drop : pattern <:+: line ↔ ∃ column, pattern <+: line.drop column := by
  rw [List.infix_iff_prefix_suffix]
  constructor
  · intro h
    obtain ⟨rest, hprefix, hsuffix⟩ := h
    exact ⟨line.length - rest.length, List.suffix_iff_eq_drop.mp hsuffix ▸ hprefix⟩
  · intro h
    obtain ⟨column, hprefix⟩ := h
    exact ⟨line.drop column, hprefix, List.drop_suffix column line⟩

/-- A pattern that occurs in a line has a first occurrence. -/
theorem exists_firstAt (h : pattern <:+: line) : ∃ column, FirstAt pattern line column := by
  have hsome := isInfix_iff_exists_drop.mp h
  exact ⟨Nat.find hsome, Nat.find_spec hsome, fun _ => Nat.find_min hsome⟩

end Text

/-- A chunk does not go on over a character that is neither a letter nor a digit. -/
theorem chunk_append_of_other {chars behind : List Char} (hne : chars ≠ [])
    (hother : ∀ c, behind.head? = some c → c.isAlphanum = false) :
    chunk (chars ++ behind) = chunk chars := by
  have hstop : ∀ p : Char → Bool, (∀ c, p c = true → c.isAlphanum = true) →
      (chars ++ behind).takeWhile p = chars.takeWhile p := by
    intro p hp
    have hbehind : behind.takeWhile p = [] := by
      cases behind with
      | nil => rfl
      | cons c rest =>
          apply List.takeWhile_cons_of_neg
          intro hc
          have halphanum := hp c hc
          rw [hother c rfl] at halphanum
          cases halphanum
    rw [List.takeWhile_append]
    split
    · next hall => rw [hbehind, List.append_nil, (List.takeWhile_prefix p).eq_of_length hall]
    · rfl
  rw [chunk, chunk, List.head?_append_of_ne_nil chars hne, hstop Char.isAlphanum fun _ hc => hc,
    hstop Char.isDigit fun _ => isAlphanum_of_isDigit]

namespace Rules

variable {rules : Rules} {lineIndex column : Nat} {chars : List Char}

/-- A comment starts where the marker stands. -/
theorem marker_of_comment {t : Token} (ht : t ∈ rules.tokensFrom lineIndex column chars)
    (hcategory : t.category = .comment) :
    ∃ k, t.startColumn = column + k ∧ rules.lineComment.toList <+: chars.drop k := by
  obtain ⟨k, _, hat⟩ := exists_tokenAt?_of_mem ht
  refine ⟨k, startColumn_of_tokenAt? hat, ?_⟩
  rcases tokenAt?_cases hat with ⟨hopens, _⟩ | ⟨_, _, rfl⟩
  · exact opensComment_iff.mp hopens
  · exact absurd hcategory (classifyChunk_ne_comment _)

theorem opensComment_eq_false (h : ¬ rules.lineComment.toList <+: chars) :
    rules.opensComment chars = false := by
  rw [Bool.eq_false_iff, Ne, opensComment_iff]
  exact h

/-- A token in front of the first marker is the same without the marker. -/
theorem tokenAt?_append_marker {before behind : List Char} (hne : before ≠ [])
    (hother : ∀ c, behind.head? = some c → c.isAlphanum = false)
    (hopens : rules.opensComment (before ++ behind) = false) :
    rules.tokenAt? lineIndex column (before ++ behind) =
      rules.tokenAt? lineIndex column before := by
  have hopens' : rules.opensComment before = false := by
    rw [Bool.eq_false_iff] at hopens ⊢
    intro hmarker
    exact hopens (opensComment_iff.mpr
      ((opensComment_iff.mp hmarker).trans (List.prefix_append before behind)))
  rw [tokenAt?, tokenAt?, hopens, hopens', chunk_append_of_other hne hother]
  rfl

/-- A line is cut where the marker stands first, if neither a letter nor a digit comes there. -/
theorem tokensFrom_append_marker (lineIndex column : Nat) {before behind : List Char}
    (hne : behind ≠ [])
    (hother : ∀ c, behind.head? = some c → c.isAlphanum = false)
    (hmarker : rules.lineComment.toList <+: behind)
    (hfirst : ∀ k < before.length, ¬ rules.lineComment.toList <+: (before ++ behind).drop k) :
    rules.tokensFrom lineIndex column (before ++ behind) =
      rules.tokensFrom lineIndex column before ++
        [commentToken lineIndex (column + before.length) behind.length] := by
  fun_induction rules.tokensFrom lineIndex column before with
  | case1 column =>
      have hat : rules.tokenAt? lineIndex column behind =
          some (commentToken lineIndex column behind.length) := by
        rw [tokenAt?, if_pos (opensComment_iff.mpr hmarker)]
      show rules.tokensFrom lineIndex column behind = _
      rw [tokensFrom_of_some hne hat, commentToken, List.drop_length, tokensFrom_nil]
      rfl
  | case2 column c rest hat ih =>
      have hopens := opensComment_eq_false (hfirst 0 (Nat.succ_pos _))
      have hat' : rules.tokenAt? lineIndex column (c :: rest ++ behind) =
          rules.tokenAt? lineIndex column (c :: rest) :=
        tokenAt?_append_marker (List.cons_ne_nil c rest) hother hopens
      rw [hat] at hat'
      rw [List.cons_append] at hat' ⊢
      rw [tokensFrom_of_none hat', ih fun k hk => hfirst (k + 1) (Nat.succ_lt_succ hk),
        List.length_cons, Nat.add_right_comm, Nat.add_assoc]
  | case3 column c rest t hat ih =>
      have hopens := opensComment_eq_false (hfirst 0 (Nat.succ_pos _))
      have hat' : rules.tokenAt? lineIndex column (c :: rest ++ behind) =
          rules.tokenAt? lineIndex column (c :: rest) :=
        tokenAt?_append_marker (List.cons_ne_nil c rest) hother hopens
      have hle := (length_of_tokenAt? (List.cons_ne_nil c rest) hat).2
      have hdrop : (c :: rest ++ behind).drop t.length = (c :: rest).drop t.length ++ behind :=
        List.drop_append_of_le_length hle
      have hlater : ∀ k < ((c :: rest).drop t.length).length,
          ¬ rules.lineComment.toList <+: ((c :: rest).drop t.length ++ behind).drop k := by
        intro k hk
        rw [List.length_drop] at hk
        rw [← hdrop, List.drop_drop]
        exact hfirst _ (by omega)
      have hend : t.endColumn + ((c :: rest).drop t.length).length =
          column + (c :: rest).length := by
        rw [endColumn_of_tokenAt? hat, List.length_drop]
        omega
      have hne' : c :: rest ++ behind ≠ [] := List.cons_ne_nil _ _
      rw [tokensFrom_of_some hne' (hat'.trans hat), hdrop, ih hlater, hend]
      rfl

/-- A marker that starts with a letter or a digit does not open a comment behind another letter. -/
theorem not_comment_behind_letter {c d : Char} {more : List Char}
    (hmarker : rules.lineComment.toList = c :: more) (hc : c.isAlphanum = true)
    (hd : d.isAlpha = true) (hne : c ≠ d) {t : Token}
    (ht : t ∈ rules.tokensFrom lineIndex column (d :: c :: more)) : t.category ≠ .comment := by
  intro hcategory
  obtain ⟨k, hstart, hprefix⟩ := marker_of_comment ht hcategory
  have hlength := hprefix.length_le
  rw [hmarker] at hlength
  simp only [List.length_drop, List.length_cons] at hlength
  have hopens : rules.opensComment (d :: c :: more) = false := by
    apply opensComment_eq_false
    rw [hmarker, List.cons_prefix_cons]
    exact fun h => hne h.1
  -- The letter and the first character of the marker belong to one word.
  have hchunk : chunk (d :: c :: more) = d :: c :: more.takeWhile Char.isAlphanum := by
    have hd' : d.isAlphanum = true := by simp [Char.isAlphanum, hd]
    rw [chunk, List.head?_cons, Option.any_some, if_pos hd, List.takeWhile_cons_of_pos hd',
      List.takeWhile_cons_of_pos hc]
  have hat : rules.tokenAt? lineIndex column (d :: c :: more) =
      some (rules.chunkToken lineIndex column (chunk (d :: c :: more))) := by
    rw [tokenAt?, hopens, hchunk]
    rfl
  rw [tokensFrom_of_some (List.cons_ne_nil _ _) hat] at ht
  rcases List.mem_cons.mp ht with rfl | hlater
  · exact classifyChunk_ne_comment _ hcategory
  · have hbehind := ((rules.tiles_tokensFrom lineIndex _ _).inside hlater).2.1
    have hend :
        column + 2 ≤ (rules.chunkToken lineIndex column (chunk (d :: c :: more))).endColumn := by
      rw [hchunk]
      exact Nat.add_le_add_left (Nat.le_add_left 2 _) _
    omega

end Rules

/-- The comments of a tokenizer are found by searching: a line has one if the marker stands in it,
at the first place where it does, and what comes before is as if the line ended there. -/
structure Tokenizer.CutsAtMarker (t : Tokenizer) : Prop where
  comment_iff : ∀ line : String, Text.Unbroken line.toList →
    ((∃ token ∈ t.tokenize line, token.category = .comment) ↔
      t.rules.lineComment.toList <:+: line.toList)
  tokenize_eq : ∀ (line : String) (column : Nat), Text.Unbroken line.toList →
    Text.FirstAt t.rules.lineComment.toList line.toList column →
    t.tokenize line = t.tokenize (String.ofList (line.toList.take column)) ++
      [commentToken 0 column (line.length - column)]

namespace Tokenizer

variable {t : Tokenizer} {c : Char}

/-- A line is cut at the first marker, if markers start with neither a letter nor a digit. -/
theorem tokenize_of_firstAt (h : t.rules.Valid) (hhead : t.rules.lineComment.toList.head? = some c)
    (hother : c.isAlphanum = false) {line : String} {column : Nat}
    (hline : Text.Unbroken line.toList)
    (hfirst : Text.FirstAt t.rules.lineComment.toList line.toList column) :
    t.tokenize line = t.tokenize (String.ofList (line.toList.take column)) ++
      [commentToken 0 column (line.length - column)] := by
  obtain ⟨hmarker, hearlier⟩ := hfirst
  have hne : line.toList.drop column ≠ [] := by
    intro hnil
    rw [hnil, List.prefix_nil] at hmarker
    exact h.marker_ne_nil hmarker
  have hlength : (line.toList.take column).length = column := by
    apply List.length_take_of_le
    exact Nat.le_of_not_lt fun hlt => hne (List.drop_eq_nil_of_le (Nat.le_of_lt hlt))
  have hbefore : Text.Unbroken (line.toList.take column) := fun d hd =>
    hline d (List.mem_of_mem_take hd)
  have hbehind : ∀ d, (line.toList.drop column).head? = some d → d.isAlphanum = false := by
    intro d hd
    obtain ⟨rest, hrest⟩ := hmarker
    rw [← hrest, List.head?_append_of_ne_nil _ h.marker_ne_nil, hhead] at hd
    exact Option.some.inj hd ▸ hother
  have hfirst : ∀ k < (line.toList.take column).length, ¬ t.rules.lineComment.toList <+:
      (line.toList.take column ++ line.toList.drop column).drop k := by
    rw [hlength, List.take_append_drop]
    exact hearlier
  have hcut := Rules.tokensFrom_append_marker 0 0 hne hbehind hmarker hfirst
  rw [List.take_append_drop, hlength, List.length_drop, String.length_toList, Nat.zero_add] at hcut
  rw [tokenize_of_unbroken h hline, hcut, tokenize_of_unbroken h (by rwa [String.toList_ofList]),
    String.toList_ofList]

/-- Where the marker does not occur there is no comment. -/
theorem isInfix_of_comment (h : t.rules.Valid) {line : String} (hline : Text.Unbroken line.toList)
    {token : Token} (hmem : token ∈ t.tokenize line) (hcategory : token.category = .comment) :
    t.rules.lineComment.toList <:+: line.toList := by
  rw [tokenize_of_unbroken h hline] at hmem
  obtain ⟨k, _, hmarker⟩ := Rules.marker_of_comment hmem hcategory
  exact Text.isInfix_iff_exists_drop.mpr ⟨k, hmarker⟩

/-- If markers start with a letter or a digit, there is a line in which a marker opens no comment:
the one where another letter comes before the marker. -/
theorem exists_hidden_marker (h : t.rules.Valid) {more : List Char}
    (hmarker : t.rules.lineComment.toList = c :: more) (hc : c.isAlphanum = true) :
    ∃ line : String, Text.Unbroken line.toList ∧ t.rules.lineComment.toList <:+: line.toList ∧
      ∀ token ∈ t.tokenize line, token.category ≠ .comment := by
  obtain ⟨d, hd, hdbreak, hne⟩ :
      ∃ d : Char, d.isAlpha = true ∧ Text.isLineBreak d = false ∧ c ≠ d := by
    by_cases hx : c = 'x'
    · exact ⟨'y', rfl, rfl, by rw [hx]; decide⟩
    · exact ⟨'x', rfl, rfl, hx⟩
  have hline : Text.Unbroken (String.ofList (d :: c :: more)).toList := by
    rw [String.toList_ofList, Text.Unbroken.cons_iff, ← hmarker]
    exact ⟨hdbreak, h.marker_unbroken⟩
  refine ⟨String.ofList (d :: c :: more), hline, ?_, ?_⟩
  · rw [hmarker, String.toList_ofList]
    exact (List.suffix_cons d (c :: more)).isInfix
  · intro token hmem
    rw [tokenize_of_unbroken h hline, String.toList_ofList] at hmem
    exact Rules.not_comment_behind_letter hmarker hc hd hne hmem

/-- Comments can be found by searching for the marker if and only if it starts with a character that
is neither a letter nor a digit. -/
theorem cutsAtMarker_iff {rules : Rules} (h : (build rules).result = .ok t) :
    (∃ c, rules.lineComment.toList.head? = some c ∧ c.isAlphanum = false) ↔ t.CutsAtMarker := by
  obtain ⟨hvalid, rfl⟩ := build_eq_ok_iff.mp h
  constructor
  · intro hhead
    obtain ⟨c, hhead, hother⟩ := hhead
    refine ⟨?_, fun line column => tokenize_of_firstAt (t := ⟨rules⟩) hvalid hhead hother⟩
    intro line hline
    constructor
    · intro hcomment
      obtain ⟨token, hmem, hcategory⟩ := hcomment
      exact isInfix_of_comment hvalid hline hmem hcategory
    · intro hoccurs
      obtain ⟨column, hfirst⟩ := Text.exists_firstAt hoccurs
      refine ⟨commentToken 0 column (line.length - column), ?_, rfl⟩
      rw [tokenize_of_firstAt (t := ⟨rules⟩) hvalid hhead hother hline hfirst]
      exact List.mem_append_right _ (List.mem_singleton_self _)
  · intro hcuts
    obtain ⟨c, more, hmarker⟩ := List.exists_cons_of_ne_nil hvalid.marker_ne_nil
    refine ⟨c, by rw [hmarker, List.head?_cons], ?_⟩
    rw [Bool.eq_false_iff]
    intro hc
    obtain ⟨line, hline, hoccurs, hnone⟩ := exists_hidden_marker (t := ⟨rules⟩) hvalid hmarker hc
    obtain ⟨token, hmem, hcategory⟩ := (hcuts.comment_iff line hline).mpr hoccurs
    exact hnone token hmem hcategory

/-- The marker `--` can be searched for, and the marker `rem` cannot. -/
theorem cutsAtMarker_standard :
    (build Rules.standard).result = .ok standard ∧ standard.CutsAtMarker ∧
      (build Rules.remarks).result = .ok ⟨Rules.remarks⟩ ∧
      ¬ (Tokenizer.mk Rules.remarks).CutsAtMarker := by
  have hstandard : (build Rules.standard).result = .ok standard := by decide
  have hremarks : (build Rules.remarks).result = .ok ⟨Rules.remarks⟩ := by decide
  refine ⟨hstandard, (cutsAtMarker_iff hstandard).mp ⟨'-', by decide, by decide⟩, hremarks, ?_⟩
  intro hcuts
  obtain ⟨c, hhead, hother⟩ := (cutsAtMarker_iff hremarks).mpr hcuts
  obtain rfl : 'r' = c := Option.some.inj hhead
  cases hother

end Tokenizer

end LineLexer
