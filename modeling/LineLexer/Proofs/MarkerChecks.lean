import LineLexer.Proofs.LookAhead
import LineLexer.Proofs.Requests

/-!
# Markers that can be met

The checks of the comment marker refuse no marker that a scan could meet, and accept none that it
could not. A token that counts as a comment stands in a line, starts with the marker and does not
start with a blank, even if the rules have not been checked, `Token.StandsIn`. If the marker is not
empty, the line shows that it holds no break, and its first character that it is not hidden by
blanks, which is all that the checks ask for, `Rules.valid_of_comment`. The main statement is
`Tokenizer.build_iff_tokenize_marker`.
-/

namespace LineLexer

/-- A token that stands in a line has a text there. -/
theorem Token.StandsIn.exists_text? {rules : Rules} {line : List Char} {t : Token}
    (h : t.StandsIn rules line) : ∃ s, t.text? (String.ofList line) = some s := by
  have hfits : t.FitsIn (String.ofList line) := by
    refine ⟨h.length_pos, ?_⟩
    rw [String.length_ofList]
    exact h.end_le
  exact ⟨_, text?_of_fitsIn hfits⟩

namespace Rules

variable {rules : Rules}

/-- If a line has a comment, the marker passes the checks unless it is empty. -/
theorem valid_of_comment (hwords : ∀ word ∈ rules.reservedWords, isWord word = true)
    (hblanks : ∀ c ∈ rules.whitespace, c.isAlphanum = false ∧ Text.isLineBreak c = false)
    (hne : rules.lineComment.toList ≠ []) {line : List Char} (hline : Text.Unbroken line)
    {t : Token} (ht : t.StandsIn rules line) (hcomment : t.category = .comment) : rules.Valid := by
  obtain ⟨behind, hmarker⟩ := ht.marked hcomment
  refine ⟨hwords, hne, fun c hc => ?_, fun c hc => (hblanks c hc).1, fun c hc => (hblanks c hc).2,
    fun c hc => ?_⟩
  · have hmem : c ∈ line.drop t.startColumn := hmarker ▸ List.mem_append_left behind hc
    exact hline c (List.mem_of_mem_drop hmem)
  · apply ht.visible
    rw [← hmarker, List.head?_append_of_ne_nil _ hne, hc]

end Rules

namespace Tokenizer

variable {rules : Rules}

/-- The tokens of a text stand in its lines. -/
theorem standsInLines_of_mem {t : Tokenizer} {text : String} {token : Token}
    (hmem : token ∈ t.tokenize text) :
    TokenStream.StandsInLines t.rules (Text.lines text.toList) token :=
  (TokenStream.inLines_ofText text).standsInLines_drain token hmem

/-- If any text has a comment, a tokenizer can be built unless the marker is empty. -/
theorem build_of_comment (hwords : ∀ word ∈ rules.reservedWords, Rules.isWord word = true)
    (hblanks : ∀ c ∈ rules.whitespace, c.isAlphanum = false ∧ Text.isLineBreak c = false)
    (hne : rules.lineComment.toList ≠ []) {text : String} {token : Token}
    (hmem : token ∈ (Tokenizer.mk rules).tokenize text) (hcomment : token.category = .comment) :
    (build rules).result = .ok ⟨rules⟩ := by
  obtain ⟨line, hline, hstands⟩ := standsInLines_of_mem hmem
  have hunbroken := Text.unbroken_of_mem_lines (List.mem_of_getElem? hline)
  have hvalid := Rules.valid_of_comment hwords hblanks hne hunbroken hstands hcomment
  exact build_eq_ok_iff.mpr ⟨hvalid, rfl⟩

/-- Where the reserved words and the blank characters pass their checks, those of the marker are
exact: a tokenizer can be built if and only if the rules, unchecked, read the marker as a single
comment. If it cannot be built, no text has a comment that starts with the marker, unless the marker
is empty. -/
theorem build_iff_tokenize_marker (rules : Rules)
    (hwords : ∀ word ∈ rules.reservedWords, Rules.isWord word = true)
    (hblanks : ∀ c ∈ rules.whitespace, c.isAlphanum = false ∧ Text.isLineBreak c = false) :
    ((∃ t, (build rules).result = .ok t) ↔
        ∃ token, (Tokenizer.mk rules).tokenize rules.lineComment = [token] ∧
          token.category = .comment ∧ token.line = 0 ∧ token.startColumn = 0 ∧
          token.length = rules.lineComment.length) ∧
      ∀ error, (build rules).result = .error error →
        ∀ text, ∀ token ∈ (Tokenizer.mk rules).tokenize text, token.category = .comment →
          ∃ line s, (Text.lines text.toList)[token.line]? = some line ∧
            token.text? (String.ofList line) = some s ∧
            ¬ (rules.lineComment.toList ≠ [] ∧ rules.lineComment.toList <+: s.toList) := by
  refine ⟨⟨?_, ?_⟩, ?_⟩
  · intro hbuilt
    obtain ⟨t, hbuilt⟩ := hbuilt
    obtain ⟨hvalid, -⟩ := build_eq_ok_iff.mp hbuilt
    exact ⟨_, tokenize_marker (t := ⟨rules⟩) hvalid hvalid.marker_unbroken List.prefix_rfl,
      rfl, rfl, rfl, rfl⟩
  · intro hread
    obtain ⟨token, htokens, hcomment, -, -, hlength⟩ := hread
    have hmem : token ∈ (Tokenizer.mk rules).tokenize rules.lineComment := by
      rw [htokens]
      exact List.mem_singleton_self _
    -- A token is never empty, so that the marker that it covers is not empty either.
    have hne : rules.lineComment.toList ≠ [] := by
      obtain ⟨_, _, hstands⟩ := standsInLines_of_mem hmem
      rw [← List.length_pos_iff, String.length_toList, ← hlength]
      exact hstands.length_pos
    exact ⟨_, build_of_comment hwords hblanks hne hmem hcomment⟩
  · intro error hfails text token hmem hcomment
    obtain ⟨line, hline, hstands⟩ := standsInLines_of_mem hmem
    obtain ⟨s, htext⟩ := hstands.exists_text?
    refine ⟨line, s, hline, htext, fun hmarker => ?_⟩
    rw [build_of_comment hwords hblanks hmarker.1 hmem hcomment] at hfails
    cases hfails

/-- The marker `rem` is accepted. With the blank character `-` in front of it, it is refused, and no
text has a comment that starts with it. -/
theorem build_iff_tokenize_marker_remarks :
    let hidden : Rules := { Rules.remarks with lineComment := "-rem" }
    (∃ t, (build Rules.remarks).result = .ok t) ∧
      (build hidden).result = .error (.invalidCommentMarker "-rem") ∧
      (Tokenizer.mk hidden).tokenize "-rem" = [⟨0, 1, 3, .identifier, .singleton .declaration⟩] ∧
      ∀ text, ∀ token ∈ (Tokenizer.mk hidden).tokenize text, token.category = .comment →
        ∃ line s, (Text.lines text.toList)[token.line]? = some line ∧
          token.text? (String.ofList line) = some s ∧
          ¬ ("-rem".toList ≠ [] ∧ "-rem".toList <+: s.toList) := by
  intro hidden
  have hblanks : ∀ c ∈ [' ', '-'], c.isAlphanum = false ∧ Text.isLineBreak c = false :=
    Rules.badWhitespace?_eq_none_iff.mp (rfl : Rules.remarks.badWhitespace? = none)
  obtain ⟨haccepted, -⟩ := build_iff_tokenize_marker Rules.remarks (by decide) hblanks
  obtain ⟨-, hrefused⟩ := build_iff_tokenize_marker hidden (by decide) hblanks
  have hfails : (build hidden).result = .error (.invalidCommentMarker "-rem") := by decide
  refine ⟨haccepted.mpr ⟨commentToken 0 0 3, by decide +kernel, rfl, rfl, rfl, rfl⟩, hfails,
    by decide +kernel, hrefused _ hfails⟩

end Tokenizer

end LineLexer
