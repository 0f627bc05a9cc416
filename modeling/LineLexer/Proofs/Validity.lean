import LineLexer.Builder

/-!
# Usable rule sets

`Rules.Valid` says in one place what the scan of a line relies on, and `violation?_eq_none_iff`
shows that the checks made before a tokenizer is built ask for exactly that. Every tokenizer a user
can get hold of therefore has valid rules, `Tokenizer.Obtained.valid`.
-/

namespace LineLexer

namespace Rules

/-- Words, numbers, markers and line breaks can all be met by a scan. -/
structure Valid (rules : Rules) : Prop where
  reserved_isWord : ∀ word ∈ rules.reservedWords, isWord word = true
  marker_ne_nil : rules.lineComment.toList ≠ []
  marker_unbroken : ∀ c ∈ rules.lineComment.toList, Text.isLineBreak c = false
  blank_not_alphanum : ∀ c ∈ rules.whitespace, c.isAlphanum = false
  blank_not_break : ∀ c ∈ rules.whitespace, Text.isLineBreak c = false
  marker_not_blank : ∀ c, rules.lineComment.toList.head? = some c → c ∉ rules.whitespace

theorem badWord?_eq_none_iff {rules : Rules} :
    rules.badWord? = none ↔ ∀ word ∈ rules.reservedWords, isWord word = true := by
  simp [badWord?]

theorem markerUnusable_eq_false_iff {rules : Rules} :
    rules.markerUnusable = false ↔
      rules.lineComment.toList ≠ [] ∧
        ∀ c ∈ rules.lineComment.toList, Text.isLineBreak c = false := by
  simp [markerUnusable]

theorem badWhitespace?_eq_none_iff {rules : Rules} :
    rules.badWhitespace? = none ↔
      ∀ c ∈ rules.whitespace, c.isAlphanum = false ∧ Text.isLineBreak c = false := by
  simp [badWhitespace?]

theorem markerHidden_eq_false_iff {rules : Rules} :
    rules.markerHidden = false ↔
      ∀ c, rules.lineComment.toList.head? = some c → c ∉ rules.whitespace := by
  cases h : rules.lineComment.toList.head? <;> simp [markerHidden, h]

/-- The checks find nothing exactly when none of them does. -/
theorem violation?_eq_none_iff_checks {rules : Rules} :
    rules.violation? = none ↔
      rules.badWord? = none ∧ rules.markerUnusable = false ∧ rules.badWhitespace? = none ∧
        rules.markerHidden = false := by
  unfold violation?
  cases rules.badWord? <;> cases rules.markerUnusable <;> cases rules.badWhitespace? <;> simp

/-- The checks find nothing exactly when the rule set is valid. -/
theorem violation?_eq_none_iff {rules : Rules} : rules.violation? = none ↔ rules.Valid := by
  rw [violation?_eq_none_iff_checks, badWord?_eq_none_iff, markerUnusable_eq_false_iff,
    badWhitespace?_eq_none_iff, markerHidden_eq_false_iff]
  constructor
  · rintro ⟨hwords, ⟨hne, hbreaks⟩, hblanks, hhidden⟩
    exact ⟨hwords, hne, hbreaks, fun c hc => (hblanks c hc).1, fun c hc => (hblanks c hc).2,
      hhidden⟩
  · intro h
    exact ⟨h.reserved_isWord, ⟨h.marker_ne_nil, h.marker_unbroken⟩,
      fun c hc => ⟨h.blank_not_alphanum c hc, h.blank_not_break c hc⟩, h.marker_not_blank⟩

/-- The standard rules pass every check. -/
theorem standard_valid : standard.Valid :=
  violation?_eq_none_iff.mp (by decide)

/-- A small rule set whose comment marker is itself a word. -/
def remarks : Rules :=
  ⟨"remarks", ["if", "then"], "rem", [' ', '-']⟩

end Rules

namespace Tokenizer

/-- A tokenizer is built exactly of the rule set it is asked for, and only if that is valid. -/
theorem build_eq_ok_iff {rules : Rules} {t : Tokenizer} :
    (build rules).result = .ok t ↔ rules.Valid ∧ t = ⟨rules⟩ := by
  rw [← Rules.violation?_eq_none_iff]
  unfold build
  cases rules.violation? <;> simp [eq_comm]

/-- A tokenizer that a user can get hold of: the standard one, or one that a builder has made. -/
inductive Obtained : Tokenizer → Prop where
  | standard : Obtained Tokenizer.standard
  | built (b : Builder) (t : Tokenizer) : b.build.result = .ok t → Obtained t

/-- The rules of a tokenizer that is in use are valid. -/
theorem Obtained.valid {t : Tokenizer} (h : t.Obtained) : t.rules.Valid := by
  cases h with
  | standard => exact Rules.standard_valid
  | built b t hbuild =>
      obtain ⟨hvalid, rfl⟩ := build_eq_ok_iff.mp hbuild
      exact hvalid

/-- Rules that pass the checks make a tokenizer. -/
theorem Obtained.of_violation? {rules : Rules} (h : rules.violation? = none) :
    (Tokenizer.mk rules).Obtained :=
  .built ⟨rules⟩ _ (build_eq_ok_iff.mpr ⟨Rules.violation?_eq_none_iff.mp h, rfl⟩)

theorem remarks_obtained : (Tokenizer.mk Rules.remarks).Obtained :=
  .of_violation? (by decide)

end Tokenizer

end LineLexer
