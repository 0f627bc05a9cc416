import LineLexer.Proofs.Breaks
import LineLexer.Proofs.Validity
import Mathlib.Data.Finset.Dedup
import Mathlib.Data.Finset.Card

/-!
# The first violation of a rule set

What the checks before the building of a tokenizer ask of a rule set, said of its words and
characters themselves: `Rules.IsUsable`, and `Rules.FirstViolation` for the error that is reported
if there are several violations. The checks come in four stages, and each of them is reached only
if the ones before it have found nothing. A check that looks through a list reports the first entry
at fault, `find?_eq_some_iff_isFirst`. The main statement is `Tokenizer.build_outcome`.
-/

namespace LineLexer

/-- A small or capital letter of the Latin alphabet, without accents. -/
def IsLatinLetter (c : Char) : Prop :=
  ('a' ≤ c ∧ c ≤ 'z') ∨ ('A' ≤ c ∧ c ≤ 'Z')

/-- A decimal digit. -/
def IsDecimalDigit (c : Char) : Prop :=
  '0' ≤ c ∧ c ≤ '9'

theorem isAlpha_iff {c : Char} : c.isAlpha = true ↔ IsLatinLetter c := by
  have upper : c.isUpper = true ↔ 'A' ≤ c ∧ c ≤ 'Z' := by
    show decide ('A'.val ≤ c.val ∧ c.val ≤ 'Z'.val) = true ↔ _
    exact decide_eq_true_iff
  have lower : c.isLower = true ↔ 'a' ≤ c ∧ c ≤ 'z' := by
    show (decide ('a'.val ≤ c.val) && decide (c.val ≤ 'z'.val)) = true ↔ _
    rw [Bool.and_eq_true, decide_eq_true_iff, decide_eq_true_iff]
    rfl
  show (c.isUpper || c.isLower) = true ↔ _
  rw [Bool.or_eq_true, upper, lower, or_comm]
  rfl

theorem isAlphanum_iff {c : Char} :
    c.isAlphanum = true ↔ IsLatinLetter c ∨ IsDecimalDigit c := by
  rw [Char.isAlphanum, Bool.or_eq_true, isAlpha_iff]
  simp [IsDecimalDigit, Char.isDigit, Char.le_def]

/-- The first entry of a list that has a property. -/
structure IsFirst {α : Type} (p : α → Prop) (xs : List α) (x : α) : Prop where
  holds : p x
  first : ∃ before after, xs = before ++ x :: after ∧ ∀ y ∈ before, ¬ p y

/-- A search finds the first entry that has a property. -/
theorem find?_eq_some_iff_isFirst {α : Type} {p : α → Prop} {test : α → Bool}
    (htest : ∀ x, test x = true ↔ p x) {xs : List α} {x : α} :
    xs.find? test = some x ↔ IsFirst p xs x := by
  rw [List.find?_eq_some_iff_append]
  simp only [htest, Bool.not_eq_true', ← Bool.not_eq_true]
  exact ⟨fun ⟨hx, hfirst⟩ => ⟨hx, hfirst⟩, fun h => ⟨h.holds, h.first⟩⟩

/-- A search finds nothing if no entry has the property. -/
theorem find?_eq_none_iff_forall {α : Type} {p : α → Prop} {test : α → Bool}
    (htest : ∀ x, test x = true ↔ p x) {xs : List α} :
    xs.find? test = none ↔ ∀ x ∈ xs, ¬ p x := by
  simp only [List.find?_eq_none, htest]

namespace Rules

/-- A letter, and letters and digits behind it. -/
def SpellsWord (text : String) : Prop :=
  ∃ c rest, text.toList = c :: rest ∧ IsLatinLetter c ∧
    ∀ d ∈ rest, IsLatinLetter d ∨ IsDecimalDigit d

/-- The marker is empty or contains a line break. -/
def MarkerBroken (rules : Rules) : Prop :=
  rules.lineComment.toList = [] ∨ '\n' ∈ rules.lineComment.toList ∨ '\r' ∈ rules.lineComment.toList

/-- The marker starts with a blank character. -/
def MarkerBlank (rules : Rules) : Prop :=
  ∃ c rest, rules.lineComment.toList = c :: rest ∧ c ∈ rules.whitespace

/-- A blank character would hide a word, a number or a line break. -/
def Hides (c : Char) : Prop :=
  (IsLatinLetter c ∨ IsDecimalDigit c) ∨ c = '\n' ∨ c = '\r'

/-- What is asked of a rule set. -/
structure IsUsable (rules : Rules) : Prop where
  words : ∀ word ∈ rules.reservedWords, SpellsWord word
  marker : ¬ rules.MarkerBroken
  blanks : ∀ c ∈ rules.whitespace, ¬ Hides c
  start : ¬ rules.MarkerBlank

/-- The error that is reported of a rule set: a later check matters only if the earlier ones have
found nothing. -/
inductive FirstViolation (rules : Rules) : Error → Prop where
  | word {word : String} (h : IsFirst (¬ SpellsWord ·) rules.reservedWords word) :
      FirstViolation rules (.invalidReservedWord word)
  | marker (words : ∀ word ∈ rules.reservedWords, SpellsWord word) (h : rules.MarkerBroken) :
      FirstViolation rules (.invalidCommentMarker rules.lineComment)
  | blank {c : Char} (words : ∀ word ∈ rules.reservedWords, SpellsWord word)
      (marker : ¬ rules.MarkerBroken) (h : IsFirst Hides rules.whitespace c) :
      FirstViolation rules (.invalidWhitespace c)
  | start (words : ∀ word ∈ rules.reservedWords, SpellsWord word)
      (marker : ¬ rules.MarkerBroken) (blanks : ∀ c ∈ rules.whitespace, ¬ Hides c)
      (h : rules.MarkerBlank) :
      FirstViolation rules (.invalidCommentMarker rules.lineComment)

variable {rules : Rules}

/-! ## Each check -/

/-- The check of a reserved word asks for its spelling. -/
theorem isWord_iff_spellsWord {text : String} : isWord text = true ↔ SpellsWord text := by
  unfold isWord SpellsWord
  cases text.toList with
  | nil => simp
  | cons c rest =>
      rw [Bool.and_eq_true, isAlpha_iff, List.all_eq_true]
      simp only [isAlphanum_iff]
      constructor
      · rintro ⟨hc, hrest⟩
        exact ⟨c, rest, rfl, hc, hrest⟩
      · rintro ⟨_, _, ⟨⟩, hc, hrest⟩
        exact ⟨hc, hrest⟩

theorem not_isWord_iff {text : String} : (!isWord text) = true ↔ ¬ SpellsWord text := by
  rw [Bool.not_eq_true', Bool.eq_false_iff, Ne, isWord_iff_spellsWord]

theorem markerUnusable_iff : rules.markerUnusable = true ↔ rules.MarkerBroken := by
  rw [markerUnusable, MarkerBroken, Bool.or_eq_true, List.any_eq_true]
  refine or_congr (by simp) ⟨?_, ?_⟩
  · rintro ⟨c, hc, hbreak⟩
    rcases Text.isLineBreak_iff.mp hbreak with rfl | rfl
    · exact .inl hc
    · exact .inr hc
  · rintro (hc | hc)
    · exact ⟨'\n', hc, rfl⟩
    · exact ⟨'\r', hc, rfl⟩

theorem hides_iff {c : Char} : (c.isAlphanum || Text.isLineBreak c) = true ↔ Hides c := by
  rw [Bool.or_eq_true, isAlphanum_iff, Text.isLineBreak_iff, Hides]

theorem markerHidden_iff : rules.markerHidden = true ↔ rules.MarkerBlank := by
  unfold markerHidden MarkerBlank
  cases rules.lineComment.toList <;> simp

/-- The check of the reserved words finds the first one that is not spelled as a word. -/
theorem badWord?_eq_some_iff {word : String} :
    rules.badWord? = some word ↔ IsFirst (¬ SpellsWord ·) rules.reservedWords word :=
  find?_eq_some_iff_isFirst fun _ => not_isWord_iff

/-- The check of the blank characters finds the first one that hides something. -/
theorem badWhitespace?_eq_some_iff {c : Char} :
    rules.badWhitespace? = some c ↔ IsFirst Hides rules.whitespace c :=
  find?_eq_some_iff_isFirst fun _ => hides_iff

theorem badWord?_eq_none_iff_spellsWord :
    rules.badWord? = none ↔ ∀ word ∈ rules.reservedWords, SpellsWord word := by
  simp only [badWord?_eq_none_iff, isWord_iff_spellsWord]

theorem badWhitespace?_eq_none_iff_not_hides :
    rules.badWhitespace? = none ↔ ∀ c ∈ rules.whitespace, ¬ Hides c :=
  find?_eq_none_iff_forall fun _ => hides_iff

/-! ## All checks -/

/-- What is found is the first violation. -/
theorem firstViolation_of_violation? {e : Error} (h : rules.violation? = some e) :
    rules.FirstViolation e := by
  unfold violation? at h
  split at h
  · next word hword =>
      cases h
      exact .word (badWord?_eq_some_iff.mp hword)
  · next hwords =>
      have words := badWord?_eq_none_iff_spellsWord.mp hwords
      split at h
      · next hmarker =>
          cases h
          exact .marker words (markerUnusable_iff.mp hmarker)
      · next hmarker =>
          rw [markerUnusable_iff] at hmarker
          split at h
          · next c hc =>
              cases h
              exact .blank words hmarker (badWhitespace?_eq_some_iff.mp hc)
          · next hblanks =>
              have blanks := badWhitespace?_eq_none_iff_not_hides.mp hblanks
              split at h
              · next hstart =>
                  cases h
                  exact .start words hmarker blanks (markerHidden_iff.mp hstart)
              · cases h

/-- The first violation is found. -/
theorem FirstViolation.violation?_eq {e : Error} (h : rules.FirstViolation e) :
    rules.violation? = some e := by
  unfold violation?
  cases h with
  | word h => rw [badWord?_eq_some_iff.mpr h]
  | marker words h =>
      rw [badWord?_eq_none_iff_spellsWord.mpr words]
      exact if_pos (markerUnusable_iff.mpr h)
  | blank words marker h =>
      rw [badWord?_eq_none_iff_spellsWord.mpr words, badWhitespace?_eq_some_iff.mpr h]
      exact if_neg (mt markerUnusable_iff.mp marker)
  | start words marker blanks h =>
      rw [badWord?_eq_none_iff_spellsWord.mpr words,
        badWhitespace?_eq_none_iff_not_hides.mpr blanks]
      dsimp only
      rw [if_neg (mt markerUnusable_iff.mp marker), if_pos (markerHidden_iff.mpr h)]

/-- Nothing is found exactly in a rule set that has all that is asked for. -/
theorem violation?_eq_none_iff_isUsable : rules.violation? = none ↔ rules.IsUsable := by
  rw [violation?_eq_none_iff_checks, badWord?_eq_none_iff_spellsWord, Bool.eq_false_iff, Ne,
    markerUnusable_iff, badWhitespace?_eq_none_iff_not_hides, Bool.eq_false_iff, Ne,
    markerHidden_iff]
  exact ⟨fun ⟨words, marker, blanks, start⟩ => ⟨words, marker, blanks, start⟩,
    fun h => ⟨h.words, h.marker, h.blanks, h.start⟩⟩

end Rules

/-! ## Counting words -/

/-- Taking out repetitions leaves every entry once. -/
theorem nodup_eraseDups {α : Type} [DecidableEq α] (xs : List α) : xs.eraseDups.Nodup := by
  induction hlen : xs.length using Nat.strongRecOn generalizing xs with
  | _ length ih =>
      subst hlen
      cases xs with
      | nil => exact List.nodup_nil
      | cons x xs =>
          have hshorter : (xs.filter fun y => !y == x).length < (x :: xs).length :=
            Nat.lt_succ_of_le (List.length_filter_le _ _)
          rw [List.eraseDups_cons, List.nodup_cons, List.mem_eraseDups, List.mem_filter]
          exact ⟨by simp, ih _ hshorter _ rfl⟩

/-- Words that are reserved several times count once. -/
theorem Rules.wordCount_eq_card (rules : Rules) :
    rules.wordCount = rules.reservedWords.toFinset.card := by
  have hsame : rules.reservedWords.eraseDups.toFinset = rules.reservedWords.toFinset := by
    ext word
    simp
  rw [← hsame, List.toFinset_card_of_nodup (nodup_eraseDups _), wordCount]

/-! ## The building of a tokenizer -/

namespace Tokenizer

variable {rules : Rules}

theorem build_of_isUsable (h : rules.IsUsable) :
    build rules = ⟨.ok ⟨rules⟩, [.built rules.name rules.wordCount]⟩ := by
  unfold build
  rw [Rules.violation?_eq_none_iff_isUsable.mpr h]

theorem build_of_firstViolation {e : Error} (h : rules.FirstViolation e) :
    build rules = ⟨.error e, []⟩ := by
  unfold build
  rw [h.violation?_eq]

/-- The building of a tokenizer succeeds or fails. -/
theorem isUsable_or_firstViolation (rules : Rules) :
    rules.IsUsable ∨ ∃ e, rules.FirstViolation e := by
  cases found : rules.violation? with
  | none => exact .inl (Rules.violation?_eq_none_iff_isUsable.mp found)
  | some e => exact .inr ⟨e, Rules.firstViolation_of_violation? found⟩

/-- The message of a tokenizer that has been built. -/
def buildMessage (name : String) (words : Nat) : String :=
  "Built tokenizer for rule set '" ++ name ++ "' with " ++ toString words ++ " reserved words"

/-- A tokenizer can be built of the usable rule sets and of no others, which are refused for their
first violation. A tokenizer keeps the rule set that it has been built of as it is; its building is
reported once, with the number of different reserved words. Nothing is reported of a rule set that
is refused. -/
theorem build_outcome (rules : Rules) :
    ((∃ t, (build rules).result = .ok t) ↔ rules.IsUsable) ∧
      (∀ e, (build rules).result = .error e ↔ rules.FirstViolation e) ∧
      (∀ t, (build rules).result = .ok t → t.rules = rules ∧
        (build rules).messages .debug =
          [buildMessage rules.name rules.reservedWords.toFinset.card] ∧
        (build rules).messages .trace = []) ∧
      ∀ e, (build rules).result = .error e → (build rules).events = [] := by
  rcases isUsable_or_firstViolation rules with h | ⟨first, h⟩
  · have hbuild := build_of_isUsable h
    have hrefused : ∀ e, ¬ rules.FirstViolation e := by
      intro e he
      rw [build_of_firstViolation he] at hbuild
      cases hbuild
    rw [hbuild, ← Rules.wordCount_eq_card]
    refine ⟨⟨fun _ => h, fun _ => ⟨_, rfl⟩⟩, fun e => ⟨nofun, fun he => (hrefused e he).elim⟩, ?_,
      nofun⟩
    rintro _ ⟨⟩
    exact ⟨rfl, rfl, rfl⟩
  · have hbuild := build_of_firstViolation h
    have hunusable : ¬ rules.IsUsable := by
      intro husable
      rw [build_of_isUsable husable] at hbuild
      cases hbuild
    rw [hbuild]
    refine ⟨⟨nofun, fun husable => (hunusable husable).elim⟩, fun e => ⟨?_, fun he => ?_⟩, nofun,
      fun _ _ => rfl⟩
    · rintro ⟨⟩
      exact h
    · rw [build_of_firstViolation he] at hbuild
      cases hbuild
      rfl

/-- A word that is reserved twice counts once. Of several violations the one of the words comes
first, and among them that of the first word at fault; that of the marker comes before that of a
blank character, unless the marker only starts with one. -/
theorem build_outcome_remarks :
    let twice : Rules := { Rules.remarks with reservedWords := ["if", "then", "if"] }
    let faulty (words : List String) (marker : String) : Rules :=
      ⟨"faulty", words, marker, ['-', 'x', '0']⟩
    (build twice).messages .debug =
        ["Built tokenizer for rule set 'remarks' with 2 reserved words"] ∧
      (build (faulty ["if", "9th", ""] "")).result = .error (.invalidReservedWord "9th") ∧
      (build (faulty ["if"] "")).result = .error (.invalidCommentMarker "") ∧
      (build (faulty ["if"] "--")).result = .error (.invalidWhitespace 'x') := by
  intro twice faulty
  have spelled (word : String) (h : Rules.isWord word = true) : Rules.SpellsWord word :=
    Rules.isWord_iff_spellsWord.mp h
  have misspelled (word : String) (h : Rules.isWord word = false) : ¬ Rules.SpellsWord word := by
    rwa [← Rules.isWord_iff_spellsWord, Bool.not_eq_true]
  have words : ∀ word ∈ ["if"], Rules.SpellsWord word := by
    simpa using spelled "if" (by decide)
  have built : (build twice).result = .ok ⟨twice⟩ := by decide
  obtain ⟨-, -, reports, -⟩ := build_outcome twice
  refine ⟨(reports _ built).2.1.trans (by decide +kernel),
    ((build_outcome _).2.1 _).mpr (.word ⟨?_, ["if"], [""], rfl, ?_⟩),
    ((build_outcome _).2.1 _).mpr (.marker words (.inl rfl)),
    ((build_outcome _).2.1 _).mpr (.blank words ?_ ⟨?_, ['-'], ['0'], rfl, ?_⟩)⟩
  · exact misspelled "9th" (by decide)
  · simpa using words
  · simp [Rules.MarkerBroken, faulty]
  · exact .inl (.inl (.inl (by decide)))
  · simp [Rules.Hides, IsLatinLetter, IsDecimalDigit]

end Tokenizer

end LineLexer
