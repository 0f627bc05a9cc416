import LineLexer.Proofs.Validity
import Mathlib.Data.List.DropRight

/-!
# Rule sets that are put together in steps

What a sequence of steps makes of the standard rules is known field by field, `Builder.composed`: a
field has the value that was set last, and to the reserved words all those are added that came
after that. A step that is about one field leaves the others as they are,
`Builder.value_apply_of_ne`, and what it does to its own field does not depend on them,
`Builder.value_apply_congr`. This is why steps about different fields may change places,
`Builder.apply_comm`. The main statement is `Builder.build_applyAll`.
-/

namespace LineLexer.Builder

/-! ## What steps set -/

/-- A field of a rule set. -/
inductive Field where
  | name
  | reservedWords
  | lineComment
  | whitespace
  deriving DecidableEq

namespace Field

/-- What a field holds. -/
def Value : Field → Type
  | name => String
  | reservedWords => List String
  | lineComment => String
  | whitespace => List Char

/-- What a field of a rule set holds. -/
def value (rules : Rules) : (f : Field) → f.Value
  | name => rules.name
  | reservedWords => rules.reservedWords
  | lineComment => rules.lineComment
  | whitespace => rules.whitespace

/-- Rule sets that agree in every field are the same. -/
theorem eq_of_value_eq {left right : Rules} (h : ∀ f, value left f = value right f) :
    left = right := by
  obtain ⟨leftName, leftWords, leftMarker, leftBlanks⟩ := left
  obtain ⟨rightName, rightWords, rightMarker, rightBlanks⟩ := right
  obtain rfl : leftName = rightName := h name
  obtain rfl : leftWords = rightWords := h reservedWords
  obtain rfl : leftMarker = rightMarker := h lineComment
  obtain rfl : leftBlanks = rightBlanks := h whitespace
  rfl

end Field

namespace Step

/-- The field that a step is about, if it does not replace the whole rule set. -/
def field? : Step → Option Field
  | .name _ => some .name
  | .addReservedWord _ => some .reservedWords
  | .addReservedWords _ => some .reservedWords
  | .clearReservedWords => some .reservedWords
  | .lineComment _ => some .lineComment
  | .whitespace _ => some .whitespace
  | .rules _ => none

/-- The name that a step sets. -/
def name? : Step → Option String
  | .name value => some value
  | .rules whole => some whole.name
  | _ => none

/-- The list of reserved words that a step sets in place of the one before. -/
def words? : Step → Option (List String)
  | .clearReservedWords => some []
  | .rules whole => some whole.reservedWords
  | _ => none

/-- The reserved words that a step adds to the list. -/
def addedWords : Step → List String
  | .addReservedWord word => [word]
  | .addReservedWords words => words
  | _ => []

/-- The comment marker that a step sets. -/
def lineComment? : Step → Option String
  | .lineComment marker => some marker
  | .rules whole => some whole.lineComment
  | _ => none

/-- The blank characters that a step sets. -/
def whitespace? : Step → Option (List Char)
  | .whitespace chars => some chars
  | .rules whole => some whole.whitespace
  | _ => none

end Step

variable {α : Type} {b : Builder} {f g : Field} {step first second : Step}

/-- What the last step that sets something has set, or a given value if none does. -/
def lastSet (sets : Step → Option α) (unset : α) (steps : List Step) : α :=
  (steps.filterMap sets).getLastD unset

/-- The reserved words that have been added behind the last step that sets the list. -/
def wordsSince (steps : List Step) : List String :=
  (steps.rtakeWhile fun step => step.words?.isNone).flatMap Step.addedWords

/-- The rule set that a sequence of steps makes of the standard one. -/
def composed (steps : List Step) : Rules where
  name := lastSet Step.name? Rules.standard.name steps
  reservedWords :=
    lastSet Step.words? Rules.standard.reservedWords steps ++ wordsSince steps
  lineComment := lastSet Step.lineComment? Rules.standard.lineComment steps
  whitespace := lastSet Step.whitespace? Rules.standard.whitespace steps

/-! ## Field by field -/

/-- A part of the rule set that every step either sets or keeps has the value that was set last. -/
theorem applyAll_eq_lastSet (part : Rules → α) (sets : Step → Option α)
    (h : ∀ b step, part (apply b step).rules = (sets step).getD (part b.rules)) (b : Builder)
    (steps : List Step) : part (b.applyAll steps).rules = lastSet sets (part b.rules) steps := by
  unfold applyAll lastSet
  induction steps generalizing b with
  | nil => rfl
  | cons step steps ih =>
      rw [List.foldl_cons, ih, h]
      cases set : sets step with
      | none => rw [List.filterMap_cons_none set, Option.getD_none]
      | some value => rw [List.filterMap_cons_some set, List.getLastD_cons, Option.getD_some]

/-- A step that sets the list of reserved words starts it anew, and another one goes on with it. -/
theorem reservedWords_apply (b : Builder) (step : Step) :
    (b.apply step).rules.reservedWords =
      step.words?.getD b.rules.reservedWords ++ step.addedWords := by
  cases step <;> simp [apply, Step.words?, Step.addedWords]

/-- No step adds words to a list that it sets. -/
theorem addedWords_of_words? {words : List String} (h : step.words? = some words) :
    step.addedWords = [] := by
  cases step with
  | clearReservedWords => rfl
  | rules rules => rfl
  | _ => cases h

/-- The reserved words are those that were set last, with the ones behind them that have been added
since. -/
theorem reservedWords_applyAll (b : Builder) (steps : List Step) :
    (b.applyAll steps).rules.reservedWords =
      lastSet Step.words? b.rules.reservedWords steps ++ wordsSince steps := by
  unfold lastSet wordsSince
  induction steps using List.reverseRecOn with
  | nil => simp [applyAll]
  | append_singleton steps step ih =>
      have last : b.applyAll (steps ++ [step]) = (b.applyAll steps).apply step :=
        List.foldl_concat ..
      rw [last, reservedWords_apply, ih, List.filterMap_append]
      cases set : step.words? with
      | none => simp [set]
      | some words => simp [set, addedWords_of_words? set]

/-- The steps make the rule set that is composed of what each of them sets. -/
theorem rules_applyAll (steps : List Step) : (applyAll {} steps).rules = composed steps := by
  refine Field.eq_of_value_eq fun f => ?_
  cases f with
  | name =>
      exact applyAll_eq_lastSet Rules.name Step.name?
        (fun b step => by cases step <;> rfl) {} steps
  | reservedWords => exact reservedWords_applyAll {} steps
  | lineComment =>
      exact applyAll_eq_lastSet Rules.lineComment Step.lineComment?
        (fun b step => by cases step <;> rfl) {} steps
  | whitespace =>
      exact applyAll_eq_lastSet Rules.whitespace Step.whitespace?
        (fun b step => by cases step <;> rfl) {} steps

/-! ## Steps about different fields -/

/-- A step that is about one field leaves the others as they are. -/
theorem value_apply_of_ne (h : step.field? = some f) (other : g ≠ f) (b : Builder) :
    g.value (b.apply step).rules = g.value b.rules := by
  cases step <;> cases h <;> cases g <;> first | rfl | exact absurd rfl other

/-- What a step makes of its field depends on that field alone. -/
theorem value_apply_congr (h : step.field? = some f) {c : Builder}
    (same : f.value b.rules = f.value c.rules) :
    f.value (b.apply step).rules = f.value (c.apply step).rules := by
  cases step with
  | addReservedWord word =>
      cases h
      exact congrArg (· ++ [word]) same
  | addReservedWords words =>
      cases h
      exact congrArg (· ++ words) same
  | rules => cases h
  | _ => cases h; rfl

/-- The field of a step does not show whether a step about another field comes before or after. -/
theorem value_apply_swap (hfirst : first.field? = some f) (hsecond : second.field? = some g)
    (other : f ≠ g) (b : Builder) :
    f.value ((b.apply first).apply second).rules = f.value ((b.apply second).apply first).rules :=
  calc f.value ((b.apply first).apply second).rules
    _ = f.value (b.apply first).rules := value_apply_of_ne hsecond other _
    _ = f.value ((b.apply second).apply first).rules :=
        value_apply_congr hfirst (value_apply_of_ne hsecond other b).symm

/-- Two steps about different fields may change places. -/
theorem apply_comm (hfirst : first.field? = some f) (hsecond : second.field? = some g)
    (other : f ≠ g) (b : Builder) :
    (b.apply first).apply second = (b.apply second).apply first := by
  refine congrArg Builder.mk (Field.eq_of_value_eq fun k => ?_)
  by_cases isFirst : k = f
  · subst isFirst
    exact value_apply_swap hfirst hsecond other b
  · by_cases isSecond : k = g
    · subst isSecond
      exact (value_apply_swap hsecond hfirst other.symm b).symm
    · calc k.value ((b.apply first).apply second).rules
        _ = k.value (b.apply first).rules := value_apply_of_ne hsecond isSecond _
        _ = k.value b.rules := value_apply_of_ne hfirst isFirst b
        _ = k.value (b.apply second).rules := (value_apply_of_ne hsecond isSecond b).symm
        _ = k.value ((b.apply second).apply first).rules :=
            (value_apply_of_ne hfirst isFirst _).symm

/-- Two steps about different fields may change places in a sequence of steps. -/
theorem applyAll_comm (hfirst : first.field? = some f) (hsecond : second.field? = some g)
    (other : f ≠ g) (b : Builder) (before after : List Step) :
    b.applyAll (before ++ first :: second :: after) =
      b.applyAll (before ++ second :: first :: after) := by
  simp only [applyAll, List.foldl_append, List.foldl_cons]
  rw [apply_comm hfirst hsecond other]

/-! ## The tokenizer -/

/-- The rule set that is checked and that the tokenizer keeps holds in each field what the steps
have set last, and the standard value if they have not set it; behind the reserved words that were
set last there are all those, in order and with their repetitions, that have been added since. Two
neighbouring steps about different fields may change places: the tokenizer is built or refused as
before, and finds the same tokens. -/
theorem build_applyAll :
    (∀ steps, (applyAll {} steps).rules = composed steps ∧
      (applyAll {} steps).build = Tokenizer.build (composed steps) ∧
      ∀ t, (applyAll {} steps).build.result = .ok t → t.rules = composed steps) ∧
    ∀ before after first second f g, Step.field? first = some f → Step.field? second = some g →
      f ≠ g →
        let one := (applyAll {} (before ++ first :: second :: after)).build
        let other := (applyAll {} (before ++ second :: first :: after)).build
        one = other ∧ ∀ text, one.result.map (Tokenizer.tokenize · text) =
          other.result.map (Tokenizer.tokenize · text) := by
  refine ⟨fun steps => ?_, fun before after first second f g hfirst hsecond hne => ?_⟩
  · have made := rules_applyAll steps
    have built : (applyAll {} steps).build = Tokenizer.build (composed steps) := by
      rw [build, made]
    refine ⟨made, built, fun t ht => ?_⟩
    rw [built] at ht
    obtain ⟨-, rfl⟩ := Tokenizer.build_eq_ok_iff.mp ht
    rfl
  · intro one other
    have same : one = other := congrArg build (applyAll_comm hfirst hsecond hne {} before after)
    exact ⟨same, fun text => by rw [same]⟩

/-- The name is set twice and the words are cleared, set with the whole rule set and cleared again
between additions; a word is added twice. The two last steps may change places. -/
theorem build_applyAll_remarks :
    let before : List Step :=
      [.name "first", .addReservedWord "lost", .rules Rules.remarks, .whitespace ['.'],
        .addReservedWords ["lost", "too"], .clearReservedWords, .addReservedWord "let",
        .name "last", .addReservedWords ["in", "let"]]
    (applyAll {} before).rules = ⟨"last", ["let", "in", "let"], "rem", ['.']⟩ ∧
      (applyAll {} (before ++ [.lineComment "//", .addReservedWord "of"])).build =
        (applyAll {} (before ++ [.addReservedWord "of", .lineComment "//"])).build := by
  intro before
  obtain ⟨composition, exchange⟩ := build_applyAll
  refine ⟨(composition before).1.trans (by decide), ?_⟩
  exact (exchange before [] (.lineComment "//") (.addReservedWord "of") .lineComment .reservedWords
    rfl rfl (by decide)).1

end LineLexer.Builder
