import LineLexer.Tokenizer

/-!
# Building a tokenizer step by step

A builder holds a rule set, the standard one at first. Each step changes one field of it or
replaces the whole rule set; `Builder.build` makes the tokenizer.
-/

namespace LineLexer

/-- A tokenizer that is being put together. -/
structure Builder where
  rules : Rules := Rules.standard
  deriving DecidableEq, Repr, Inhabited

namespace Builder

/-- A change to the rule set of a builder. -/
inductive Step where
  | name (value : String)
  | addReservedWord (word : String)
  | addReservedWords (words : List String)
  | clearReservedWords
  | lineComment (marker : String)
  | whitespace (chars : List Char)
  | rules (rules : Rules)
  deriving DecidableEq, Repr

/-- The builder after a step. -/
def apply (b : Builder) : Step → Builder
  | .name value => { b with rules.name := value }
  | .addReservedWord word => { b with rules.reservedWords := b.rules.reservedWords ++ [word] }
  | .addReservedWords words => { b with rules.reservedWords := b.rules.reservedWords ++ words }
  | .clearReservedWords => { b with rules.reservedWords := [] }
  | .lineComment marker => { b with rules.lineComment := marker }
  | .whitespace chars => { b with rules.whitespace := chars }
  | .rules rules => ⟨rules⟩

/-- The builder after a sequence of steps. -/
def applyAll (b : Builder) (steps : List Step) : Builder :=
  steps.foldl apply b

/-- The tokenizer of the rule set that has been put together. -/
def build (b : Builder) : Logged (Except Error Tokenizer) :=
  Tokenizer.build b.rules

end Builder

end LineLexer
