import LineLexer.TokenStream

/-!
# Tokenizers

A tokenizer finds the tokens of texts by one rule set. `Tokenizer.build` makes one of a rule set
that can be used and reports it; `Tokenizer.standard` has the standard rules.
-/

namespace LineLexer

/-- A lexer for texts that follow one rule set. -/
structure Tokenizer where
  rules : Rules
  deriving DecidableEq, Repr, Inhabited

/-- A result together with the events on the way to it. -/
structure Logged (Result : Type) where
  result : Result
  events : List Event

/-- The messages of a level, in order. -/
def Logged.messages {Result : Type} (logged : Logged Result) (level : Level) : List String :=
  (logged.events.filter (·.level = level)).map Event.message

namespace Tokenizer

/-- The tokenizer of the standard rules. -/
def standard : Tokenizer := ⟨Rules.standard⟩

/-- The tokenizer of a rule set, or the first reason why the rule set cannot be used. -/
def build (rules : Rules) : Logged (Except Error Tokenizer) :=
  match rules.violation? with
  | some error => ⟨.error error, []⟩
  | none => ⟨.ok ⟨rules⟩, [.built rules.name rules.wordCount]⟩

/-- The tokens of a text and the events on the way to them. -/
def run (t : Tokenizer) (text : String) : Logged (List Token) :=
  let pull := (TokenStream.ofText text).drain t.rules
  ⟨pull.found, pull.events⟩

/-- The tokens of a text. -/
def tokenize (t : Tokenizer) (text : String) : List Token :=
  (t.run text).result

end Tokenizer

/-- The tokens of a text by the standard rules. -/
def tokenize (text : String) : List Token :=
  Tokenizer.standard.tokenize text

end LineLexer
