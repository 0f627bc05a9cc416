import LineLexer.Text.Quoted
import LineLexer.Token

/-!
# Events

A lexer reports what it does as a sequence of events. An event has a level and a message.
-/

namespace LineLexer

/-- How much detail an event adds: `debug` for what happens once, `trace` for every line and
token. -/
inductive Level where
  | debug
  | trace
  deriving DecidableEq, Repr

/-- The name of a level in a report. -/
def Level.name : Level → String
  | .debug => "DEBUG"
  | .trace => "TRACE"

/-- Something that a lexer has done. -/
inductive Event where
  | built (rules : String) (wordCount : Nat)
  | scanning (lineIndex : Nat) (line : List Char)
  | token (found : Token)
  deriving DecidableEq, Repr

namespace Event

/-- The level of an event. -/
def level : Event → Level
  | built .. => .debug
  | scanning .. => .trace
  | token .. => .trace

/-- The message of an event. -/
def message : Event → String
  | built rules wordCount =>
    "Built tokenizer for rule set '" ++ rules ++ "' with " ++ toString wordCount ++
      " reserved words"
  | scanning lineIndex line => s!"Scanning line {lineIndex}: " ++ Text.quoted line
  | token found => "Token: " ++ found.render

end Event

end LineLexer
