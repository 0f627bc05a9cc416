import LineLexer.Json.Aggregate
import LineLexer.Json.Value
import LineLexer.Rules

/-!
# Rule sets in documents

A rule set is a record of its four fields. A field that is missing has the value of the standard
rules. Reading does not ask whether the rule set can be used.
-/

namespace LineLexer.Rules

open Json

/-- A rule set as a value of a document. -/
def toValue (rules : Rules) : Value :=
  .object
    [("name", .string rules.name),
      ("reserved_words", .list (rules.reservedWords.map .string)),
      ("line_comment", .string rules.lineComment),
      ("whitespace", .list (rules.whitespace.map fun c => .string (String.singleton c)))]

/-- A rule set as a document with one item a line. -/
def toJson (rules : Rules) : String :=
  rules.toValue.pretty

/-- The fields of a rule set that have been read. -/
structure Parts where
  name : Option String := none
  reservedWords : Option (List String) := none
  lineComment : Option String := none
  whitespace : Option (List Char) := none

/-- The rule set of the fields, with those of the standard rules for the missing ones. -/
def Parts.complete (parts : Parts) : Rules where
  name := parts.name.getD standard.name
  reservedWords := parts.reservedWords.getD standard.reservedWords
  lineComment := parts.lineComment.getD standard.lineComment
  whitespace := parts.whitespace.getD standard.whitespace

/-- How a rule set is written in a document. -/
def form : Record Parts Rules where
  expected := "struct LexicalRules"
  fields :=
    [.ofValue "name" Parts.name (fun parts name => { parts with name := some name })
        Decoder.string,
      .ofValue "reserved_words" Parts.reservedWords
        (fun parts words => { parts with reservedWords := some words })
        (Decoder.list Decoder.string),
      .ofValue "line_comment" Parts.lineComment
        (fun parts marker => { parts with lineComment := some marker }) Decoder.string,
      .ofValue "whitespace" Parts.whitespace
        (fun parts chars => { parts with whitespace := some chars }) (Decoder.list Decoder.char)]
  start := {}
  finish parts := .ok parts.complete

/-- Reads a rule set. -/
def decoder : Decoder Rules :=
  Decoder.record form

/-- The rule set in a document that is given as text. -/
def ofJson (text : String) : Except Fault Rules :=
  decoder.read text

/-- The rule set in a document that is given as bytes from a source that ends in the given way. -/
def ofJsonBytes (ending : Ending) (bytes : List UInt8) : Except Fault Rules :=
  decoder.readBytes ending bytes

end LineLexer.Rules
