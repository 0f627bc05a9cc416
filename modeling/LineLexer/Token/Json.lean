import LineLexer.Json.Aggregate
import LineLexer.Json.Value
import LineLexer.Token

/-!
# Tokens in documents

Categories and modifiers are written by their keys, a set of modifiers as the list of its members
in the order of the legend, and a token as a record of its five parts, which must all be there. A
list of modifiers may be in any order and name a modifier more than once. A token of length zero
is refused.
-/

namespace LineLexer

open Json

/-- A category as a value of a document. -/
def Category.toValue (c : Category) : Value :=
  .string c.key

/-- The categories by their keys. -/
def Category.table : List (String × Category) :=
  all.map fun c => (c.key, c)

/-- Reads a category. -/
def Category.decoder : Decoder Category :=
  Decoder.variant table

/-- A modifier as a value of a document. -/
def Modifier.toValue (m : Modifier) : Value :=
  .string m.key

/-- The modifiers by their keys. -/
def Modifier.table : List (String × Modifier) :=
  all.map fun m => (m.key, m)

/-- Reads a modifier. -/
def Modifier.decoder : Decoder Modifier :=
  Decoder.variant table

/-- A set of modifiers as a value of a document. -/
def ModifierSet.toValue (s : ModifierSet) : Value :=
  .list (s.toList.map Modifier.toValue)

/-- Reads a set of modifiers. -/
def ModifierSet.decoder : Decoder ModifierSet := do
  let modifiers ← Decoder.list Modifier.decoder
  pure (ofList modifiers)

namespace Token

/-- A token as a value of a document. -/
def toValue (t : Token) : Value :=
  .object
    [("line", .number t.line), ("startColumn", .number t.startColumn),
      ("length", .number t.length), ("category", t.category.toValue),
      ("modifiers", t.modifiers.toValue)]

/-- The parts of a token that have been read. -/
structure Parts where
  line : Option Nat := none
  startColumn : Option Nat := none
  length : Option Nat := none
  category : Option Category := none
  modifiers : Option ModifierSet := none

/-- The token of the parts, or the name of the first part that is missing. That the token covers a
character is not looked at. -/
def Parts.finish (parts : Parts) : Except String Token := do
  let line ← parts.line.elim (.error "line") .ok
  let startColumn ← parts.startColumn.elim (.error "startColumn") .ok
  let length ← parts.length.elim (.error "length") .ok
  let category ← parts.category.elim (.error "category") .ok
  let modifiers ← parts.modifiers.elim (.error "modifiers") .ok
  return ⟨line, startColumn, length, category, modifiers⟩

/-- How a token is written in a document. -/
def form : Record Parts Token where
  expected := "struct TokenData"
  fields :=
    [.ofValue "line" Parts.line (fun parts line => { parts with line := some line })
        Decoder.natural,
      .ofValue "startColumn" Parts.startColumn
        (fun parts column => { parts with startColumn := some column }) Decoder.natural,
      .ofValue "length" Parts.length (fun parts length => { parts with length := some length })
        Decoder.natural,
      .ofValue "category" Parts.category
        (fun parts category => { parts with category := some category }) Category.decoder,
      .ofValue "modifiers" Parts.modifiers
        (fun parts modifiers => { parts with modifiers := some modifiers }) ModifierSet.decoder]
  start := {}
  finish := Parts.finish

/-- Reads a token, which has to cover a character. -/
def decoder : Decoder Token := do
  let t ← Decoder.record form
  match ofParts t.line t.startColumn t.length t.category t.modifiers with
  | .ok t => pure t
  | .error error => Decoder.reject (.refused error)

/-- Reads a list of tokens. -/
def listDecoder : Decoder (List Token) :=
  Decoder.list decoder

end Token

end LineLexer
