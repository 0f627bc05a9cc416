import LineLexer.Json.Aggregate
import LineLexer.Json.Value
import LineLexer.Position

/-!
# Positions in documents

A position is a record of its line and its column, which must both be there.
-/

namespace LineLexer.Position

open Json

/-- A position as a value of a document. -/
def toValue (p : Position) : Value :=
  .object [("line", .number p.line), ("column", .number p.column)]

/-- A position in a document. -/
def toJson (p : Position) : String :=
  p.toValue.compact

/-- The parts of a position that have been read. -/
structure Parts where
  line : Option Nat := none
  column : Option Nat := none

/-- The position of the parts, or the name of the first part that is missing. -/
def Parts.finish (parts : Parts) : Except String Position :=
  match parts.line, parts.column with
  | none, _ => .error "line"
  | _, none => .error "column"
  | some line, some column => .ok ⟨line, column⟩

/-- How a position is written in a document. -/
def form : Record Parts Position where
  expected := "struct Position"
  fields :=
    [.ofValue "line" Parts.line (fun parts line => { parts with line := some line })
        Decoder.natural,
      .ofValue "column" Parts.column (fun parts column => { parts with column := some column })
        Decoder.natural]
  start := {}
  finish := Parts.finish

/-- Reads a position. -/
def decoder : Decoder Position :=
  Decoder.record form

end LineLexer.Position
