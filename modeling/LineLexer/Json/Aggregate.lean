import LineLexer.Json.Scalar

/-!
# Decoders of lists and records

A record is written as an object, with its fields in any order and other keys among them, or as a
list of the values of its fields in the order of declaration.
-/

namespace LineLexer.Json

/-- A field of a record that is collected in states `σ`: its name, whether it has been read, and
how it is read. -/
structure Field (σ : Type) where
  name : String
  isRead : σ → Bool
  decode : σ → Decoder σ

/-- A field that is read by a decoder of its value and kept by `put`. -/
def Field.ofValue {σ α : Type} (name : String) (get : σ → Option α) (put : σ → α → σ)
    (decoder : Decoder α) : Field σ where
  name := name
  isRead state := (get state).isSome
  decode state := do
    let value ← decoder
    pure (put state value)

/-- How a record is read: what is expected, the fields in the order of declaration, the state before
any is read, and the record made of a state or the name of the first field that it lacks. -/
structure Record (σ α : Type) where
  expected : String
  fields : List (Field σ)
  start : σ
  finish : σ → Except String α

namespace Decoder

/-! ## Lists -/

/-- Looks for a further item of a list, and passes over the comma in front of it. -/
def hasItem (isFirst : Bool) : Decoder Bool := do
  let b ← significant
  if b = ascii ']' then pure false
  else if isFirst then pure true
  else if b = ascii ',' then do
    skip
    let b ← significant
    if b = ascii ']' then fail .malformed else pure true
  else fail .malformed

/-- Reads an item behind those that are read, which are in reverse order, or the end of a list. -/
def listStep {α : Type} (item : Decoder α) (read : List α) : Decoder (List α ⊕ List α) := do
  if ← hasItem read.isEmpty then do
    let value ← item
    pure (.inl (value :: read))
  else do
    skip
    pure (.inr read.reverse)

/-- Reads a list of values of one kind. -/
def list {α : Type} (item : Decoder α) : Decoder (List α) := do
  let b ← significant
  if b = ascii '[' then do
    skip
    loop (listStep item) []
  else wrongType b "a sequence"

/-! ## Records -/

/-- Reads the value of a key. A second value for a field is refused at its key, before its colon;
the value of an unknown key is passed over. -/
def memberValue {σ α : Type} (record : Record σ α) (state : σ) (key : String) : Decoder σ :=
  match record.fields.find? (·.name == key) with
  | none => do
    punctuation ':'
    ignored
    pure state
  | some field =>
    if field.isRead state then reject (.duplicateField field.name)
    else do
      punctuation ':'
      field.decode state

/-- Reads a member of an object, or the end of it. -/
def memberStep {σ α : Type} (record : Record σ α) (place : Bool × σ) :
    Decoder ((Bool × σ) ⊕ σ) := do
  let (isFirst, state) := place
  let b ← significant
  if b = ascii '\x7d' then do
    skip
    pure (.inr state)
  else do
    if isFirst = false then punctuation ','
    punctuation '"'
    let key ← literalText
    let state ← memberValue record state key
    pure (.inl (false, state))

/-- Reads a record behind its opening brace. -/
def members {σ α : Type} (record : Record σ α) : Decoder α := do
  let state ← loop (memberStep record) (true, record.start)
  match record.finish state with
  | .ok value => pure value
  | .error name => reject (.missingField name)

/-- Reads the values of fields from a list, as many as there are, and counts them. -/
def positional {σ : Type} (state : σ) (count : Nat) : List (Field σ) → Decoder (σ × Nat)
  | [] => pure (state, count)
  | field :: rest => do
    if ← hasItem (count == 0) then do
      let state ← field.decode state
      positional state (count + 1) rest
    else pure (state, count)

/-- Reads a record behind its opening bracket. -/
def elements {σ α : Type} (record : Record σ α) : Decoder α := do
  let (state, count) ← positional record.start 0 record.fields
  match record.finish state with
  | .ok value => do
    punctuation ']'
    pure value
  | .error _ =>
    reject (.tooShort count s!"{record.expected} with {record.fields.length} elements")

/-- Reads a record. -/
def record {σ α : Type} (r : Record σ α) : Decoder α := do
  let b ← significant
  if b = ascii '\x7b' then do
    skip
    members r
  else if b = ascii '[' then do
    skip
    elements r
  else wrongType b r.expected

end Decoder

end LineLexer.Json
