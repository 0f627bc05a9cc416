import LineLexer.Json.Ignored

/-!
# Decoders of single values

Each decoder here accepts one kind of value. A value of another kind is a mismatch: a single value
is read to its end before it is reported, a list or an object is reported at its bracket. Only
where a value of a table is wanted, `variant`, another kind makes the document malformed.
-/

namespace LineLexer.Json.Decoder

/-- Takes a value of an unexpected kind and names it; the byte that opens it has been seen. -/
def unexpected (b : UInt8) : Decoder Found :=
  if b = ascii 'n' then do
    word ['n', 'u', 'l', 'l']
    pure .null
  else if b = ascii 't' then do
    word ['t', 'r', 'u', 'e']
    pure (.boolean true)
  else if b = ascii 'f' then do
    word ['f', 'a', 'l', 's', 'e']
    pure (.boolean false)
  else if startsNumeral b then do
    let n ← number
    pure n.found
  else if b = ascii '"' then do
    skip
    let text ← literalText
    pure (.string text)
  else if b = ascii '[' then pure .sequence
  else if b = ascii '\x7b' then pure .map
  else fail .malformed

/-- Stops because of a value of an unexpected kind. -/
def wrongType {α : Type} (b : UInt8) (expected : String) : Decoder α := do
  let found ← unexpected b
  reject (.wrongType found expected)

/-- Reads a string under a name for what is expected. -/
def stringAs (expected : String) : Decoder String := do
  let b ← significant
  if b = ascii '"' then do
    skip
    literalText
  else wrongType b expected

/-- Reads a string. -/
def string : Decoder String :=
  stringAs "a string"

/-- Reads a string of one character. -/
def char : Decoder Char := do
  let text ← stringAs "a character"
  match text.toList with
  | [c] => pure c
  | _ => reject (.wrongValue (.string text) "a character")

/-- How a natural number of 64 bits is named where one is expected. -/
def naturalName : String :=
  "usize"

/-- Reads a natural number of 64 bits. -/
def natural : Decoder Nat := do
  let b ← significant
  if startsNumeral b then do
    match ← number with
    | .natural value => pure value
    | .negative magnitude =>
      reject (.wrongValue (Number.negative magnitude).found naturalName)
    | .float value => reject (.wrongType (.float value) naturalName)
  else wrongType b naturalName

/-- Reads a null. -/
def null : Decoder Unit := do
  let b ← significant
  if b = ascii 'n' then word ['n', 'u', 'l', 'l'] else wrongType b "unit"

/-- The value with a given key in a table of values. -/
def lookUp {α : Type} (table : List (String × α)) (key : String) : Decoder α :=
  match table.find? (·.1 == key) with
  | some (_, value) => pure value
  | none => reject (.unknownVariant key (table.map Prod.fst))

/-- Reads one of the values of a table. It is given by its key, or by an object whose only key it
is and whose only value is null. Anything else in the place of the value, and anything but a literal
in the place of the key, makes the document malformed. Only an unknown key and another value than
null are mismatches. -/
def variant {α : Type} (table : List (String × α)) : Decoder α := do
  let b ← significant
  if b = ascii '"' then do
    skip
    let key ← literalText
    lookUp table key
  else if b = ascii '\x7b' then do
    skip
    punctuation '"'
    let key ← literalText
    let value ← lookUp table key
    punctuation ':'
    null
    punctuation '\x7d'
    pure value
  else fail .malformed

end LineLexer.Json.Decoder
