import LineLexer.Json.Fault

/-!
# Decoders

A decoder reads a value from the front of a document, byte by byte, and returns the bytes after
it, or the first fault. It is told how the bytes end, so that it can tell a document that is over
from one whose source has failed.
-/

namespace LineLexer.Json

/-- The byte of an ASCII character. -/
abbrev ascii (c : Char) : UInt8 :=
  c.toUInt8

/-- Reads a value from the front of a document. -/
def Decoder (α : Type) : Type :=
  Ending → List UInt8 → Except Fault (α × List UInt8)

namespace Decoder

/-- Reads nothing. -/
def succeed {α : Type} (value : α) : Decoder α :=
  fun _ bytes => .ok (value, bytes)

/-- Reads with one decoder and then with the one that is chosen by the value. -/
def andThen {α β : Type} (first : Decoder α) (second : α → Decoder β) : Decoder β :=
  fun ending bytes =>
    match first ending bytes with
    | .error fault => .error fault
    | .ok (value, rest) => second value ending rest

/-- Decoders run one after the other, up to the first fault. -/
instance : Monad Decoder where
  pure := succeed
  bind := andThen

/-- Stops with a fault. -/
def fail {α : Type} (fault : Fault) : Decoder α :=
  fun _ _ => .error fault

/-- Stops because of a value that does not match. -/
def reject {α : Type} (cause : Mismatch) : Decoder α :=
  fail (.mismatch cause)

/-- The next byte, which stays where it is, or `none` at the end of the document. A source that
has failed does not show whether the document is over. -/
def peek : Decoder (Option UInt8) :=
  fun ending bytes =>
    match bytes, ending with
    | b :: _, _ => .ok (some b, bytes)
    | [], .finished => .ok (none, [])
    | [], .failed reason => .error (.interrupted reason)

/-- The next byte, which stays where it is and must exist. -/
def look : Decoder UInt8 :=
  fun ending bytes =>
    match bytes with
    | [] => .error ending.fault
    | b :: _ => .ok (b, bytes)

/-- Takes the next byte, which must exist. -/
def take : Decoder UInt8 :=
  fun ending bytes =>
    match bytes with
    | [] => .error ending.fault
    | b :: rest => .ok (b, rest)

/-- Passes over the next byte. -/
def skip : Decoder Unit :=
  fun _ bytes => .ok ((), bytes.drop 1)

/-- Takes a run of bytes of one kind. -/
def takeWhile (p : UInt8 → Bool) : Decoder (List UInt8) :=
  fun _ bytes => .ok (bytes.takeWhile p, bytes.dropWhile p)

/-- The blank bytes between the parts of a document. -/
def isBlank (b : UInt8) : Bool :=
  b == ascii ' ' || b == ascii '\n' || b == ascii '\t' || b == ascii '\r'

/-- Passes over blanks. -/
def blanks : Decoder Unit := do
  let _ ← takeWhile isBlank

/-- The next byte that is not blank. It stays where it is and must exist. -/
def significant : Decoder UInt8 := do
  blanks
  look

/-- Takes the bytes of a word; the first byte that differs makes the document malformed. -/
def word : List Char → Decoder Unit
  | [] => pure ()
  | c :: rest => do
    let b ← take
    if b = ascii c then word rest else fail .malformed

/-- Takes a byte that is not blank and must be the given one. -/
def punctuation (c : Char) : Decoder Unit := do
  let b ← significant
  if b = ascii c then skip else fail .malformed

/-- Repeats a step, which returns the state for the next round or the final value. Every round has
to take at least one byte. -/
def loop {σ α : Type} (step : σ → Decoder (σ ⊕ α)) (state : σ) : Decoder α :=
  fun ending bytes =>
    match step state ending bytes with
    | .error fault => .error fault
    | .ok (.inr value, rest) => .ok (value, rest)
    | .ok (.inl later, rest) =>
      if rest.length < bytes.length then loop step later ending rest else .error .malformed
termination_by _ bytes => bytes.length

/-- Reads a whole document: a value, and nothing but blanks after it. -/
def document {α : Type} (d : Decoder α) : Decoder α := do
  let value ← d
  blanks
  match ← peek with
  | none => pure value
  | some _ => fail .malformed

/-- The value of a document that is given as bytes. -/
def readBytes {α : Type} (d : Decoder α) (ending : Ending) (bytes : List UInt8) : Except Fault α :=
  (d.document ending bytes).map Prod.fst

/-- The value of a document that is given as text. -/
def read {α : Type} (d : Decoder α) (text : String) : Except Fault α :=
  d.readBytes .finished text.toUTF8.data.toList

end Decoder

end LineLexer.Json
