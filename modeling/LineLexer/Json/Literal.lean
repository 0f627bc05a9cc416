import LineLexer.Json.Decoder

/-!
# String literals

A string literal is a run of bytes in double quotes. A backslash opens an escape: one character,
or `u` and the four hexadecimal digits of a sixteen-bit code unit. Where the text of a literal is
wanted, its units have to pair up and its bytes have to be UTF-8; a literal that is only passed
over need not denote a text.
-/

namespace LineLexer.Json

/-- How much is asked of a literal: to have the shape of one, or to have a meaning too. -/
inductive Care where
  | shape
  | meaning
  deriving DecidableEq, Repr

/-- The value of a hexadecimal digit. -/
def hexValue? (b : UInt8) : Option Nat :=
  if ascii '0' ≤ b ∧ b ≤ ascii '9' then some (b.toNat - '0'.toNat)
  else if ascii 'a' ≤ b ∧ b ≤ ascii 'f' then some (b.toNat - 'a'.toNat + 10)
  else if ascii 'A' ≤ b ∧ b ≤ ascii 'F' then some (b.toNat - 'A'.toNat + 10)
  else none

/-- The code unit written with four hexadecimal digits. -/
def codeUnit? (a b c d : UInt8) : Option Nat := do
  let a ← hexValue? a
  let b ← hexValue? b
  let c ← hexValue? c
  let d ← hexValue? d
  return ((a * 16 + b) * 16 + c) * 16 + d

/-- The units that open a pair. -/
def isHighUnit (unit : Nat) : Bool :=
  0xD800 ≤ unit && unit ≤ 0xDBFF

/-- The units that close a pair. -/
def isLowUnit (unit : Nat) : Bool :=
  0xDC00 ≤ unit && unit ≤ 0xDFFF

/-- The character that a pair of units stands for. -/
def pairChar (high low : Nat) : Char :=
  Char.ofNat ((high - 0xD800) * 0x400 + (low - 0xDC00) + 0x10000)

namespace Decoder

/-- Takes four hexadecimal digits. All four bytes are taken before they are looked at. -/
def codeUnit : Decoder Nat := do
  let a ← take
  let b ← take
  let c ← take
  let d ← take
  match codeUnit? a b c d with
  | some unit => pure unit
  | none => fail .malformed

/-- Takes the rest of an escape by number and returns the character it denotes. -/
def numberedChar : Decoder Char := do
  let unit ← codeUnit
  if isLowUnit unit then fail .malformed
  else if isHighUnit unit then do
    word ['\\', 'u']
    let low ← codeUnit
    if isLowUnit low then pure (pairChar unit low) else fail .malformed
  else pure (Char.ofNat unit)

/-- The character that an escape of one byte denotes. -/
def escapedChar? (b : UInt8) : Option Char :=
  if b = ascii '"' then some '"'
  else if b = ascii '\\' then some '\\'
  else if b = ascii '/' then some '/'
  else if b = ascii 'b' then some '\x08'
  else if b = ascii 'f' then some '\x0c'
  else if b = ascii 'n' then some '\n'
  else if b = ascii 'r' then some '\r'
  else if b = ascii 't' then some '\t'
  else none

/-- Takes the rest of an escape after its first byte and returns the bytes of the character that
it denotes, none if only its shape matters. -/
def escapeFrom (care : Care) (b : UInt8) : Decoder (List UInt8) :=
  if b = ascii 'u' then
    match care with
    | .shape => do
      let _ ← codeUnit
      pure []
    | .meaning => do
      let c ← numberedChar
      pure (String.utf8EncodeChar c)
  else
    match escapedChar? b with
    | some c => pure (String.utf8EncodeChar c)
    | none => fail .malformed

/-- Takes an escape after its backslash. -/
def escape (care : Care) : Decoder (List UInt8) := do
  let b ← take
  escapeFrom care b

/-! ## Progress -/

/-- The decoder never leaves more bytes than it was given. -/
def Shrinks {α : Type} (d : Decoder α) : Prop :=
  ∀ (ending : Ending) (bytes : List UInt8) (value : α) (rest : List UInt8),
    d ending bytes = .ok (value, rest) → rest.length ≤ bytes.length

/-- Reading nothing leaves all bytes. -/
theorem Shrinks.pure {α : Type} (value : α) : Shrinks (pure value : Decoder α) := by
  intro ending bytes found rest h
  cases h
  exact Nat.le_refl _

/-- A decoder that only stops leaves no bytes. -/
theorem Shrinks.fail {α : Type} (fault : Fault) : Shrinks (fail fault : Decoder α) := by
  intro ending bytes found rest h
  cases h

/-- Two decoders one after the other take what both take. -/
theorem Shrinks.bind {α β : Type} {first : Decoder α} {second : α → Decoder β}
    (hfirst : first.Shrinks) (hsecond : ∀ value, (second value).Shrinks) :
    (first >>= second).Shrinks := by
  intro ending bytes found rest h
  change first.andThen second ending bytes = _ at h
  unfold andThen at h
  split at h
  next => cases h
  next value middle hm => exact Nat.le_trans (hsecond value _ _ _ _ h) (hfirst _ _ _ _ hm)

/-- Taking a byte leaves one byte less. -/
theorem length_of_take {ending : Ending} {bytes rest : List UInt8} {b : UInt8}
    (h : take ending bytes = .ok (b, rest)) : bytes.length = rest.length + 1 := by
  unfold take at h
  split at h
  next => cases h
  next => cases h; rfl

/-- Taking a byte leaves fewer bytes. -/
theorem Shrinks.take : Shrinks take := by
  intro ending bytes found rest h
  rw [length_of_take h]
  exact Nat.le_succ _

/-- Taking a word leaves fewer bytes. -/
theorem Shrinks.word (chars : List Char) : Shrinks (word chars) := by
  induction chars with
  | nil => exact .pure ()
  | cons c chars ih =>
    refine .bind .take fun b => ?_
    split
    · exact ih
    · exact .fail _

/-- Taking four digits leaves fewer bytes. -/
theorem Shrinks.codeUnit : Shrinks codeUnit := by
  refine .bind .take fun a => .bind .take fun b => .bind .take fun c => .bind .take fun d => ?_
  split
  · exact .pure _
  · exact .fail _

/-- Taking an escape by number leaves fewer bytes. -/
theorem Shrinks.numberedChar : Shrinks numberedChar := by
  refine .bind .codeUnit fun unit => ?_
  split
  · exact .fail _
  · split
    · refine .bind (.word _) fun _ => .bind .codeUnit fun low => ?_
      split
      · exact .pure _
      · exact .fail _
    · exact .pure _

/-- The rest of an escape leaves fewer bytes. -/
theorem Shrinks.escapeFrom (care : Care) (b : UInt8) : Shrinks (escapeFrom care b) := by
  unfold Decoder.escapeFrom
  split
  · cases care
    · exact .bind .codeUnit fun _ => .pure _
    · exact .bind .numberedChar fun _ => .pure _
  · split
    · exact .pure _
    · exact .fail _

/-- Taking an escape leaves fewer bytes. -/
theorem length_of_escape {care : Care} {ending : Ending} {bytes rest meant : List UInt8}
    (h : escape care ending bytes = .ok (meant, rest)) : rest.length < bytes.length := by
  change take.andThen _ ending bytes = _ at h
  unfold andThen at h
  split at h
  next => cases h
  next b middle hb =>
    rw [length_of_take hb]
    exact Nat.lt_succ_of_le (Shrinks.escapeFrom care b _ _ _ _ h)

/-! ## Literals -/

/-- Takes the rest of a literal up to and with its closing quote. The bytes that it denotes are
put behind those in `meant`, in reverse order. -/
def literalBytes (care : Care) (ending : Ending) (meant : List UInt8) (bytes : List UInt8) :
    Except Fault (List UInt8 × List UInt8) :=
  match bytes with
  | [] => .error ending.fault
  | b :: rest =>
    if b = ascii '"' then .ok (meant.reverse, rest)
    else if b = ascii '\\' then
      match _taken : escape care ending rest with
      | .error fault => .error fault
      | .ok (unescaped, later) => literalBytes care ending (unescaped.reverse ++ meant) later
    else if b < ascii ' ' then .error .malformed
    else literalBytes care ending (b :: meant) rest
termination_by bytes.length
decreasing_by
  · exact Nat.lt_succ_of_lt (length_of_escape _taken)
  · exact Nat.lt_succ_self _

/-- Takes the rest of a literal and returns its text. That the bytes are UTF-8 is looked at after
the closing quote. -/
def literalText : Decoder String := do
  let bytes ← fun ending => literalBytes .meaning ending []
  match String.fromUTF8? bytes.toByteArray with
  | some text => pure text
  | none => fail .malformed

/-- Passes over the rest of a literal. -/
def skipLiteral : Decoder Unit := do
  let _ ← fun ending => literalBytes .shape ending []

end Decoder

end LineLexer.Json
