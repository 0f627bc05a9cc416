import LineLexer.Json.Literal

/-!
# Numerals

A numeral is an optional minus sign, a whole part without needless zeros, and optionally a fraction
and an exponent. A numeral without fraction and exponent that fits into 64 bits is an integer.
Every other one is a double: of its digits those that fit into 64 bits are kept, the others count
as powers of ten only, and the kept number is scaled by powers of ten in double arithmetic.
-/

namespace LineLexer.Json

/-- A numeral by its parts, digits in reading order. -/
structure Numeral where
  negative : Bool
  whole : List Nat
  fraction : Option (List Nat)
  exponent : Option Int
  deriving DecidableEq, Repr

/-- What a numeral denotes: a natural number, the negative of one, or a double. -/
inductive Number where
  | natural (value : Nat)
  | negative (magnitude : Nat)
  | float (value : Float)

/-- The greatest number of 64 bits. -/
def greatestWord : Nat :=
  Nat.pow 2 64 - 1

/-- Put digits behind a number as long as it fits into 64 bits; the digits from the first one on
that does not fit are left over. -/
def absorb (number : Nat) : List Nat → Nat × List Nat
  | [] => (number, [])
  | digit :: rest =>
    if number * 10 + digit ≤ greatestWord then absorb (number * 10 + digit) rest
    else (number, digit :: rest)

/-- The double nearest to a power of ten. -/
def powerOfTen (n : Nat) : Float :=
  Float.ofScientific 1 false n

/-- A double times a power of ten, or `none` if it is too great. Powers outside the range of
doubles are divided out in steps. -/
def scaled? (x : Float) (power : Int) : Option Float :=
  if 0 ≤ power then
    if power ≤ 308 then
      let product := x * powerOfTen power.toNat
      if product.isInf then none else some product
    else if x == 0 then some x
    else none
  else if -308 ≤ power then some (x / powerOfTen power.natAbs)
  else if x == 0 then some x
  else scaled? (x / powerOfTen 308) (power + 308)
termination_by power.natAbs

namespace Numeral

/-- The digits of a numeral as a number that fits into 64 bits and the power of ten to scale it
by. -/
def significand (n : Numeral) : Nat × Int :=
  let (number, left) := absorb 0 n.whole
  let fraction := n.fraction.getD []
  let (number, ignored) := absorb number fraction
  (number, (left.length : Int) - ((fraction.length : Int) - ignored.length))

/-- The digits of the whole part do not fit into 64 bits. -/
def isLong (n : Numeral) : Bool :=
  !(absorb 0 n.whole).2.isEmpty

/-- The double that a numeral denotes, or `none` if it is too great. -/
def float? (n : Numeral) : Option Float :=
  let (number, power) := n.significand
  (scaled? (Float.ofNat number) (power + n.exponent.getD 0)).map fun x =>
    if n.negative then -x else x

/-- The number that a numeral denotes, or `none` if it is too great. A negative zero and a negative
integer below the range of 64 bits are doubles. -/
def number? (n : Numeral) : Option Number :=
  if n.fraction.isSome || n.exponent.isSome || n.isLong then n.float?.map .float
  else
    let number := n.significand.1
    if !n.negative then some (.natural number)
    else if 0 < number ∧ number ≤ Nat.pow 2 63 then some (.negative number)
    else some (.float (-Float.ofNat number))

end Numeral

/-- A number as the value that was met. -/
def Number.found : Number → Found
  | natural value => .integer value
  | negative magnitude => .integer (-(magnitude : Int))
  | float value => .float value

namespace Decoder

/-- The bytes of decimal digits. -/
def isDigit (b : UInt8) : Bool :=
  ascii '0' ≤ b && b ≤ ascii '9'

/-- Takes a run of digits, which may be empty. -/
def digits : Decoder (List Nat) := do
  let run ← takeWhile isDigit
  pure (run.map fun b => b.toNat - '0'.toNat)

/-- Takes a run of at least one digit. -/
def someDigits (cut : Fault) : Decoder (List Nat) := do
  match ← peek with
  | none => fail cut
  | some b => if isDigit b then digits else fail .malformed

/-- Takes the whole part of a numeral: a zero alone, or digits that start with another one. -/
def wholePart (cut : Fault) : Decoder (List Nat) := do
  match ← peek with
  | none => fail cut
  | some b =>
    if b = ascii '0' then do
      skip
      match ← peek with
      | some next => if isDigit next then fail .malformed else pure [0]
      | none => pure [0]
    else if isDigit b then digits
    else fail .malformed

/-- Takes a byte if it is one of the given ones, and returns it. -/
def takeOneOf (chars : List Char) : Decoder (Option UInt8) := do
  match ← peek with
  | some b => if chars.any (ascii · == b) then do skip; pure (some b) else pure none
  | none => pure none

/-- The greatest exponent that a numeral may have if it is not zero. -/
def greatestExponent : Nat :=
  Nat.pow 2 31 - 1

/-- Takes the exponent of a numeral after its mark. With a meaning asked for, an exponent that no
double has is a fault before the end of the numeral is looked for. -/
def exponentPart (care : Care) (cut : Fault) (isZero : Bool) : Decoder Int := do
  let sign ← takeOneOf ['+', '-']
  let run ← someDigits cut
  let magnitude := run.foldl (fun number digit => number * 10 + digit) 0
  let isNegative := sign == some (ascii '-')
  if care = .meaning ∧ greatestExponent < magnitude ∧ isNegative = false ∧ isZero = false then
    fail .malformed
  else do
    let _ ← peek
    pure (if isNegative then -(magnitude : Int) else magnitude)

/-- Takes a numeral. A numeral that is cut off by the end of the document is incomplete if its
meaning is asked for; otherwise it is malformed. -/
def numeral (care : Care) : Decoder Numeral := do
  let cut : Fault := match care with
    | .meaning => .incomplete
    | .shape => .malformed
  let sign ← takeOneOf ['-']
  let whole ← wholePart cut
  let point ← takeOneOf ['.']
  let fraction ← if point.isSome then some <$> someDigits cut else pure none
  let mark ← takeOneOf ['e', 'E']
  let isZero := whole.all (· == 0) && (fraction.getD []).all (· == 0)
  let exponent ← if mark.isSome then some <$> exponentPart care cut isZero else pure none
  pure ⟨sign.isSome, whole, fraction, exponent⟩

/-- Takes a numeral and returns the number it denotes. -/
def number : Decoder Number := do
  let n ← numeral .meaning
  match n.number? with
  | some value => pure value
  | none => fail .malformed

/-- The byte opens a numeral. -/
def startsNumeral (b : UInt8) : Bool :=
  b == ascii '-' || isDigit b

end Decoder

end LineLexer.Json
