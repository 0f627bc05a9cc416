/-!
# Shortest decimals of binary fractions

A finite double stands for all the reals that round to it. `shortest` picks the decimal with the
fewest digits among them, of those the one nearest to the double, and of two equally near the one
with an even last digit. All comparisons are exact, in natural numbers.
-/

namespace LineLexer.Decimal

/-- A positive double: the number `mantissa * 2 ^ exponent`. The gap to the next double below is
half as wide as the one above if the mantissa is the least of its binade. -/
structure Binary where
  mantissa : Nat
  exponent : Int
  narrowBelow : Bool
  deriving DecidableEq, Repr

/-- The double with the given bits, without its sign. The bits are not those of an infinity or of
no number. -/
def Binary.ofBits (bits : UInt64) : Binary :=
  let hiddenBit : Nat := Nat.pow 2 52
  let fraction : Nat := bits.toNat % hiddenBit
  let scale : Nat := bits.toNat / hiddenBit % Nat.pow 2 11
  if scale = 0 then ⟨fraction, -1074, false⟩
  else ⟨hiddenBit + fraction, (scale : Int) - 1075, fraction == 0 && scale > 1⟩

/-- Decimal digits without leading zeros and the power of ten of the first of them. -/
structure Digits where
  digits : List Nat
  leading : Int
  deriving DecidableEq, Repr

/-- Compare `decimal * 10 ^ power` with `binary * 2 ^ exponent`. -/
def compareScaled (decimal : Nat) (power : Int) (binary : Nat) (exponent : Int) : Ordering :=
  compare (decimal * Nat.pow 10 power.toNat * Nat.pow 2 (-exponent).toNat)
    (binary * Nat.pow 2 exponent.toNat * Nat.pow 10 (-power).toNat)

/-- The decimal `decimal * 10 ^ power` rounds to a double. The ends of the rounding interval
belong to it if the mantissa is even. -/
def Binary.roundsFrom (x : Binary) (decimal : Nat) (power : Int) : Bool :=
  let low := compareScaled decimal power
    (if x.narrowBelow then 4 * x.mantissa - 1 else 4 * x.mantissa - 2) (x.exponent - 2)
  let high := compareScaled decimal power (4 * x.mantissa + 2) (x.exponent - 2)
  if x.mantissa % 2 = 0 then low.isGE && high.isLE else low.isGT && high.isLT

/-- The greatest multiple of `10 ^ power` that is not above a double, divided by that power. -/
def Binary.floorAt (x : Binary) (power : Int) : Nat :=
  x.mantissa * Nat.pow 2 x.exponent.toNat * Nat.pow 10 (-power).toNat /
    (Nat.pow 10 power.toNat * Nat.pow 2 (-x.exponent).toNat)

/-- Of the two multiples of `10 ^ power` next to a double, the nearer one that rounds to it. -/
def Binary.nearestAt (x : Binary) (power : Int) : Option Nat :=
  let below := x.floorAt power
  match x.roundsFrom below power, x.roundsFrom (below + 1) power with
  | false, false => none
  | true, false => some below
  | false, true => some (below + 1)
  | true, true =>
    match compareScaled (2 * below + 1) power (2 * x.mantissa) x.exponent with
    | .gt => some below
    | .lt => some (below + 1)
    | .eq => some (if below % 2 = 0 then below else below + 1)

/-- The power of ten above a double, searched in the range of doubles. -/
def Binary.scale (x : Binary) : Int :=
  let powers := (List.range 640).map fun (n : Nat) => (n : Int) - 324
  (powers.find? fun power => (compareScaled 1 power x.mantissa x.exponent).isGT).getD 0

/-- The digits of a number in base ten, without trailing zeros. -/
def significantDigits (n : Nat) : List Nat :=
  let digits := (Nat.toDigits 10 n).map fun c => c.toNat - '0'.toNat
  (digits.reverse.dropWhile (· == 0)).reverse

/-- The shortest decimal that rounds to a double. Seventeen digits are always enough; the exact
value stands in where the search were to find nothing. -/
def Binary.shortest (x : Binary) : Digits :=
  let powers := (List.range 17).map fun (n : Nat) => x.scale - 1 - (n : Int)
  let found := powers.findSome? fun power => (x.nearestAt power).map (·, power)
  let exact := x.mantissa * Nat.pow 5 (-x.exponent).toNat * Nat.pow 2 x.exponent.toNat
  let (decimal, power) := found.getD (exact, if x.exponent < 0 then x.exponent else 0)
  ⟨significantDigits decimal, power + (Nat.toDigits 10 decimal).length - 1⟩

end LineLexer.Decimal
