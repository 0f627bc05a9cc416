import LineLexer.Decimal.Shortest

/-!
# Writing decimals

A notation says for which powers of ten of its first digit a decimal is written with a plain
point. Outside that range it is written with an exponent, which has a sign and no leading zeros.
-/

namespace LineLexer.Decimal

/-- The least and the greatest power of ten of the first digit that is written with a plain
point. -/
structure Notation where
  least : Int
  greatest : Int
  deriving DecidableEq, Repr

/-- The digits as characters. -/
def digitText (digits : List Nat) : String :=
  String.ofList (digits.map Nat.digitChar)

/-- The digits after the point, at least one. -/
def fractionText (digits : List Nat) : String :=
  if digits.isEmpty then "0" else digitText digits

/-- A decimal with a plain point and at least one digit on both sides of it. -/
def plain (d : Digits) : String :=
  if d.leading < 0 then
    "0." ++ digitText (List.replicate ((-d.leading).toNat - 1) 0 ++ d.digits)
  else
    let whole := d.leading.toNat + 1
    digitText (d.digits.take whole ++ List.replicate (whole - d.digits.length) 0) ++ "." ++
      fractionText (d.digits.drop whole)

/-- A decimal with one digit before the point and an exponent. -/
def scientific (d : Digits) : String :=
  let mantissa :=
    match d.digits with
    | [] => "0"
    | [digit] => digitText [digit]
    | first :: more => digitText [first] ++ "." ++ digitText more
  mantissa ++ (if d.leading < 0 then "e-" else "e+") ++ toString d.leading.natAbs

/-- A finite double in a notation: its shortest decimal, with a minus sign if it has one. -/
def Notation.render (n : Notation) (x : Float) : String :=
  let magnitude := Binary.ofBits x.toBits
  let sign := if x.toBits.toNat < Nat.pow 2 63 then "" else "-"
  if magnitude.mantissa = 0 then sign ++ "0.0"
  else
    let d := magnitude.shortest
    sign ++ if n.least ≤ d.leading ∧ d.leading ≤ n.greatest then plain d else scientific d

end LineLexer.Decimal
