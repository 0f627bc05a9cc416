/-!
# Sixteen-bit code units

Hosts that store text in sixteen-bit code units spend two units on a character above `U+FFFF` and
one on any other. `codeUnits` is a run of characters as such a host stores it, and `units` measures
the run in those units, `length_codeUnits`.
-/

namespace LineLexer.Text

/-- The number of sixteen-bit code units that a character takes. -/
def unitWidth (c : Char) : Nat :=
  if c.toNat < 0x10000 then 1 else 2

/-- The number of sixteen-bit code units that a run of characters takes. -/
def units : List Char → Nat
  | [] => 0
  | c :: rest => unitWidth c + units rest

/-- The measure of joined runs is the sum of their measures. -/
theorem units_append (front back : List Char) :
    units (front ++ back) = units front + units back := by
  induction front with
  | nil => simp [units]
  | cons c front ih => simp [units, ih, Nat.add_assoc]

/-- No character is weightless. -/
theorem unitWidth_pos (c : Char) : 0 < unitWidth c := by
  unfold unitWidth
  split <;> decide

/-! ## The units themselves -/

/-- The sixteen-bit code units of a character: its number, or a pair that holds the number less
`0x10000` in the lower ten bits of each unit. -/
def charUnits (c : Char) : List UInt16 :=
  if c.toNat < 0x10000 then [.ofNat c.toNat]
  else
    [.ofNat (0xD800 + (c.toNat - 0x10000) / 0x400), .ofNat (0xDC00 + (c.toNat - 0x10000) % 0x400)]

/-- The sixteen-bit code units of a run of characters. -/
def codeUnits (chars : List Char) : List UInt16 :=
  chars.flatMap charUnits

/-- The crab `U+1F980` is a pair. -/
example : codeUnits [Char.ofNat 0x1F980, 'c'] = [0xD83E, 0xDD80, 0x63] := by decide

theorem length_codeUnits (chars : List Char) : (codeUnits chars).length = units chars := by
  induction chars with
  | nil => rfl
  | cons c rest ih =>
    rw [codeUnits, List.flatMap_cons, List.length_append, ← codeUnits, ih, units, charUnits,
      unitWidth]
    split <;> rfl

theorem codeUnits_append (front back : List Char) :
    codeUnits (front ++ back) = codeUnits front ++ codeUnits back :=
  List.flatMap_append

end LineLexer.Text
