/-!
# Escapes into printable ASCII

An error message shows the text at fault in the characters from `U+0020` to `U+007E` only. Tab,
carriage return, line feed, both quotes and the backslash are written with a backslash, a
character outside that range by its number in lower-case hexadecimal, as in `\u{3bb}`, and any
other character as itself.
-/

namespace LineLexer.Text

/-- The digits of a number in lower-case hexadecimal, without leading zeros. -/
def hexDigits (n : Nat) : List Char :=
  Nat.toDigits 16 n

/-- A character written by its number, as in `\u{3bb}`. -/
def numbered (c : Char) : List Char :=
  ['\\', 'u', '\x7b'] ++ hexDigits c.toNat ++ ['\x7d']

/-- A character in printable ASCII. -/
def escape (c : Char) : List Char :=
  if c = '\t' then ['\\', 't']
  else if c = '\r' then ['\\', 'r']
  else if c = '\n' then ['\\', 'n']
  else if c = '\'' then ['\\', '\'']
  else if c = '"' then ['\\', '"']
  else if c = '\\' then ['\\', '\\']
  else if ' ' ≤ c ∧ c ≤ '~' then [c]
  else numbered c

/-- A text in printable ASCII. -/
def escaped (text : String) : String :=
  String.ofList (text.toList.flatMap escape)

end LineLexer.Text
