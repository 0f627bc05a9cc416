import LineLexer.Text.Escape

/-!
# Written documents

A value is written either without any blanks or with one item a line, indented by two spaces a
level. In strings the quote, the backslash and the control characters below `U+0020` are escaped,
five of them by a letter and the others by their number in four digits.
-/

namespace LineLexer.Json

/-- A value to be written. -/
inductive Value where
  | number (value : Nat)
  | string (text : String)
  | list (items : List Value)
  | object (members : List (String × Value))

/-- A character inside a string. -/
def escape (c : Char) : List Char :=
  if c = '"' then ['\\', '"']
  else if c = '\\' then ['\\', '\\']
  else if c = '\x08' then ['\\', 'b']
  else if c = '\x0c' then ['\\', 'f']
  else if c = '\n' then ['\\', 'n']
  else if c = '\r' then ['\\', 'r']
  else if c = '\t' then ['\\', 't']
  else if c < ' ' then
    ['\\', 'u', '0', '0', Nat.digitChar (c.toNat / 16), Nat.digitChar (c.toNat % 16)]
  else [c]

/-- A text as a string of a document. -/
def quoted (text : String) : String :=
  String.ofList (['"'] ++ text.toList.flatMap escape ++ ['"'])

/-- Parts between two brackets, separated by commas. -/
def enclose (opening closing : String) (parts : List String) : String :=
  opening ++ ",".intercalate parts ++ closing

mutual

/-- A value without blanks. -/
def Value.compact : Value → String
  | .number value => toString value
  | .string text => quoted text
  | .list items => enclose "[" "]" (compactItems items)
  | .object members => enclose "\x7b" "\x7d" (compactMembers members)

/-- The items of a list without blanks. -/
def compactItems : List Value → List String
  | [] => []
  | item :: rest => item.compact :: compactItems rest

/-- The members of an object without blanks. -/
def compactMembers : List (String × Value) → List String
  | [] => []
  | (key, value) :: rest => (quoted key ++ ":" ++ value.compact) :: compactMembers rest

end

/-- A line break and the indentation of a level. -/
def newline (level : Nat) : String :=
  "\n" ++ String.ofList (List.replicate (2 * level) ' ')

/-- Parts between two brackets, each on a line of its own one level further in. -/
def encloseLines (level : Nat) (opening closing : String) (parts : List String) : String :=
  if parts.isEmpty then opening ++ closing
  else enclose opening (newline level ++ closing) (parts.map (newline (level + 1) ++ ·))

mutual

/-- A value with one item a line, from a level of indentation on. -/
def Value.indented (level : Nat) : Value → String
  | .number value => toString value
  | .string text => quoted text
  | .list items => encloseLines level "[" "]" (indentedItems (level + 1) items)
  | .object members => encloseLines level "\x7b" "\x7d" (indentedMembers (level + 1) members)

/-- The items of a list with one item a line. -/
def indentedItems (level : Nat) : List Value → List String
  | [] => []
  | item :: rest => item.indented level :: indentedItems level rest

/-- The members of an object with one item a line. -/
def indentedMembers (level : Nat) : List (String × Value) → List String
  | [] => []
  | (key, value) :: rest =>
    (quoted key ++ ": " ++ value.indented level) :: indentedMembers level rest

end

/-- A value with one item a line. -/
def Value.pretty (value : Value) : String :=
  value.indented 0

end LineLexer.Json
