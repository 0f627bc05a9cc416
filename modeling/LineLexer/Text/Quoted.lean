import LineLexer.Text.Escape
import LineLexer.Text.Unprintable

/-!
# Quoted text in diagnostics

A diagnostic puts a text into double quotes. Inside them the double quote, the backslash, tab,
line feed, carriage return and the null character are written with a backslash, characters
without a picture of their own by their number, and all others as themselves.
-/

namespace LineLexer.Text

/-- A character inside quotes. -/
def quote (c : Char) : List Char :=
  if c = '"' then ['\\', '"']
  else if c = '\\' then ['\\', '\\']
  else if c = '\t' then ['\\', 't']
  else if c = '\r' then ['\\', 'r']
  else if c = '\n' then ['\\', 'n']
  else if c = '\x00' then ['\\', '0']
  else if isUnprintable c then numbered c
  else [c]

/-- A text in quotes. -/
def quoted (text : List Char) : String :=
  String.ofList (['"'] ++ text.flatMap quote ++ ['"'])

end LineLexer.Text
