/-!
# Lines of a text

A text is a list of characters. Its line breaks are the line feed, the carriage return, and the
pair of a carriage return and a line feed, which is one break. `lines` cuts a text at its breaks,
so a text with `n` breaks has `n + 1` lines and the empty text has one empty line.
-/

namespace LineLexer.Text

/-- The characters that end a line. -/
def isLineBreak (c : Char) : Bool :=
  c == '\n' || c == '\r'

/-- Put a character in front of the first line. -/
def consFirst (c : Char) : List (List Char) → List (List Char)
  | [] => [[c]]
  | line :: more => (c :: line) :: more

/-- The lines of a text, without their breaks. -/
def lines : List Char → List (List Char)
  | [] => [[]]
  | '\r' :: '\n' :: rest => [] :: lines rest
  | c :: rest => if isLineBreak c then [] :: lines rest else consFirst c (lines rest)

/-- Every text has a first line. -/
theorem lines_ne_nil (text : List Char) : lines text ≠ [] := by
  fun_cases lines text with
  | case1 => simp
  | case2 => simp
  | case3 => simp
  | case4 c rest =>
    cases lines rest <;> simp [consFirst]

end LineLexer.Text
