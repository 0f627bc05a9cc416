import LineLexer.Rules
import LineLexer.Token

/-!
# Scanning a line

A scanner holds the part of a line that it has not read and the column where that part starts.
`Scanner.next` reads on to the next token. At each character the rules are tried in this order: a
blank character is skipped; the comment marker makes a comment of the rest of the line; a letter
starts a word, a digit a number, both as long as possible; any other character is skipped.
-/

namespace LineLexer

/-- The category and the modifier of a word. -/
def Rules.classify (rules : Rules) (word : List Char) : Category × Modifier :=
  if rules.reservedWords.contains (String.ofList word) then (.keyword, .modification)
  else if word.head?.any Char.isUpper then (.typeName, .declaration)
  else (.identifier, .declaration)

/-- The comment marker opens a run of characters. -/
def Rules.opensComment (rules : Rules) (chars : List Char) : Bool :=
  rules.lineComment.toList.isPrefixOf chars

/-- A scan in progress: the index of the line, the column reached and the characters from there
on. -/
structure Scanner where
  lineIndex : Nat
  column : Nat
  rest : List Char
  deriving DecidableEq, Repr, Inhabited

namespace Scanner

/-- A scan at the start of a line. -/
def start (lineIndex : Nat) (line : List Char) : Scanner :=
  ⟨lineIndex, 0, line⟩

/-- The token of a run of characters at the column reached, and the scan after it. -/
def emit (lineIndex column : Nat) (covered rest : List Char) (category : Category)
    (modifier : Modifier) : Option Token × Scanner :=
  (some ⟨lineIndex, column, covered.length, category, .singleton modifier⟩,
    ⟨lineIndex, column + covered.length, rest⟩)

/-- Read from a column on to the next token. -/
def scan (rules : Rules) (lineIndex column : Nat) : List Char → Option Token × Scanner
  | [] => (none, ⟨lineIndex, column, []⟩)
  | c :: rest =>
    if rules.whitespace.contains c then scan rules lineIndex (column + 1) rest
    else if rules.opensComment (c :: rest) then
      emit lineIndex column (c :: rest) [] .comment .documentation
    else if c.isAlpha then
      let word := c :: rest.takeWhile Char.isAlphanum
      let (category, modifier) := rules.classify word
      emit lineIndex column word (rest.dropWhile Char.isAlphanum) category modifier
    else if c.isDigit then
      emit lineIndex column (c :: rest.takeWhile Char.isDigit) (rest.dropWhile Char.isDigit)
        .number .static
    else scan rules lineIndex (column + 1) rest

/-- The next token of a scan, if there is one, and the scan after it. -/
def next (rules : Rules) (s : Scanner) : Option Token × Scanner :=
  scan rules s.lineIndex s.column s.rest

/-- A scan shown with the names of its parts. -/
def inspect (s : Scanner) : String :=
  "LineScanner \x7b line_index: " ++ toString s.lineIndex ++ ", column: " ++ toString s.column ++
    " \x7d"

/-! ## Progress -/

/-- A scan that finds a token leaves less to read. -/
theorem scan_rest_lt {rules : Rules} {lineIndex column : Nat} {chars : List Char} {t : Token}
    {s : Scanner} (found : scan rules lineIndex column chars = (some t, s)) :
    s.rest.length < chars.length := by
  induction chars generalizing column with
  | nil => simp [scan] at found
  | cons c rest ih =>
    unfold scan at found
    split at found
    · exact Nat.lt_succ_of_lt (ih found)
    · split at found
      · simp only [emit, Prod.mk.injEq] at found
        simp [← found.2]
      · split at found
        · simp only [emit, Prod.mk.injEq] at found
          rw [← found.2]
          exact Nat.lt_succ_of_le (List.dropWhile_suffix _).length_le
        · split at found
          · simp only [emit, Prod.mk.injEq] at found
            rw [← found.2]
            exact Nat.lt_succ_of_le (List.dropWhile_suffix _).length_le
          · exact Nat.lt_succ_of_lt (ih found)

end Scanner

end LineLexer
