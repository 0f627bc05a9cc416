import LineLexer.Error
import LineLexer.Text.Line

/-!
# Lexical rules

A rule set says which words are reserved, what opens a comment and which characters are blank.
`Rules.violation?` finds the first reason why a rule set cannot be used.
-/

namespace LineLexer

/-- What a lexer knows of a language. -/
structure Rules where
  name : String
  reservedWords : List String
  lineComment : String
  whitespace : List Char
  deriving DecidableEq, Repr, Inhabited

namespace Rules

/-- The blank characters of a rule set that does not name its own: space, tab and form feed. -/
def standardWhitespace : List Char :=
  [' ', '\t', '\x0c']

/-- The rule set of the given parts with the standard blank characters. -/
def withWords (name : String) (reservedWords : List String) (lineComment : String) : Rules :=
  ⟨name, reservedWords, lineComment, standardWhitespace⟩

/-- The rule set that is used if no other one is given. -/
def standard : Rules :=
  withWords "haskell"
    ["case", "class", "data", "default", "deriving", "do", "else", "if", "import", "in", "infix",
      "infixl", "infixr", "instance", "let", "module", "newtype", "of", "then", "type", "where"]
    "--"

/-- A word is an ASCII letter followed by ASCII letters and digits. -/
def isWord (text : String) : Bool :=
  match text.toList with
  | [] => false
  | c :: rest => c.isAlpha && rest.all Char.isAlphanum

/-- The first reserved word that no scan could meet. -/
def badWord? (rules : Rules) : Option String :=
  rules.reservedWords.find? fun word => !isWord word

/-- The marker is empty or spans a line break, so that no line could hold it. -/
def markerUnusable (rules : Rules) : Bool :=
  rules.lineComment.isEmpty || rules.lineComment.toList.any Text.isLineBreak

/-- The first blank character that would hide a word, a number or a line break. -/
def badWhitespace? (rules : Rules) : Option Char :=
  rules.whitespace.find? fun c => c.isAlphanum || Text.isLineBreak c

/-- The marker starts with a blank character. Blanks are skipped before the marker is looked for,
so that it could not be met. -/
def markerHidden (rules : Rules) : Bool :=
  rules.lineComment.toList.head?.any rules.whitespace.contains

/-- The first reason why a rule set cannot be used. -/
def violation? (rules : Rules) : Option Error :=
  match rules.badWord? with
  | some word => some (.invalidReservedWord word)
  | none =>
    if rules.markerUnusable then some (.invalidCommentMarker rules.lineComment)
    else
      match rules.badWhitespace? with
      | some c => some (.invalidWhitespace c)
      | none =>
        if rules.markerHidden then some (.invalidCommentMarker rules.lineComment) else none

/-- The number of different reserved words. -/
def wordCount (rules : Rules) : Nat :=
  rules.reservedWords.eraseDups.length

end Rules

end LineLexer
