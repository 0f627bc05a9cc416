import LineLexer.Category
import LineLexer.Modifier
import LineLexer.Text.Escape

/-!
# Errors

An error names its cause and carries the text at fault; `Error.message` words it. Comment markers
and whitespace characters are shown in printable ASCII, other texts as they are.
-/

namespace LineLexer

/-- Why a value is refused. -/
inductive Error where
  | invalidReservedWord (word : String)
  | invalidCommentMarker (marker : String)
  | invalidWhitespace (char : Char)
  | emptyToken (line column : Nat)
  | unknownCategory (label : String)
  | unknownModifier (label : String)
  | unreadable (reason : String)
  deriving DecidableEq, Repr

/-- The wording of an error. -/
def Error.message : Error → String
  | .invalidReservedWord word =>
    "Invalid reserved word '" ++ word ++
      "': expected an ASCII letter followed by ASCII letters or digits"
  | .invalidCommentMarker marker => "Invalid line comment marker '" ++ Text.escaped marker ++ "'"
  | .invalidWhitespace c =>
    "Invalid whitespace character '" ++ String.ofList (Text.escape c) ++ "'"
  | .emptyToken line column => s!"Empty token at line {line}, column {column}"
  | .unknownCategory label => "Unknown token category '" ++ label ++ "'"
  | .unknownModifier label => "Unknown token modifier '" ++ label ++ "'"
  | .unreadable reason => reason

/-- The category with a given label, or the reason why there is none. -/
def Category.parse (text : String) : Except Error Category :=
  match ofLabel? text with
  | some c => .ok c
  | none => .error (.unknownCategory text)

/-- The modifier with a given label, or the reason why there is none. -/
def Modifier.parse (text : String) : Except Error Modifier :=
  match ofLabel? text with
  | some m => .ok m
  | none => .error (.unknownModifier text)

end LineLexer
