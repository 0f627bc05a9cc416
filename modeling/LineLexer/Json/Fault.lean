import LineLexer.Decimal.Notation
import LineLexer.Error
import LineLexer.Text.Quoted

/-!
# Faults of documents

A document is read from left to right and the first problem is its fault: it breaks off, it is
malformed, its source fails, or a value does not match what is expected there.
-/

namespace LineLexer.Json

/-- Numbers that are no integers are written with a plain point as long as their first digit
stands for a power of ten from `-5` to `15`. -/
def numberNotation : Decimal.Notation :=
  ⟨-5, 15⟩

example : numberNotation.render 100 = "100.0" := by decide +kernel

example : numberNotation.render 1e16 = "1e+16" := by decide +kernel

/-- A value met where another kind is expected. -/
inductive Found where
  | null
  | boolean (value : Bool)
  | integer (value : Int)
  | float (value : Float)
  | string (value : String)
  | sequence
  | map

/-- How a value that is met is named. -/
def Found.describe : Found → String
  | null => "null"
  | boolean value => s!"boolean `{value}`"
  | integer value => s!"integer `{value}`"
  | float value => "floating point `" ++ numberNotation.render value ++ "`"
  | string value => "string " ++ Text.quoted value.toList
  | sequence => "sequence"
  | map => "map"

/-- Why a well-formed value does not fit. -/
inductive Mismatch where
  | wrongType (found : Found) (expected : String)
  | wrongValue (found : Found) (expected : String)
  | missingField (name : String)
  | duplicateField (name : String)
  | unknownVariant (label : String) (known : List String)
  | tooShort (length : Nat) (expected : String)
  | refused (error : Error)

/-- The wording of a mismatch. -/
def Mismatch.message : Mismatch → String
  | wrongType found expected =>
    "invalid type: " ++ found.describe ++ ", expected " ++ expected
  | wrongValue found expected =>
    "invalid value: " ++ found.describe ++ ", expected " ++ expected
  | missingField name => "missing field `" ++ name ++ "`"
  | duplicateField name => "duplicate field `" ++ name ++ "`"
  | unknownVariant label known =>
    "unknown variant `" ++ label ++ "`, expected one of " ++
      ", ".intercalate (known.map fun key => "`" ++ key ++ "`")
  | tooShort length expected => s!"invalid length {length}, expected " ++ expected
  | refused error => error.message

/-- The first problem of a document: it is not well formed, it breaks off, its source has failed,
or a value does not match. -/
inductive Fault where
  | malformed
  | incomplete
  | interrupted (reason : String)
  | mismatch (cause : Mismatch)

/-- How the bytes of a document end: for good, or because their source has failed. -/
inductive Ending where
  | finished
  | failed (reason : String)
  deriving DecidableEq, Repr

/-- The fault of wanting a byte where there are no more. -/
def Ending.fault : Ending → Fault
  | .finished => .incomplete
  | .failed reason => .interrupted reason

end LineLexer.Json
