import LineLexer.Json.Numeral

/-!
# Values that are passed over

A value that nobody asks for is checked for its shape only. The brackets that are open are kept in
a list, the innermost first, so that values may be nested to any depth.
-/

namespace LineLexer.Json

/-- The two kinds of brackets. -/
inductive Bracket where
  | list
  | object
  deriving DecidableEq, Repr

/-- The byte that closes a bracket. -/
def Bracket.closing : Bracket → UInt8
  | list => ascii ']'
  | object => ascii '\x7d'

/-- A place inside brackets; `isFresh` says that nothing has followed the innermost opening one. -/
structure Nesting where
  innermost : Bracket
  outer : List Bracket
  isFresh : Bool
  deriving DecidableEq, Repr

/-- The place behind a value inside the given brackets, if there are any. -/
def Nesting.behindValue : List Bracket → Nesting ⊕ Unit
  | [] => .inr ()
  | innermost :: outer => .inl ⟨innermost, outer, false⟩

namespace Decoder

/-- Passes over a value without brackets, or over the opening bracket of another one. -/
def ignoreStart (brackets : List Bracket) : Decoder (Nesting ⊕ Unit) := do
  let b ← significant
  if b = ascii '[' then do
    skip
    pure (.inl ⟨.list, brackets, true⟩)
  else if b = ascii '\x7b' then do
    skip
    pure (.inl ⟨.object, brackets, true⟩)
  else if b = ascii '"' then do
    skip
    skipLiteral
    pure (Nesting.behindValue brackets)
  else if startsNumeral b then do
    let _ ← numeral .shape
    pure (Nesting.behindValue brackets)
  else if b = ascii 'n' then do
    word ['n', 'u', 'l', 'l']
    pure (Nesting.behindValue brackets)
  else if b = ascii 't' then do
    word ['t', 'r', 'u', 'e']
    pure (Nesting.behindValue brackets)
  else if b = ascii 'f' then do
    word ['f', 'a', 'l', 's', 'e']
    pure (Nesting.behindValue brackets)
  else fail .malformed

/-- Passes over a key and the colon after it. -/
def ignoreKey : Decoder Unit := do
  punctuation '"'
  skipLiteral
  punctuation ':'

/-- Passes over the next item of the innermost brackets or over their end. -/
def ignoreNext (n : Nesting) : Decoder (Nesting ⊕ Unit) := do
  let b ← significant
  if b = n.innermost.closing then do
    skip
    pure (Nesting.behindValue n.outer)
  else do
    if n.isFresh = false then punctuation ','
    if n.innermost = .object then ignoreKey
    ignoreStart (n.innermost :: n.outer)

/-- Passes over a value. -/
def ignored : Decoder Unit := do
  match ← ignoreStart [] with
  | .inr _ => pure ()
  | .inl nesting => loop ignoreNext nesting

end Decoder

end LineLexer.Json
