/-!
# Token modifiers

A modifier qualifies the category of a token: the name of a type, for instance, may be a
declaration. It has a `name`, the `label` that people write, and a `key`, the spelling in
documents, which is the name with a small first letter.
-/

namespace LineLexer

/-- A qualification of a category, in the order of the legend. -/
inductive Modifier where
  | declaration
  | documentation
  | readonly
  | static
  | abstract
  | deprecated
  | modification
  | async
  deriving DecidableEq, Repr, Inhabited

namespace Modifier

/-- Every modifier, in the order of the legend. -/
def all : List Modifier :=
  [declaration, documentation, readonly, static, abstract, deprecated, modification, async]

/-- The name of a modifier as a diagnostic shows it. -/
def name : Modifier → String
  | declaration => "Declaration"
  | documentation => "Documentation"
  | readonly => "Readonly"
  | static => "Static"
  | abstract => "Abstract"
  | deprecated => "Deprecated"
  | modification => "Modification"
  | async => "Async"

/-- The label of a modifier. -/
def toLabel : Modifier → String
  | declaration => "declaration"
  | documentation => "documentation"
  | readonly => "readonly"
  | static => "static"
  | abstract => "abstract"
  | deprecated => "deprecated"
  | modification => "modification"
  | async => "async"

/-- The spelling of a modifier in documents: its name with a small first letter. -/
def key (m : Modifier) : String :=
  m.name.decapitalize

/-- The modifier with a given label. -/
def ofLabel? (text : String) : Option Modifier :=
  all.find? (·.toLabel == text)

/-- The place of a modifier in the order of declaration. -/
def index : Modifier → Nat
  | declaration => 0
  | documentation => 1
  | readonly => 2
  | static => 3
  | abstract => 4
  | deprecated => 5
  | modification => 6
  | async => 7

/-- `all` misses no modifier. -/
theorem mem_all (m : Modifier) : m ∈ all := by
  cases m <;> decide

/-- Every modifier has a bit of an eight-bit mask. -/
theorem index_lt (m : Modifier) : m.index < 8 := by
  cases m <;> decide

/-- Different modifiers have different places. -/
theorem index_inj {left right : Modifier} (same : left.index = right.index) : left = right := by
  cases left <;> cases right <;> simp_all [index]

end Modifier

end LineLexer
