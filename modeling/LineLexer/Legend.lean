import LineLexer.Category
import LineLexer.Modifier

/-!
# The legend

A host highlighter numbers the labels that it knows. The legend lists them in the host's order; the
host has no entry for identifiers, which share the entry of parameters.
-/

namespace LineLexer.Legend

/-- The labels of categories that a host knows, in its order. -/
def categories : List String :=
  ["comment", "string", "keyword", "number", "regexp", "operator", "namespace", "type", "struct",
    "class", "interface", "enum", "typeParameter", "function", "method", "decorator", "macro",
    "variable", "parameter", "property", "label"]

/-- The labels of modifiers that a host knows, in its order. -/
def modifiers : List String :=
  ["declaration", "documentation", "readonly", "static", "abstract", "deprecated", "modification",
    "async"]

/-- The host knows a category by its legend label. -/
def hasCategory (c : Category) : Bool :=
  categories.contains c.legendLabel

/-- The host knows a modifier by its label. -/
def hasModifier (m : Modifier) : Bool :=
  modifiers.contains m.toLabel

/-- The legend lists the labels of all categories but `identifier`. -/
theorem categories_eq : categories = (Category.all.filter (· ≠ .identifier)).map Category.toLabel := by
  decide

/-- The legend lists the labels of all modifiers. -/
theorem modifiers_eq : modifiers = Modifier.all.map Modifier.toLabel := by
  decide

end LineLexer.Legend
