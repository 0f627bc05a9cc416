/-!
# Token categories

A category is the kind that a highlighter gives to a token. It has a `name`, the `label` that
people write, and a `key`, the spelling in documents, which is the name with a small first letter.
-/

namespace LineLexer

/-- What a token is, in the order of the legend; `identifier` has no legend entry of its own. -/
inductive Category where
  | comment
  | string
  | keyword
  | number
  | regexp
  | operator
  | namespaceName
  | typeName
  | structureName
  | className
  | interfaceName
  | enumeration
  | typeParameter
  | function
  | method
  | decorator
  | macroName
  | variableName
  | parameter
  | property
  | label
  | identifier
  deriving DecidableEq, Repr, Inhabited

namespace Category

/-- Every category, in the order of the legend. -/
def all : List Category :=
  [comment, string, keyword, number, regexp, operator, namespaceName, typeName, structureName,
    className, interfaceName, enumeration, typeParameter, function, method, decorator, macroName,
    variableName, parameter, property, label, identifier]

/-- The name of a category as a diagnostic shows it. -/
def name : Category → String
  | comment => "Comment"
  | string => "String"
  | keyword => "Keyword"
  | number => "Number"
  | regexp => "Regexp"
  | operator => "Operator"
  | namespaceName => "Namespace"
  | typeName => "Type"
  | structureName => "Struct"
  | className => "Class"
  | interfaceName => "Interface"
  | enumeration => "Enum"
  | typeParameter => "TypeParameter"
  | function => "Function"
  | method => "Method"
  | decorator => "Decorator"
  | macroName => "Macro"
  | variableName => "Variable"
  | parameter => "Parameter"
  | property => "Property"
  | label => "Label"
  | identifier => "Identifier"

/-- The label of a category. -/
def toLabel : Category → String
  | comment => "comment"
  | string => "string"
  | keyword => "keyword"
  | number => "number"
  | regexp => "regexp"
  | operator => "operator"
  | namespaceName => "namespace"
  | typeName => "type"
  | structureName => "struct"
  | className => "class"
  | interfaceName => "interface"
  | enumeration => "enum"
  | typeParameter => "typeParameter"
  | function => "function"
  | method => "method"
  | decorator => "decorator"
  | macroName => "macro"
  | variableName => "variable"
  | parameter => "parameter"
  | property => "property"
  | label => "label"
  | identifier => "identifier"

/-- The spelling of a category in documents: its name with a small first letter. -/
def key (c : Category) : String :=
  c.name.decapitalize

/-- The category with a given label. -/
def ofLabel? (text : String) : Option Category :=
  all.find? (·.toLabel == text)

/-- The place of a category among all categories. -/
def index (c : Category) : Nat :=
  all.idxOf c

/-- The label to look up in the legend; an identifier shares the entry of parameters. -/
def legendLabel : Category → String
  | identifier => parameter.toLabel
  | c => c.toLabel

/-- `all` misses no category. -/
theorem mem_all (c : Category) : c ∈ all := by
  cases c <;> decide

end Category

end LineLexer
