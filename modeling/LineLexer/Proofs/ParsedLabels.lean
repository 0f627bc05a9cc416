import LineLexer.Proofs.LabelDocuments

/-!
# Parsed labels and labels in documents

There are two ways to look a label up. Parsing compares it with the labels, one by one, and what a
document says is looked up in a table under the names with a small first letter. For every text the
two find the same value or none at all, `parsedAsRead_choose`, and then both complain about that
text. The main statement is `parse_and_read_labels`.
-/

namespace LineLexer

open Json Decoder

/-! ## Two ways to look a label up -/

section Tables

variable {α : Type} {label : α → String} {values : List α} {unknown : String → Error}
  {text : String}

/-- What parsing a text and reading it in a document come to. Parsing gives the values that have the
text as their label, and reading gives what parsing gives. Where there is no value both name the
text, and the fault of the document lists the labels that there are. -/
structure ParsedAsRead (label : α → String) (values : List α) (unknown : String → Error)
    (text : String) (parsed : Except Error α) (read : Except Fault α) : Prop where
  parsed_iff : ∀ value, parsed = .ok value ↔ label value = text
  read_iff : ∀ value, read = .ok value ↔ parsed = .ok value
  refused : (∀ value, parsed ≠ .ok value) → parsed = .error (unknown text) ∧
    read = .error (.mismatch (.unknownVariant text (values.map label)))

/-- A label is the label of one value. -/
theorem ParsedAsRead.of_label (injective : Function.Injective label) (value : α) :
    ParsedAsRead label values unknown (label value) (.ok value) (.ok value) where
  parsed_iff other := by
    constructor
    · rintro ⟨⟩
      rfl
    · intro same
      rw [injective same]
  read_iff other := by
    rw [Except.ok.injEq, Except.ok.injEq]
  refused none := absurd rfl (none value)

/-- Another text is refused. -/
theorem ParsedAsRead.of_ne (other : ∀ value, label value ≠ text) :
    ParsedAsRead label values unknown text (.error (unknown text))
      (.error (.mismatch (.unknownVariant text (values.map label)))) where
  parsed_iff value := ⟨nofun, fun same => absurd same (other value)⟩
  read_iff _ := ⟨nofun, nofun⟩
  refused _ := ⟨rfl, rfl⟩

/-- The value with a given label among some values. -/
def parseLabel (label : α → String) (values : List α) (unknown : String → Error) (text : String) :
    Except Error α :=
  match values.find? (label · == text) with
  | some value => .ok value
  | none => .error (unknown text)

/-- A search among all values agrees with their table, if no two of them share a label. -/
theorem parsedAsRead_choose (distinct : (values.map label).Nodup) (all : ∀ value, value ∈ values)
    (text : String) :
    ParsedAsRead label values unknown text (parseLabel label values unknown text)
      (choose (values.map fun value => (label value, value)) text) := by
  rw [choose_map_eq, parseLabel]
  cases found : values.find? (label · == text) with
  | some value =>
    have same : label value = text := by simpa using List.find?_some found
    have injective : Function.Injective label :=
      fun left right => List.inj_on_of_nodup_map distinct (all left) (all right)
    subst same
    exact .of_label injective value
  | none =>
    have others := List.find?_eq_none.mp found
    exact .of_ne fun value same => others value (all value) (by simpa using same)

end Tables

/-! ## Categories and modifiers -/

/-- Parsing a category is a search. -/
theorem Category.parse_eq_parseLabel (text : String) :
    parse text = parseLabel toLabel all .unknownCategory text := by
  unfold parse ofLabel? parseLabel
  cases all.find? (·.toLabel == text) with
  | some value => rfl
  | none => rfl

/-- A category is parsed as a document looks it up. -/
theorem Category.parsedAsRead (text : String) :
    ParsedAsRead toLabel all .unknownCategory text (parse text) (choose table text) := by
  rw [table_eq, parse_eq_parseLabel]
  exact parsedAsRead_choose nodup_labels mem_all text

/-- Parsing a modifier is a search. -/
theorem Modifier.parse_eq_parseLabel (text : String) :
    parse text = parseLabel toLabel all .unknownModifier text := by
  unfold parse ofLabel? parseLabel
  cases all.find? (·.toLabel == text) with
  | some value => rfl
  | none => rfl

/-- A modifier is parsed as a document looks it up. -/
theorem Modifier.parsedAsRead (text : String) :
    ParsedAsRead toLabel all .unknownModifier text (parse text) (choose table text) := by
  rw [table_eq, parse_eq_parseLabel]
  exact parsedAsRead_choose nodup_labels mem_all text

/-! ## Documents -/

/-- A text is written as a literal that denotes it. -/
theorem exists_denotes_quoted (text : String) :
    ∃ body, (quoted text).toList = literal body ∧ Denotes body text.toList :=
  ⟨body text, toList_quoted text, denotes_body text⟩

/-- In a document a text gives a category or a modifier exactly if it can be parsed as one, and it
gives the same one. The text may be any literal that denotes it, or the key of an object whose only
member is a null. What cannot be parsed is an unknown label in both. Categories and modifiers are
written as literals that denote their labels. -/
theorem parse_and_read_labels :
    (∀ text document, IsDocument (SpellsLabel text) document →
      ParsedAsRead Category.toLabel Category.all .unknownCategory text (Category.parse text)
          (Category.decoder.read document) ∧
        ParsedAsRead Modifier.toLabel Modifier.all .unknownModifier text (Modifier.parse text)
          (Modifier.decoder.read document)) ∧
      (∀ c : Category, ∃ body, c.toValue.compact.toList = literal body ∧
        Denotes body c.toLabel.toList) ∧
      ∀ m : Modifier, ∃ body, m.toValue.compact.toList = literal body ∧
        Denotes body m.toLabel.toList := by
  refine ⟨?_, fun c => ?_, fun m => ?_⟩
  · rintro text _ ⟨before, shape, after, hbefore, spelled, hafter, rfl⟩
    have category : Category.decoder.read (String.ofList (before ++ (shape ++ after))) =
        choose Category.table text := (spelled.reads Category.table).read hbefore hafter
    have modifier : Modifier.decoder.read (String.ofList (before ++ (shape ++ after))) =
        choose Modifier.table text := (spelled.reads Modifier.table).read hbefore hafter
    rw [category, modifier]
    exact ⟨Category.parsedAsRead text, Modifier.parsedAsRead text⟩
  · rw [← c.key_eq_toLabel]
    exact exists_denotes_quoted c.key
  · rw [← m.key_eq_toLabel]
    exact exists_denotes_quoted m.key

/-- A label is read where one of its letters is written by number. It is that of a category and not
of a modifier. -/
theorem parse_and_read_labels_escaped :
    Category.parse "typeParameter" = .ok .typeParameter ∧
      Category.decoder.read "\"t\\u0079peParameter\"" = .ok .typeParameter ∧
      Category.decoder.read "\x7b\"t\\u0079peParameter\": null\x7d" = .ok .typeParameter ∧
      Modifier.parse "typeParameter" = .error (.unknownModifier "typeParameter") ∧
      Modifier.decoder.read "\"t\\u0079peParameter\"" = .error
        (.mismatch (.unknownVariant "typeParameter" (Modifier.all.map Modifier.toLabel))) := by
  have unit : SpellsUnit ['0', '0', '7', '9'] 'y'.toNat :=
    .digits (i := 0) (j := 0) (k := 7) (l := 9) ⟨by decide, .inl rfl⟩ ⟨by decide, .inl rfl⟩
      ⟨by decide, .inl rfl⟩ ⟨by decide, .inl rfl⟩
  have first : SpellsChar ['t'] 't' := .plain ⟨by decide, by decide, by decide⟩
  have rest : Denotes (body "peParameter") "peParameter".toList := denotes_body _
  let spelling := ['t'] ++ ('\\' :: 'u' :: ['0', '0', '7', '9'] ++ body "peParameter")
  have denotes : Denotes spelling "typeParameter".toList := by
    rw [show "typeParameter".toList = 't' :: 'y' :: "peParameter".toList by decide]
    exact .cons first (.cons (.unit unit) rest)
  have member : IsMember (literal spelling ++ ([] ++ ':' :: ([' '] ++ nullWord)))
      (spelling, nullWord) := .parts .nil (by simp [Blank, blankChars])
  have object : SpellsLabel "typeParameter" ('\x7b' :: ([] ++ (_ ++ []) ++ ['\x7d'])) :=
    .object ⟨[_], .some (.one .nil .nil), .cons member .nil⟩ denotes
  obtain ⟨documents, _, _⟩ := parse_and_read_labels
  obtain ⟨category, modifier⟩ := documents "typeParameter" "\"t\\u0079peParameter\""
    ⟨[], _, [], .nil, .literal denotes, .nil, by decide +kernel⟩
  obtain ⟨inObject, _⟩ := documents "typeParameter" "\x7b\"t\\u0079peParameter\": null\x7d"
    ⟨[], _, [], .nil, object, .nil, by decide +kernel⟩
  have parsed := (category.parsed_iff .typeParameter).mpr rfl
  have others : ∀ m, Modifier.parse "typeParameter" ≠ .ok m := by
    intro m found
    have label := (modifier.parsed_iff m).mp found
    cases m <;> exact absurd label (by decide)
  obtain ⟨refused, unknown⟩ := modifier.refused others
  exact ⟨parsed, (category.read_iff _).mpr parsed, (inObject.read_iff _).mpr parsed, refused,
    unknown⟩

end LineLexer
