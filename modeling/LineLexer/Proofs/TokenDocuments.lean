import LineLexer.Proofs.Json.Assurances
import LineLexer.Proofs.LabelDocuments

/-!
# Tokens in documents

A token is read from an object in which its five parts stand in any order, with other members among
them, as it is from the list of the five values. Whatever the values are, each of them has a
definite result, so only the choice of the first fault depends on the order. No document gives a
token without characters. The main statement is `read_documents`.
-/

namespace LineLexer.Token

open Json Decoder

variable {values : String → List Char} {fault? : String → Option Fault} {given order : List String}
  {text : List Char} {document : String} {t : Token}

/-- The names of the parts of a token, in the order of declaration. -/
def fieldNames : List String :=
  ["line", "startColumn", "length", "category", "modifiers"]

/-! ## Values of the parts -/

/-- The values of the parts are read as those of a token, but for the ones that do not fit, which
have the given faults. -/
structure ReadsParts (values : String → List Char) (fault? : String → Option Fault) (t : Token) :
    Prop where
  line : natural.Reads (values "line") (reach (fault? "line") t.line)
  startColumn : natural.Reads (values "startColumn") (reach (fault? "startColumn") t.startColumn)
  length : natural.Reads (values "length") (reach (fault? "length") t.length)
  category : Category.decoder.Reads (values "category") (reach (fault? "category") t.category)
  modifiers :
    ModifierSet.decoder.Reads (values "modifiers") (reach (fault? "modifiers") t.modifiers)

/-- What has been collected of a token once the parts of some names have been read. -/
def Parts.seen (t : Token) (names : List String) : Parts where
  line := if "line" ∈ names then some t.line else none
  startColumn := if "startColumn" ∈ names then some t.startColumn else none
  length := if "length" ∈ names then some t.length else none
  category := if "category" ∈ names then some t.category else none
  modifiers := if "modifiers" ∈ names then some t.modifiers else none

/-- The parts of a token are read independently of each other. -/
theorem ReadsParts.filling (h : ReadsParts values fault? t) :
    Filling form fieldNames values fault? (Parts.seen t) where
  start := rfl
  known hname := hname
  fits := by
    simp only [form, List.forall_mem_cons]
    refine ⟨.ofValue ?_ ?_ fun _ => h.line, .ofValue ?_ ?_ fun _ => h.startColumn,
      .ofValue ?_ ?_ fun _ => h.length, .ofValue ?_ ?_ fun _ => h.category,
      .ofValue ?_ ?_ fun _ => h.modifiers, by simp⟩
    all_goals
      intro seen
      simp [Parts.seen]

/-- All parts make the token, whatever their order. -/
theorem finish_seen (h : order.Perm fieldNames) : form.finish (Parts.seen t order) = .ok t := by
  have all : ∀ name ∈ fieldNames, name ∈ order := fun name hname => h.mem_iff.mpr hname
  simp only [fieldNames, List.forall_mem_cons, List.not_mem_nil] at all
  simp only [form, Parts.finish, Parts.seen, all, if_true]
  rfl

/-! ## Tokens -/

/-- The token, if it covers a character, or else the fault of an empty token. -/
def checked (t : Token) : Except Fault Token :=
  match ofParts t.line t.startColumn t.length t.category t.modifiers with
  | .ok t => .ok t
  | .error error => .error (.mismatch (.refused error))

/-- A token with characters is kept. -/
theorem checked_of_pos (h : 0 < t.length) : checked t = .ok t := by
  unfold checked
  rw [ofParts_eq_ok_iff.mpr ⟨h, rfl⟩]

/-- A token without characters is refused. -/
theorem checked_of_empty (h : t.length = 0) :
    checked t = .error (.mismatch (.refused (.emptyToken t.line t.startColumn))) := by
  unfold checked ofParts
  rw [if_pos h]

/-- A token is read as its record is, and then checked. -/
theorem reads_checked {found : Except Fault Token} (h : (record form).Reads text found) :
    decoder.Reads text (found.bind checked) := by
  refine h.bind fun t {ending rest} => ?_
  unfold checked
  cases ofParts t.line t.startColumn t.length t.category t.modifiers with
  | error error => exact .reject
  | ok t => exact .pure t

/-- A text is an object whose members are the values of the five parts, each once and in any order,
with other members anywhere among them. -/
def IsTokenObject (values : String → List Char) (text : List Char) : Prop :=
  ∃ members names, IsObject text members ∧
    List.Forall₂ (IsEntry form fieldNames values) members names ∧
    (names.filter (· ∈ fieldNames)).Perm fieldNames

/-- A text is the list of the values of the five parts. -/
def IsTokenList (values : String → List Char) (text : List Char) : Prop :=
  IsList text (fieldNames.map values)

/-- An object gives the token, or the fault of the first value in the text that does not fit. -/
theorem ReadsParts.reads_object (h : ReadsParts values fault? t)
    (hobject : IsTokenObject values text) :
    ∃ order : List String, order.Perm fieldNames ∧
      decoder.Reads text ((reach (order.findSome? fault?) t).bind checked) := by
  obtain ⟨members, names, hobject, entries, all⟩ := hobject
  have distinct : fieldNames.Nodup := by decide
  have read := h.filling.reads_object hobject entries (all.nodup_iff.mpr distinct)
  refine ⟨_, all, reads_checked ?_⟩
  cases fits : (names.filter (· ∈ fieldNames)).findSome? fault? with
  | some fault =>
    rw [fill, fits] at read
    exact read
  | none =>
    rw [fill, fits] at read
    change (record form).Reads text (complete form (Parts.seen t _)) at read
    rwa [complete, List.nil_append, finish_seen all] at read

/-- A list gives the token, or the fault of the first value in the order of declaration that does
not fit. -/
theorem ReadsParts.reads_list (h : ReadsParts values fault? t) (hlist : IsTokenList values text) :
    decoder.Reads text ((reach (fieldNames.findSome? fault?) t).bind checked) := by
  have noOthers : form.fields = form.fields ++ [] := (List.append_nil _).symm
  have known : ∀ field ∈ form.fields, field.name ∈ fieldNames := by
    simp [form, Field.ofValue, fieldNames]
  have read := h.filling.reads_list noOthers known hlist
  refine reads_checked ?_
  have names : form.fields.map Field.name = fieldNames := rfl
  rw [names] at read
  cases fits : fieldNames.findSome? fault? with
  | some fault =>
    rw [fill, fits] at read
    exact read
  | none =>
    rw [fill, fits] at read
    change (record form).Reads text
      (completeList form form.fields.length (Parts.seen t ([] ++ fieldNames))) at read
    rwa [completeList, List.nil_append, finish_seen (.refl _)] at read

/-! ## Values of any kind -/

/-- What a decoder that settles makes of a value is a fault or a value. -/
theorem exists_reach {α : Type} [Inhabited α] {d : Decoder α} (hd : Settles d) (h : IsValue text) :
    ∃ (fault? : Option Fault) (found : α), d.Reads text (reach fault? found) := by
  obtain ⟨result, read⟩ := hd h
  cases result with
  | error fault => exact ⟨some fault, default, read⟩
  | ok found => exact ⟨none, found, read⟩

/-- Something is read from every five values. -/
theorem exists_readsParts (h : ∀ name ∈ fieldNames, IsValue (values name)) :
    ∃ fault? t, ReadsParts values fault? t := by
  simp only [fieldNames, List.forall_mem_cons] at h
  obtain ⟨hline, hcolumn, hlength, hcategory, hmodifiers, _⟩ := h
  obtain ⟨line?, line, readLine⟩ := exists_reach settles_natural hline
  obtain ⟨column?, column, readColumn⟩ := exists_reach settles_natural hcolumn
  obtain ⟨length?, length, readLength⟩ := exists_reach settles_natural hlength
  obtain ⟨category?, category, readCategory⟩ :=
    exists_reach (settles_variant Category.table) hcategory
  obtain ⟨modifiers?, modifiers, readModifiers⟩ := exists_reach ModifierSet.settles hmodifiers
  let fault? (name : String) : Option Fault :=
    if name = "line" then line?
    else if name = "startColumn" then column?
    else if name = "length" then length?
    else if name = "category" then category?
    else modifiers?
  exact ⟨fault?, ⟨line, column, length, category, modifiers⟩, readLine, readColumn, readLength,
    readCategory, readModifiers⟩

/-- Whether some value does not fit does not depend on the order. -/
theorem findSome?_eq_none_iff_of_perm (h : order.Perm fieldNames) :
    order.findSome? fault? = none ↔ fieldNames.findSome? fault? = none := by
  simp only [List.findSome?_eq_none_iff, h.mem_iff]

/-- The first fault is that of the only value that may not fit. -/
theorem findSome?_of_single {doubtful : String} {names : List String}
    (single : ∀ name ∈ names, name ≠ doubtful → fault? name = none) :
    names.findSome? fault? = if doubtful ∈ names then fault? doubtful else none := by
  induction names with
  | nil => rfl
  | cons name names ih =>
    have others := ih fun other hother => single other (List.mem_cons_of_mem _ hother)
    by_cases same : name = doubtful
    · subst same
      rw [List.findSome?_cons, if_pos List.mem_cons_self]
      cases first : fault? name with
      | some fault => rfl
      | none => simpa [first] using others
    · have fits := single name List.mem_cons_self same
      simpa [List.findSome?_cons, fits, Ne.symm same] using others

/-- From five values a token is read as an object if and only if it is as a list, and it is the
same token. -/
theorem toOption_read_eq {object list : String} (h : ∀ name ∈ fieldNames, IsValue (values name))
    (hobject : IsDocument (IsTokenObject values) object)
    (hlist : IsDocument (IsTokenList values) list) :
    (decoder.read object).toOption = (decoder.read list).toOption := by
  obtain ⟨fault?, t, parts⟩ := exists_readsParts h
  obtain ⟨_, _, _, before, shape, after, rfl⟩ := hobject
  obtain ⟨_, _, _, front, listed, back, rfl⟩ := hlist
  obtain ⟨order, all, read⟩ := parts.reads_object shape
  rw [read.read before after, (parts.reads_list listed).read front back]
  have same : order.findSome? fault? = none ↔ fieldNames.findSome? fault? = none :=
    findSome?_eq_none_iff_of_perm all
  cases first : order.findSome? fault? with
  | none => rw [same.mp first]
  | some fault =>
    have some : fieldNames.findSome? fault? ≠ none := by simp [← same.not, first]
    obtain ⟨other, found⟩ := Option.ne_none_iff_exists'.mp some
    rw [found]
    rfl

/-! ## Values of the right kinds -/

/-- A text is that of a natural number of 64 bits. -/
def SpellsNatural (n : Nat) (text : List Char) : Prop :=
  n ≤ greatestWord ∧ text = Nat.toDigits 10 n

/-- Such a number is read. -/
theorem SpellsNatural.reads {n : Nat} (h : SpellsNatural n text) : natural.Reads text (.ok n) := by
  obtain ⟨bound, rfl⟩ := h
  exact .natural bound

/-- The values of the given parts are those of a token: decimal numbers, the label of the category,
and a list of labels that are those of the modifiers, in any order and perhaps repeated. -/
structure Spelled (t : Token) (given : List String) (values : String → List Char) : Prop where
  line (h : "line" ∈ given) : SpellsNatural t.line (values "line")
  startColumn (h : "startColumn" ∈ given) : SpellsNatural t.startColumn (values "startColumn")
  length (h : "length" ∈ given) : SpellsNatural t.length (values "length")
  category (h : "category" ∈ given) : SpellsLabel t.category.toLabel (values "category")
  modifiers (h : "modifiers" ∈ given) : ∃ labels, SpellsLabels labels (values "modifiers") ∧
    ∀ m, t.modifiers.contains m = true ↔ m ∈ labels

/-- The labels of a set are read as that set. -/
theorem reads_modifiers {s : ModifierSet} {labels : List Modifier} (h : SpellsLabels labels text)
    (same : ∀ m, s.contains m = true ↔ m ∈ labels) : ModifierSet.decoder.Reads text (.ok s) := by
  have set : ModifierSet.ofList labels = s := by
    refine ModifierSet.ext_contains fun m => ?_
    rw [ModifierSet.contains_ofList, Bool.eq_iff_iff, decide_eq_true_iff, same]
  rw [← set]
  exact ModifierSet.reads h

/-- Values of the right kinds are those of the token. -/
theorem Spelled.readsParts (h : Spelled t fieldNames values) :
    ReadsParts values (fun _ => none) t where
  line := (h.line (by simp [fieldNames])).reads
  startColumn := (h.startColumn (by simp [fieldNames])).reads
  length := (h.length (by simp [fieldNames])).reads
  category := Category.reads (h.category (by simp [fieldNames]))
  modifiers := by
    obtain ⟨labels, spelled, same⟩ := h.modifiers (by simp [fieldNames])
    exact reads_modifiers spelled same

/-- What fits has no fault. -/
theorem fault?_eq_none {α : Type} {d : Decoder α} {fault? : Option Fault} {found value : α}
    (h : d.Reads text (.ok value)) (read : d.Reads text (reach fault? found)) : fault? = none := by
  cases fault? with
  | none => rfl
  | some fault => cases h.unique read

/-- Values of the right kinds have no faults. -/
theorem Spelled.fault?_eq_none {other : Token} (h : Spelled t given values)
    (read : ReadsParts values fault? other) {name : String} (listed : name ∈ fieldNames)
    (hname : name ∈ given) : fault? name = none := by
  simp only [fieldNames, List.mem_cons, List.not_mem_nil, or_false] at listed
  obtain rfl | rfl | rfl | rfl | rfl := listed
  · exact Token.fault?_eq_none (h.line hname).reads read.line
  · exact Token.fault?_eq_none (h.startColumn hname).reads read.startColumn
  · exact Token.fault?_eq_none (h.length hname).reads read.length
  · exact Token.fault?_eq_none (Category.reads (h.category hname)) read.category
  · obtain ⟨labels, spelled, same⟩ := h.modifiers hname
    exact Token.fault?_eq_none (reads_modifiers spelled same) read.modifiers

/-- From five values of which at most one is of a wrong kind the same is read as an object and as a
list. -/
theorem read_eq {object list doubtful : String} (h : ∀ name ∈ fieldNames, IsValue (values name))
    (spelled : Spelled t (fieldNames.filter (· ≠ doubtful)) values)
    (hobject : IsDocument (IsTokenObject values) object)
    (hlist : IsDocument (IsTokenList values) list) : decoder.read object = decoder.read list := by
  obtain ⟨fault?, other, parts⟩ := exists_readsParts h
  obtain ⟨_, _, _, before, shape, after, rfl⟩ := hobject
  obtain ⟨_, _, _, front, listed, back, rfl⟩ := hlist
  obtain ⟨order, all, read⟩ := parts.reads_object shape
  have single : ∀ name ∈ fieldNames, name ≠ doubtful → fault? name = none := by
    intro name hname hother
    exact spelled.fault?_eq_none parts hname (by simp [hname, hother])
  have first : order.findSome? fault? = fieldNames.findSome? fault? := by
    rw [findSome?_of_single single,
      findSome?_of_single fun name hname => single name (all.mem_iff.mp hname)]
    simp only [all.mem_iff]
  rw [read.read before after, (parts.reads_list listed).read front back, first]

/-- A token is read from values of the right kinds, and then checked. -/
theorem read_of_spelled (spelled : Spelled t fieldNames values)
    (h : IsDocument (fun text => IsTokenObject values text ∨ IsTokenList values text) document) :
    decoder.read document = checked t := by
  obtain ⟨_, _, _, before, shape | shape, after, rfl⟩ := h
  · obtain ⟨order, _, read⟩ := spelled.readsParts.reads_object shape
    have noFault : order.findSome? (fun _ => (none : Option Fault)) = none := by simp
    rw [noFault] at read
    exact read.read before after
  · have read := spelled.readsParts.reads_list shape
    exact read.read before after

/-! ## Written tokens -/

/-- The members of a written token. -/
def members (t : Token) : List (String × Value) :=
  [("line", .number t.line), ("startColumn", .number t.startColumn), ("length", .number t.length),
    ("category", t.category.toValue), ("modifiers", t.modifiers.toValue)]

/-- The numbers of a token have 64 bits. -/
structure FitsWords (t : Token) : Prop where
  line : t.line ≤ greatestWord
  startColumn : t.startColumn ≤ greatestWord
  length : t.length ≤ greatestWord

/-- The written values are those of the token. -/
theorem spelled_written (h : t.FitsWords) :
    Spelled t fieldNames (valueOf Value.compact t.members) where
  line _ := ⟨h.line, toList_number _⟩
  startColumn _ := ⟨h.startColumn, toList_number _⟩
  length _ := ⟨h.length, toList_number _⟩
  category _ := t.category.spellsLabel_toValue
  modifiers _ := ⟨_, spellsLabels_compact _, fun _ => ModifierSet.mem_toList.symm⟩

/-- A written token is an object with its five parts. -/
theorem isTokenObject_compact (t : Token) :
    IsTokenObject (valueOf Value.compact t.members) t.toValue.compact.toList := by
  have distinct : (t.members.map Prod.fst).Nodup := by
    show fieldNames.Nodup
    decide
  have all : (fieldNames.filter (· ∈ fieldNames)).Perm fieldNames := by decide
  have known : ∀ member ∈ t.members, member.1 ∈ fieldNames := by
    simp [members, fieldNames]
  exact ⟨_, _, isObject_compact t.members,
    forall₂_isEntry distinct fun member hmember => .inl (known member hmember), all⟩

/-- What is written is read as the token. -/
theorem reads_toValue (words : t.FitsWords) (pos : 0 < t.length) :
    decoder.Reads t.toValue.compact.toList (.ok t) := by
  obtain ⟨order, _, read⟩ :=
    (spelled_written words).readsParts.reads_object (isTokenObject_compact t)
  have noFault : order.findSome? (fun _ => (none : Option Fault)) = none := by simp
  rw [noFault] at read
  rw [← checked_of_pos pos]
  exact read

/-- A list of tokens is read back. -/
theorem read_compact {tokens : List Token} (h : ∀ t ∈ tokens, t.FitsWords ∧ 0 < t.length) :
    listDecoder.read (Value.list (tokens.map toValue)).compact = .ok tokens := by
  have list : listDecoder.Reads (Value.list (tokens.map toValue)).compact.toList (.ok tokens) := by
    refine .list_ok (isList_compact _) ?_
    rw [List.map_map, List.forall₂_map_left_iff, List.forall₂_same]
    exact fun t ht => reads_toValue (h t ht).1 (h t ht).2
  have read := list.read .nil .nil
  rwa [List.nil_append, List.append_nil, String.ofList_toList] at read

/-! ## Documents -/

/-- A decoder of tokens gives tokens with characters only. -/
theorem assures_decoder : decoder.Assures fun t => 0 < t.length := by
  refine .bind (.trivial _) fun t _ => ?_
  cases made : ofParts t.line t.startColumn t.length t.category t.modifiers with
  | error error => exact .reject
  | ok t =>
    refine .pure ?_
    obtain ⟨pos, rfl⟩ := ofParts_eq_ok_iff.mp made
    exact pos

/-- Written tokens are read back. From five values the same token is read as an object, with the
parts in any order and other members among them, and as a list, or none; with at most one value of a
wrong kind the fault is the same, too. Values of the right kinds give their token, with the set of
the modifiers that are named, or the fault of an empty token. No bytes at all give one of those. -/
theorem read_documents :
    (∀ tokens : List Token, (∀ t ∈ tokens, t.FitsWords ∧ 0 < t.length) →
      listDecoder.read (Value.list (tokens.map toValue)).compact = .ok tokens) ∧
    (∀ values object list, IsDocument (IsTokenObject values) object →
      IsDocument (IsTokenList values) list → (∀ name ∈ fieldNames, IsValue (values name)) →
        (decoder.read object).toOption = (decoder.read list).toOption ∧
        ∀ t doubtful, Spelled t (fieldNames.filter (· ≠ doubtful)) values →
          decoder.read object = decoder.read list) ∧
    (∀ values document t, Spelled t fieldNames values →
      IsDocument (fun text => IsTokenObject values text ∨ IsTokenList values text) document →
        (0 < t.length → decoder.read document = .ok t) ∧
        (t.length = 0 → ∃ cause, decoder.read document = .error (.mismatch cause) ∧
          cause.message = s!"Empty token at line {t.line}, column {t.startColumn}")) ∧
    (∀ ending bytes t, decoder.readBytes ending bytes = .ok t → 0 < t.length) ∧
    ∀ ending bytes tokens, listDecoder.readBytes ending bytes = .ok tokens →
      ∀ t ∈ tokens, 0 < t.length := by
  refine ⟨fun tokens h => read_compact h, ?_, ?_, ?_, ?_⟩
  · intro values object list hobject hlist h
    exact ⟨toOption_read_eq h hobject hlist,
      fun t doubtful spelled => read_eq h spelled hobject hlist⟩
  · intro values document t spelled h
    rw [read_of_spelled spelled h]
    exact ⟨checked_of_pos, fun empty => ⟨_, checked_of_empty empty, rfl⟩⟩
  · intro ending bytes t read
    exact assures_decoder.of_readBytes read
  · intro ending bytes tokens read
    exact assures_decoder.list.of_readBytes read

/-- The members of an object in another order than that of declaration, with an unknown one among
them and a modifier named twice. -/
def reordered : List (String × Value) :=
  [("modifiers", .list ([Modifier.async, .static, .async].map Modifier.toValue)),
    ("note", .string ""), ("length", .number 3), ("category", Category.keyword.toValue),
    ("startColumn", .number 2), ("line", .number 1)]

/-- The token of that object, as an object and as a list. -/
theorem read_documents_reordered :
    decoder.read ("\x7b\"modifiers\":[\"async\",\"static\",\"async\"],\"note\":\"\"," ++
      "\"length\":3,\"category\":\"keyword\",\"startColumn\":2,\"line\":1\x7d") =
        .ok ⟨1, 2, 3, .keyword, .ofList [.static, .async]⟩ ∧
    decoder.read "[1,2,3,\"keyword\",[\"async\",\"static\",\"async\"]]" =
        .ok ⟨1, 2, 3, .keyword, .ofList [.static, .async]⟩ := by
  let t : Token := ⟨1, 2, 3, .keyword, .ofList [.static, .async]⟩
  have spelled : Spelled t fieldNames (valueOf Value.compact reordered) := by
    refine ⟨fun _ => ⟨by decide, toList_number 1⟩, fun _ => ⟨by decide, toList_number 2⟩,
      fun _ => ⟨by decide, toList_number 3⟩, fun _ => Category.keyword.spellsLabel_toValue,
      fun _ => ⟨_, spellsLabels_compact [.async, .static, .async], ?_⟩⟩
    intro m
    cases m <;> decide
  have object : IsTokenObject (valueOf Value.compact reordered)
      (Value.object reordered).compact.toList := by
    have distinct : (reordered.map Prod.fst).Nodup := by decide
    have all : ((reordered.map Prod.fst).filter (· ∈ fieldNames)).Perm fieldNames := by decide
    have note : IsValue (Value.string "").compact.toList := .literal .nil
    have entries : ∀ member ∈ reordered, member.1 ∈ fieldNames ∨
        (∀ field ∈ form.fields, field.name ≠ member.1) ∧ IsValue member.2.compact.toList := by
      simp [reordered, fieldNames, form, Field.ofValue, note]
    exact ⟨_, _, isObject_compact reordered, forall₂_isEntry distinct entries, all⟩
  have list : IsTokenList (valueOf Value.compact reordered)
      (Value.list [.number 1, .number 2, .number 3, Category.keyword.toValue,
        .list ([Modifier.async, .static, .async].map Modifier.toValue)]).compact.toList :=
    isList_compact _
  obtain ⟨_, _, read, _⟩ := read_documents
  have pos : 0 < t.length := by decide
  refine ⟨(read _ _ t spelled ⟨[], _, [], .nil, .inl object, .nil, ?_⟩).1 pos,
    (read _ _ t spelled ⟨[], _, [], .nil, .inr list, .nil, ?_⟩).1 pos⟩
  · decide +kernel
  · decide +kernel

end LineLexer.Token
