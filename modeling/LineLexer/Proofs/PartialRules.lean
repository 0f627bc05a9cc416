import LineLexer.Proofs.RulesDocuments

/-!
# Partial rule sets

A document may give only some fields of a rule set. An object gives any of them, in any order and
with other members anywhere among them, and a list the leading ones; the fields that are not given
are those of the standard rules. A field that is given twice is a fault. The main statement is
`read_partial`.
-/

namespace LineLexer.Rules

open Json Decoder

variable {rules : Rules} {present names : List String} {values : String → List Char}
  {text : List Char} {document name : String}

/-! ## Values of the fields -/

/-- A text is a literal that denotes the characters. -/
def SpellsText (chars text : List Char) : Prop :=
  ∃ body, text = literal body ∧ Denotes body chars

/-- A text is a list of literals, which denote the given texts one by one. -/
def SpellsTexts (each : List (List Char)) (text : List Char) : Prop :=
  ∃ items, IsList text items ∧ List.Forall₂ (fun item chars => SpellsText chars item) items each

/-- The fields that are present have values of the right kinds, which are those of a rule set. -/
structure Written (rules : Rules) (present : List String) (values : String → List Char) :
    Prop where
  known : ∀ name ∈ present, name ∈ fieldNames
  name (h : "name" ∈ present) : SpellsText rules.name.toList (values "name")
  reservedWords (h : "reserved_words" ∈ present) :
    SpellsTexts (rules.reservedWords.map String.toList) (values "reserved_words")
  lineComment (h : "line_comment" ∈ present) :
    SpellsText rules.lineComment.toList (values "line_comment")
  whitespace (h : "whitespace" ∈ present) :
    SpellsTexts (rules.whitespace.map fun c => [c]) (values "whitespace")

/-- A literal is read as the text that it denotes. -/
theorem SpellsText.reads {denoted : String} (h : SpellsText denoted.toList text) :
    string.Reads text (.ok denoted) := by
  obtain ⟨body, rfl, denotes⟩ := h
  exact .string denotes

/-- A literal of one character is read as that character. -/
theorem SpellsText.reads_char {c : Char} (h : SpellsText [c] text) : char.Reads text (.ok c) := by
  obtain ⟨body, rfl, denotes⟩ := h
  exact .char denotes

/-- A list of literals is read as the texts that they denote. -/
theorem SpellsTexts.reads {denoted : List String}
    (h : SpellsTexts (denoted.map String.toList) text) :
    (list string).Reads text (.ok denoted) := by
  obtain ⟨items, hlist, each⟩ := h
  rw [List.forall₂_map_right_iff] at each
  exact .list_ok hlist (each.imp fun _ _ spells => spells.reads)

/-- A list of literals of one character each is read as those characters. -/
theorem SpellsTexts.reads_chars {chars : List Char}
    (h : SpellsTexts (chars.map fun c => [c]) text) : (list char).Reads text (.ok chars) := by
  obtain ⟨items, hlist, each⟩ := h
  rw [List.forall₂_map_right_iff] at each
  exact .list_ok hlist (each.imp fun _ _ spells => spells.reads_char)

/-- Values of the right kinds are read as the fields of the rule set. -/
theorem Written.filling (h : Written rules present values) :
    Filling form present values (fun _ => none) (Parts.seen rules) := by
  have spelled : Spelled rules present values :=
    { known := h.known
      name := fun given => (h.name given).reads
      reservedWords := fun given => (h.reservedWords given).reads
      lineComment := fun given => (h.lineComment given).reads
      whitespace := fun given => (h.whitespace given).reads_chars }
  exact spelled.filling

/-! ## Missing fields -/

/-- The fields of some names, and those of the standard rules in place of the others. -/
def overStandard (rules : Rules) (present : List String) : Rules where
  name := if "name" ∈ present then rules.name else standard.name
  reservedWords :=
    if "reserved_words" ∈ present then rules.reservedWords else standard.reservedWords
  lineComment := if "line_comment" ∈ present then rules.lineComment else standard.lineComment
  whitespace := if "whitespace" ∈ present then rules.whitespace else standard.whitespace

/-- What has been collected is completed with the fields of the standard rules. -/
theorem complete_seen (rules : Rules) (names : List String) :
    (Parts.seen rules names).complete = rules.overStandard names := by
  have either {α : Type} (p : Prop) [Decidable p] (given other : α) :
      (if p then some given else none).getD other = if p then given else other := by
    split <;> rfl
  simp only [Parts.complete, Parts.seen, either, overStandard]

/-- The order in which the fields are given does not matter. -/
theorem overStandard_perm (rules : Rules) (h : names.Perm present) :
    rules.overStandard names = rules.overStandard present := by
  simp only [overStandard, h.mem_iff]

/-! ## Objects and lists -/

/-- Members of an object are the values of the fields that are present, each once and in any order,
with other members anywhere among them. -/
def AreMembers (present : List String) (values : String → List Char)
    (members : List (List Char × List Char)) (names : List String) : Prop :=
  List.Forall₂ (IsEntry form present values) members names ∧
    (names.filter (· ∈ present)).Perm present

/-- A text is an object with the fields that are present. -/
def IsRulesObject (present : List String) (values : String → List Char) (text : List Char) :
    Prop :=
  ∃ members names, IsObject text members ∧ AreMembers present values members names

/-- A text is a list with the values of the fields that are present. -/
def IsRulesList (present : List String) (values : String → List Char) (text : List Char) : Prop :=
  IsList text (present.map values)

/-- A text is an object in which the key of a field comes a second time. Its value then and the
members behind it are of any kind. -/
def RepeatsField (present : List String) (values : String → List Char) (name : String)
    (text : List Char) : Prop :=
  ∃ front key value back names, IsObject text (front ++ (key, value) :: back) ∧
    AreMembers present values front names ∧ name ∈ present ∧ Denotes key name.toList

/-- An object gives its fields, and those of the standard rules. -/
theorem Written.reads_object (h : Written rules present values) (once : present.Nodup)
    (hobject : IsRulesObject present values text) :
    decoder.Reads text (.ok (rules.overStandard present)) := by
  obtain ⟨members, names, hobject, entries, all⟩ := hobject
  have read := h.filling.reads_object hobject entries (all.symm.nodup once)
  rw [fill_none] at read
  rw [← overStandard_perm rules all, ← complete_seen]
  exact read

/-- A list gives the leading fields, and the others are those of the standard rules. -/
theorem Written.reads_list (h : Written rules present values) (leading : present <+: fieldNames)
    (hlist : IsRulesList present values text) :
    decoder.Reads text (.ok (rules.overStandard present)) := by
  have named : (form.fields.take present.length).map Field.name = present := by
    rw [List.map_take]
    exact (List.prefix_iff_eq_take.mp leading).symm
  have given : ∀ field ∈ form.fields.take present.length, field.name ∈ present := by
    intro field hfield
    rw [← named]
    exact List.mem_map_of_mem hfield
  have items : (form.fields.take present.length).map (fun field => values field.name) =
      present.map values := by
    conv_rhs => rw [← named]
    rw [List.map_map]
    rfl
  have read := h.filling.reads_list (List.take_append_drop present.length form.fields).symm given
    (by rw [items]; exact hlist)
  rw [named, fill_none] at read
  rw [← complete_seen]
  exact read

/-- The key of a field that has been read is a fault. -/
theorem Written.reads_repeated (h : Written rules present values) (once : present.Nodup)
    (hobject : RepeatsField present values name text) :
    decoder.Reads text (.error (.mismatch (.duplicateField name))) := by
  obtain ⟨front, key, value, back, names, hobject, ⟨entries, all⟩, hname, hkey⟩ := hobject
  have again : name ∈ names := List.mem_of_mem_filter (all.mem_iff.mpr hname)
  exact h.filling.reads_duplicate hobject entries (all.symm.nodup once) hkey hname again

/-! ## Documents -/

/-- A value that is read is the value of its document. -/
theorem ofJson_of_reads {result : Except Fault Rules} {shape : List Char → Prop}
    (hdocument : IsDocument shape document) (h : ∀ text, shape text → decoder.Reads text result) :
    ofJson document = result := by
  obtain ⟨before, text, after, hbefore, htext, hafter, rfl⟩ := hdocument
  exact (h text htext).read hbefore hafter

/-- A document gives the fields that are present in it, and those of the standard rules in place of
the others: an object in whatever order its members stand and whatever other members it has, and a
list of the leading fields as the object does. The second time that the key of a field comes is a
fault. -/
theorem read_partial (rules : Rules) (present : List String) (values : String → List Char)
    (written : Written rules present values) (once : present.Nodup) :
    (∀ document, IsDocument (IsRulesObject present values) document →
      ofJson document = .ok (rules.overStandard present)) ∧
    (∀ document, present <+: fieldNames → IsDocument (IsRulesList present values) document →
      ofJson document = .ok (rules.overStandard present)) ∧
    ∀ document name, IsDocument (RepeatsField present values name) document →
      ∃ cause, ofJson document = .error (.mismatch cause) ∧
        cause.message = "duplicate field `" ++ name ++ "`" := by
  refine ⟨fun document hdocument => ?_, fun document leading hdocument => ?_,
    fun document name hdocument => ?_⟩
  · exact ofJson_of_reads hdocument fun text => written.reads_object once
  · exact ofJson_of_reads hdocument fun text => written.reads_list leading
  · exact ⟨_, ofJson_of_reads hdocument fun text => written.reads_repeated once, rfl⟩

/-- Two fields of a rule set, not in the order of declaration. -/
def sparse : List (String × Value) :=
  [("reserved_words", .list [.string "if"]), ("name", .string "sparse")]

/-- The members of an object with those two fields. Another key comes twice, and one of its values
has the name of a field inside. -/
def annotated : List (String × Value) :=
  [("note", .list [.object [("name", .number 1)]]), ("reserved_words", .list [.string "if"]),
    ("note", .string ""), ("name", .string "sparse")]

/-- The two fields are given by an object and by a list. A second name is a fault, although it would
not even be a text. -/
theorem read_partial_sparse :
    ofJson ("\x7b\"note\":[\x7b\"name\":1\x7d],\"reserved_words\":[\"if\"],\"note\":\"\"," ++
      "\"name\":\"sparse\"\x7d") =
        .ok { standard with name := "sparse", reservedWords := ["if"] } ∧
    ofJson "[\"sparse\",[\"if\"]]" =
      .ok { standard with name := "sparse", reservedWords := ["if"] } ∧
    ∃ cause, ofJson "\x7b\"reserved_words\":[\"if\"],\"name\":\"sparse\",\"name\":0\x7d" =
        .error (.mismatch cause) ∧ cause.message = "duplicate field `name`" := by
  let present : List String := ["name", "reserved_words"]
  let values := valueOf Value.compact sparse
  have word : SpellsText "if".toList (Value.string "if").compact.toList :=
    ⟨_, toList_quoted "if", denotes_body "if"⟩
  have text : SpellsText "sparse".toList (values "name") :=
    ⟨_, toList_quoted "sparse", denotes_body "sparse"⟩
  have written : Written ⟨"sparse", ["if"], "", []⟩ present values :=
    ⟨by decide, fun _ => text, fun _ => ⟨_, isList_compact [.string "if"], .cons word .nil⟩,
      fun given => absurd given (by decide), fun given => absurd given (by decide)⟩
  have known (name : String) (value : Value) (h : name ∈ present)
      (same : value.compact.toList = values name) :
      IsEntry form present values (body name, value.compact.toList) name :=
    .field (denotes_body name) h same
  have note (value : Value) (h : IsValue value.compact.toList) :
      IsEntry form present values (body "note", value.compact.toList) "note" :=
    .other (denotes_body _) (by simp [form, Field.ofValue]) h
  have number : IsValue (Value.number 1).compact.toList := by
    rw [show (Value.number 1).compact.toList = Nat.toDigits 10 1 from toList_number 1]
    exact .numeral (isWhole_toDigits 1).isNumeral
  have inner : IsValue (Value.object [("name", .number 1)]).compact.toList := by
    refine .object (isObject_compact _) ?_ (by simpa using number)
    simpa using (denotes_body "name").isBody
  have nested : IsValue (Value.list [.object [("name", .number 1)]]).compact.toList :=
    .list (isList_compact _) (by simpa using inner)
  have object : IsRulesObject present values (Value.object annotated).compact.toList :=
    ⟨_, annotated.map Prod.fst, isObject_compact annotated,
      .cons (note _ nested) (.cons (known _ _ (by decide) rfl)
        (.cons (note _ (.literal .nil)) (.cons (known _ _ (by decide) rfl) .nil))), by decide⟩
  have list : IsRulesList present values
      (Value.list [.string "sparse", .list [.string "if"]]).compact.toList :=
    isList_compact _
  have repeated : RepeatsField present values "name"
      (Value.object (sparse ++ [("name", .number 0)])).compact.toList := by
    have front : AreMembers present values
        (sparse.map fun member => (body member.1, member.2.compact.toList))
        (sparse.map Prod.fst) :=
      ⟨.cons (known _ _ (by decide) rfl) (.cons (known _ _ (by decide) rfl) .nil), by decide⟩
    exact ⟨_, _, _, [], _, isObject_compact _, front, by decide, denotes_body "name"⟩
  obtain ⟨readObject, readList, readRepeated⟩ :=
    read_partial _ present values written (by decide)
  refine ⟨readObject _ ⟨[], _, [], .nil, object, .nil, ?_⟩,
    readList _ (by decide) ⟨[], _, [], .nil, list, .nil, ?_⟩,
    readRepeated _ "name" ⟨[], _, [], .nil, repeated, .nil, ?_⟩⟩
  · decide +kernel
  · decide +kernel
  · decide +kernel

end LineLexer.Rules
