import LineLexer.Proofs.Json.RoundTrip
import LineLexer.Rules.Json
import LineLexer.Tokenizer

/-!
# Rule sets and their documents

A rule set is read back from the document that it is written as, whatever its texts and characters
are and whether or not it can be used. The members of the document are followed one by one; what
each of them gives is known from the grammar of written documents. The main statement is
`toJson_roundTrip`.
-/

namespace LineLexer.Rules

open Json Decoder

/-- What has been collected of a rule set once the fields of some names have been read. -/
def Parts.seen (rules : Rules) (names : List String) : Parts where
  name := if "name" ∈ names then some rules.name else none
  reservedWords := if "reserved_words" ∈ names then some rules.reservedWords else none
  lineComment := if "line_comment" ∈ names then some rules.lineComment else none
  whitespace := if "whitespace" ∈ names then some rules.whitespace else none

/-- The names of the fields. -/
def fieldNames : List String :=
  ["name", "reserved_words", "line_comment", "whitespace"]

/-- The text of each given field is read as that field of a rule set. -/
structure Spelled (rules : Rules) (given : List String) (values : String → List Char) : Prop where
  known : ∀ name ∈ given, name ∈ fieldNames
  name (h : "name" ∈ given) : string.Reads (values "name") (.ok rules.name)
  reservedWords (h : "reserved_words" ∈ given) :
    (list string).Reads (values "reserved_words") (.ok rules.reservedWords)
  lineComment (h : "line_comment" ∈ given) :
    string.Reads (values "line_comment") (.ok rules.lineComment)
  whitespace (h : "whitespace" ∈ given) :
    (list char).Reads (values "whitespace") (.ok rules.whitespace)

variable {rules : Rules} {given : List String} {values : String → List Char}

/-- The fields of a rule set are read independently of each other. -/
theorem Spelled.filling (h : Spelled rules given values) :
    Filling form given values (fun _ => none) (Parts.seen rules) where
  start := rfl
  known {name} hname := h.known name hname
  fits := by
    simp only [form, List.forall_mem_cons]
    refine ⟨.ofValue ?_ ?_ h.name, .ofValue ?_ ?_ h.reservedWords, .ofValue ?_ ?_ h.lineComment,
      .ofValue ?_ ?_ h.whitespace, by simp⟩
    all_goals
      intro seen
      simp [Parts.seen]

/-! ## Written rule sets -/

/-- The members of a written rule set. -/
def members (rules : Rules) : List (String × Value) :=
  [("name", .string rules.name), ("reserved_words", .list (rules.reservedWords.map .string)),
    ("line_comment", .string rules.lineComment),
    ("whitespace", .list (rules.whitespace.map fun c => .string (String.singleton c)))]

/-- A written list of texts is read back. -/
theorem reads_strings (level : Nat) (texts : List String) :
    (list string).Reads ((Value.list (texts.map .string)).indented level).toList (.ok texts) := by
  refine .list_ok (isList_indented level _) ?_
  rw [List.map_map, List.forall₂_map_left_iff, List.forall₂_same]
  exact fun text _ => reads_quoted text

/-- A written list of characters is read back. -/
theorem reads_chars (level : Nat) (chars : List Char) :
    (list char).Reads
      ((Value.list (chars.map fun c => .string (String.singleton c))).indented level).toList
      (.ok chars) := by
  refine .list_ok (isList_indented level _) ?_
  rw [List.map_map, List.forall₂_map_left_iff, List.forall₂_same]
  exact fun c _ => reads_quoted_singleton c

/-- The written fields are those of the rule set. -/
theorem spelled_written (rules : Rules) :
    Spelled rules (rules.members.map Prod.fst) (valueOf (Value.indented 1) rules.members) where
  known _ h := h
  name _ := reads_quoted rules.name
  reservedWords _ := reads_strings 1 rules.reservedWords
  lineComment _ := reads_quoted rules.lineComment
  whitespace _ := reads_chars 1 rules.whitespace

/-- What is written is read as the rule set. -/
theorem reads_toJson (rules : Rules) : decoder.Reads rules.toJson.toList (.ok rules) := by
  have distinct : fieldNames.Nodup := by decide
  have read := (spelled_written rules).filling.reads_written distinct
    (isObject_indented 0 rules.members)
  have whole : complete form (Parts.seen rules (rules.members.map Prod.fst)) = .ok rules := by
    simp [complete, form, Parts.seen, Parts.complete, members]
  rw [whole] at read
  exact read

/-! ## The round trip -/

/-- Two outcomes of making a tokenizer that cannot be told apart: the same error, or tokenizers
that find the same tokens in every text. -/
inductive SameOutcome : Except Error Tokenizer → Except Error Tokenizer → Prop where
  | error (e : Error) : SameOutcome (.error e) (.error e)
  | ok {first second : Tokenizer} (same : ∀ text, first.tokenize text = second.tokenize text) :
      SameOutcome (.ok first) (.ok second)

/-- An outcome is the same as itself. -/
theorem SameOutcome.refl (outcome : Except Error Tokenizer) : SameOutcome outcome outcome := by
  cases outcome with
  | error e => exact .error e
  | ok t => exact .ok fun _ => rfl

/-- A rule set is read back from its document, given as text or as bytes, and the tokenizer made of
what has been read back does the same. -/
theorem toJson_roundTrip (rules : Rules) :
    ofJson rules.toJson = .ok rules ∧
      ofJsonBytes .finished rules.toJson.toUTF8.data.toList = .ok rules ∧
      ∃ reread, ofJson rules.toJson = .ok reread ∧
        ofJsonBytes .finished rules.toJson.toUTF8.data.toList = .ok reread ∧
        SameOutcome (Tokenizer.build rules).result (Tokenizer.build reread).result := by
  have text : ofJson rules.toJson = .ok rules := by
    have read := (reads_toJson rules).read .nil .nil
    rwa [List.nil_append, List.append_nil, String.ofList_toList] at read
  -- The bytes of a text are read as the text is.
  have bytes : ofJsonBytes .finished rules.toJson.toUTF8.data.toList = .ok rules := text
  exact ⟨text, bytes, rules, text, bytes, .refl _⟩

end LineLexer.Rules
