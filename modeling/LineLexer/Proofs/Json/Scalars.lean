import LineLexer.Proofs.Json.IgnoredValues
import Mathlib.Data.List.Nodup

/-!
# Reading single values

What the decoders of single values make of the values that they accept: strings, characters,
natural numbers, nulls and the values of a table, which are given by a literal or by an object with
a null in it.
-/

namespace LineLexer.Json.Decoder

variable {α : Type} {body : List Char} {text : String}

/-- A null. -/
def nullWord : List Char :=
  ['n', 'u', 'l', 'l']

/-! ## Strings -/

/-- A literal is read as its text. -/
theorem Reads.stringAs {expected : String} (h : Denotes body text.toList) :
    (stringAs expected).Reads (literal body) (.ok text) := by
  refine .of_accepted (IsValue.literal h.isBody).startsValue rfl rfl fun _ => ?_
  rw [literal_append]
  exact .bind .skip (.literalText h)

/-- A literal is read as its text. -/
theorem Reads.string (h : Denotes body text.toList) : string.Reads (literal body) (.ok text) :=
  .stringAs h

/-- A literal of one character is read as that character. -/
theorem Reads.char {c : Char} (h : Denotes body [c]) : char.Reads (literal body) (.ok c) where
  starts := (IsValue.literal h.isBody).startsValue
  gives hbefore hrest := by
    have single : Denotes body (String.singleton c).toList := by rwa [String.toList_singleton]
    refine .bind ((Reads.stringAs single).gives hbefore hrest) ?_
    simp only [String.toList_singleton]
    exact .pure c

/-! ## Natural numbers -/

/-- The first character of a numeral opens a numeral. -/
theorem startsNumeral_of_mem {c : Char} (hc : c ∈ '-' :: digitChars) :
    startsNumeral (ascii c) = true := by
  revert c
  decide

/-- A natural number of 64 bits is read from its decimal digits. -/
theorem Reads.natural {n : Nat} (h : n ≤ greatestWord) :
    natural.Reads (Nat.toDigits 10 n) (.ok n) := by
  have numeral : IsNumeral (Nat.toDigits 10 n) := (isWhole_toDigits n).isNumeral
  obtain ⟨c, more, digits, hc⟩ := numeral.exists_cons
  exact .of_accepted (IsValue.numeral numeral).startsValue digits (startsNumeral_of_mem hc)
    fun hrest => .bind (.number_toDigits h hrest) (.pure n)

/-! ## Nulls -/

/-- A null is read. -/
theorem Reads.null : null.Reads nullWord (.ok ()) :=
  .of_accepted (.cons _ (by decide)) rfl rfl fun _ => .word

/-! ## Values of a table -/

/-- The value with a given key in a table, or the fault of there being none. -/
def choose (table : List (String × α)) (key : String) : Except Fault α :=
  match table.find? (·.1 == key) with
  | some (_, value) => .ok value
  | none => .error (.mismatch (.unknownVariant key (table.map Prod.fst)))

/-- The table of some values gives the first of them that has the key. -/
theorem choose_map_eq (all : List α) (key : α → String) (text : String) :
    choose (all.map fun v => (key v, v)) text =
      match all.find? (key · == text) with
      | some value => .ok value
      | none => .error (.mismatch (.unknownVariant text (all.map key))) := by
  unfold choose
  rw [List.find?_map, List.map_map]
  show _ = match all.find? ((·.1 == text) ∘ fun v => (key v, v)) with
    | some value => Except.ok value
    | none => _
  cases all.find? ((·.1 == text) ∘ fun v => (key v, v)) with
  | some value => rfl
  | none => rfl

/-- Values with different keys are found by their keys. -/
theorem choose_map {all : List α} {key : α → String} (distinct : (all.map key).Nodup) {value : α}
    (h : value ∈ all) : choose (all.map fun v => (key v, v)) (key value) = .ok value := by
  rw [choose_map_eq]
  cases found : all.find? (key · == key value) with
  | some other =>
    have same : key other = key value := by simpa using List.find?_some found
    rw [List.inj_on_of_nodup_map distinct (List.mem_of_find?_eq_some found) h same]
  | none => exact absurd (List.find?_eq_none.mp found value h) (by simp)

/-- A key is looked up without reading. -/
theorem Gives.lookUp {ending : Ending} {text : List Char} (table : List (String × α))
    (key : String) : (lookUp table key).Gives ending text (choose table key) text := by
  unfold Decoder.lookUp choose
  cases table.find? (·.1 == key) with
  | none => exact .reject
  | some entry => exact .pure entry.2

/-- A key of a table has its value. -/
theorem Gives.lookUp_ok {ending : Ending} {text : List Char} {table : List (String × α)}
    {key : String} {value : α} (h : choose table key = .ok value) :
    (Decoder.lookUp table key).Gives ending text (.ok value) text := by
  rw [← h]
  exact .lookUp table key

/-- Another key is a fault. -/
theorem Gives.lookUp_error {ending : Ending} {text rest : List Char} {table : List (String × α)}
    {key : String} {fault : Fault} (h : choose table key = .error fault) :
    (Decoder.lookUp table key).Gives ending text (.error fault) rest := by
  have looked : (Decoder.lookUp table key).Gives ending text (choose table key) text :=
    .lookUp table key
  rw [h] at looked
  exact looked.fault_irrel

section Objects

variable {ending : Ending} {before between middle rest : List Char}

/-- An object is read from its key on, once its brace and the quote of the key are taken. -/
theorem Gives.variant_key {table : List (String × α)} {result : Except Fault α}
    (hbefore : Blank before) (hbetween : Blank between)
    (h : Gives (do
      let key ← Decoder.literalText
      let value ← Decoder.lookUp table key
      Decoder.punctuation ':'
      Decoder.null
      Decoder.punctuation '\x7d'
      Pure.pure value) ending (body ++ '"' :: middle) result rest) :
    (variant table).Gives ending (before ++ '\x7b' :: (between ++ (literal body ++ middle))) result
      rest := by
  refine .bind (.significant hbefore) ?_
  rw [if_neg (by decide), if_pos rfl, literal_append]
  exact .bind .skip (.bind (.punctuation hbetween) h)

/-- The key in an object has to be a literal. Anything else behind the brace makes the document
malformed before it is looked at what it is and where it ends. -/
theorem Gives.variant_other (table : List (String × α)) {c : Char} (hbefore : Blank before)
    (hbetween : Blank between) (hc : IsSolid c) (other : ascii c ≠ ascii '"') :
    (variant table).Gives ending (before ++ '\x7b' :: (between ++ c :: middle)) (.error .malformed)
      rest := by
  refine .bind (.significant hbefore) ?_
  rw [if_neg (by decide), if_pos rfl]
  exact .bind .skip (.stop (.punctuation_other hbetween hc other))

/-- A number in the place of the key is no mismatch. -/
example : (variant [("type", true)]).read "\x7b5: null\x7d" = .error .malformed := by rfl

end Objects

/-- A literal is read as the value whose key it denotes. -/
theorem Reads.variant_literal (table : List (String × α)) (h : Denotes body text.toList) :
    (variant table).Reads (literal body) (choose table text) := by
  refine .of_accepted (IsValue.literal h.isBody).startsValue rfl rfl fun _ => ?_
  rw [literal_append]
  exact .bind .skip (.bind (.literalText h) (.lookUp table _))

/-- An object whose only member is a null is read as the value whose key is that of the member. -/
theorem Reads.variant_object {object : List Char} (table : List (String × α))
    (h : IsObject object [(body, nullWord)]) (hbody : Denotes body text.toList) :
    (variant table).Reads object (choose table text) := by
  obtain ⟨items, h, hmembers⟩ := h
  cases hmembers with | @cons item _ _ _ hmember hnil
  cases hnil
  obtain ⟨front, back, hfront, hback, rfl⟩ := h.exists_single
  cases hmember with | @parts _ behind ahead _ hbehind hahead
  refine ⟨.cons _ (by decide), fun {ending before rest} hbefore hrest => ?_⟩
  simp only [List.append_assoc, List.cons_append, List.nil_append]
  refine .variant_key hbefore hfront (.bind (.literalText hbody) ?_)
  cases chosen : choose table text with
  | error fault => exact .stop (.lookUp_error chosen)
  | ok value =>
    refine .bind (.lookUp_ok chosen) (.bind (.punctuation hbehind)
      (.bind (Reads.null.gives hahead (.blank_cons hback))
        (.bind (.punctuation hback) (.pure value))))

end LineLexer.Json.Decoder
