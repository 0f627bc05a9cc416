import LineLexer.Proofs.Json.Lists

/-!
# Values that do not fit

Whatever value of the grammar a decoder meets, what it makes of it depends on that value alone: it
is read to its end, or the fault is the same wherever the value stands. So a value has a definite
result also where it is of the wrong kind, or where it is a literal that denotes no text.
-/

namespace LineLexer.Json.Decoder

variable {α : Type} {ending : Ending} {text rest body : List Char}

/-! ## Literals -/

/-- A fault in an escape by number is the fault of its literal. -/
theorem literalBytes_malformed {meant : List UInt8} {digits : List Char}
    (h : numberedChar.Gives ending (digits ++ (body ++ '"' :: rest)) (.error .malformed) rest) :
    literalBytes .meaning ending meant (utf8 ('\\' :: 'u' :: digits ++ body ++ '"' :: rest)) =
      .error .malformed := by
  have hback : IsAscii '\\' := by decide
  have stops : (escape .meaning).Gives ending ('u' :: (digits ++ (body ++ '"' :: rest)))
      (.error .malformed) rest := by
    refine .bind .take ?_
    unfold escapeFrom
    rw [if_pos rfl]
    exact .stop h
  simp only [List.append_assoc, List.cons_append]
  rw [hback.utf8_cons]
  exact literalBytes_fault stops

/-- A unit that closes a pair may not come first. -/
theorem Gives.numberedChar_low {digits tail : List Char} {unit : Nat} (h : SpellsUnit digits unit)
    (closes : isLowUnit unit = true) :
    numberedChar.Gives ending (digits ++ rest) (.error .malformed) tail := by
  refine .bind (.codeUnit h) ?_
  simp only [closes, if_true]
  exact .fail

/-- A character that stands for itself is not a backslash. -/
theorem Gives.word_plain {c : Char} {chars tail : List Char} (h : IsPlain c) :
    (Decoder.word ('\\' :: chars)).Gives ending (c :: text) (.error .malformed) tail := by
  have plain := isPlainByte_of_isPlain h
  unfold Gives
  rw [utf8_cons]
  cases bytes : String.utf8EncodeChar c with
  | nil => exact absurd bytes String.utf8EncodeChar_ne_nil
  | cons b more =>
    have other : b ≠ ascii '\\' := (plain b (by simp [bytes])).2.1
    show (if b = ascii '\\' then Decoder.word chars else Decoder.fail .malformed) ending
      (more ++ utf8 text) = _
    rw [if_neg other]
    rfl

/-- Behind a unit that opens a pair there must be an escape with one that closes it. -/
theorem Gives.numberedChar_high {digits tail : List Char} {unit : Nat} (h : SpellsUnit digits unit)
    (opens : isHighUnit unit = true)
    (alone : ∀ {low : List Char} {second : Nat} {more : List Char}, SpellsUnit low second →
      body = '\\' :: 'u' :: (low ++ more) → isLowUnit second = false)
    (hbody : IsBody body) :
    numberedChar.Gives ending (digits ++ (body ++ '"' :: rest)) (.error .malformed) tail := by
  refine .bind (.codeUnit h) ?_
  simp only [isLowUnit_of_isHighUnit opens, opens, Bool.false_eq_true, if_false, if_true]
  cases hbody with
  | nil =>
    refine .stop (.bind .take ?_)
    rw [if_neg (by decide)]
    exact .fail
  | @cons _ more piece _ =>
    cases piece with
    | plain plain => exact .stop (.word_plain plain)
    | @short mark c short =>
      obtain ⟨hmark, other, _⟩ := escapedChar?_of_mem short
      refine .stop (.bind .take ?_)
      rw [if_pos rfl]
      refine .bind (.take hmark) ?_
      rw [if_neg other]
      exact .fail
    | @unit low second hlow =>
      have mark : (Decoder.word ['\\', 'u']).Gives ending
          ('\\' :: 'u' :: low ++ more ++ '"' :: rest) (.ok ()) (low ++ (more ++ '"' :: rest)) := by
        rw [List.append_assoc]
        exact .word
      refine .bind mark (.bind (.codeUnit hlow) ?_)
      rw [alone hlow rfl, if_neg Bool.false_ne_true]
      exact .fail

/-- A valid number is that of its character. -/
theorem toNat_ofNat {n : Nat} (h : n.isValidChar) : (Char.ofNat n).toNat = n := by
  unfold Char.ofNat
  rw [dif_pos h]
  rfl

/-- The character of a unit that is no half of a pair. -/
theorem toNat_ofNat_unit {unit : Nat} (less : unit < 0x10000) (noHigh : isHighUnit unit = false)
    (noLow : isLowUnit unit = false) : (Char.ofNat unit).toNat = unit := by
  simp only [isHighUnit, isLowUnit, Bool.and_eq_false_iff, decide_eq_false_iff_not] at noHigh noLow
  refine toNat_ofNat ?_
  unfold Nat.isValidChar
  omega

/-- The character of a pair of units. -/
theorem exists_char_of_pair {first second : Nat} (opens : isHighUnit first = true)
    (closes : isLowUnit second = true) :
    ∃ c : Char, 0x10000 ≤ c.toNat ∧ 0xD800 + (c.toNat - 0x10000) / 0x400 = first ∧
      0xDC00 + (c.toNat - 0x10000) % 0x400 = second := by
  simp only [isHighUnit, isLowUnit, Bool.and_eq_true, decide_eq_true_eq] at opens closes
  have valid : ((first - 0xD800) * 0x400 + (second - 0xDC00) + 0x10000).isValidChar := by
    unfold Nat.isValidChar
    omega
  refine ⟨Char.ofNat ((first - 0xD800) * 0x400 + (second - 0xDC00) + 0x10000), ?_⟩
  rw [toNat_ofNat valid]
  omega

/-- What stands between the quotes of a literal denotes a text, or it makes the document
malformed. -/
def Definite (body : List Char) : Prop :=
  (∃ text, Denotes body text) ∨ ∀ ending meant rest,
    literalBytes .meaning ending meant (utf8 (body ++ '"' :: rest)) = .error .malformed

/-- One more character in front. -/
theorem Definite.cons {spelling : List Char} {c : Char} (head : SpellsChar spelling c)
    (tail : Definite body) : Definite (spelling ++ body) := by
  obtain ⟨text, denotes⟩ | malformed := tail
  · exact .inl ⟨c :: text, .cons head denotes⟩
  · refine .inr fun ending meant rest => ?_
    rw [List.append_assoc, literalBytes_spelling head]
    exact malformed _ _ _

/-- An escape by number in front is part of a character, or makes the document malformed. -/
theorem Definite.unit {digits : List Char} {unit : Nat} (h : SpellsUnit digits unit)
    (hbody : IsBody body) (tail : Definite body)
    (pairTail : ∀ {low : List Char} {second : Nat} {more : List Char}, SpellsUnit low second →
      body = '\\' :: 'u' :: (low ++ more) → Definite more) :
    Definite ('\\' :: 'u' :: digits ++ body) := by
  cases closes : isLowUnit unit with
  | true =>
    exact .inr fun ending meant rest => literalBytes_malformed (.numberedChar_low h closes)
  | false =>
    cases opens : isHighUnit unit with
    | false =>
      have number := toNat_ofNat_unit h.lt opens closes
      exact tail.cons (.unit (number.symm ▸ h))
    | true =>
      by_cases paired : ∃ low second more, SpellsUnit low second ∧
          body = '\\' :: 'u' :: (low ++ more) ∧ isLowUnit second = true
      · obtain ⟨low, second, more, hlow, rfl, closes⟩ := paired
        obtain ⟨c, large, rfl, rfl⟩ := exists_char_of_pair opens closes
        have whole := (pairTail hlow rfl).cons (.pair large h hlow)
        simpa using whole
      · refine .inr fun ending meant rest => literalBytes_malformed
          (.numberedChar_high h opens (fun {low second more} hlow same => ?_) hbody)
        rw [← Bool.not_eq_true]
        exact fun closes => paired ⟨low, second, more, hlow, same, closes⟩

/-- What stands behind an escape by number has the shape of a body. -/
theorem IsBody.of_unit {low more : List Char} {second : Nat} (hlow : SpellsUnit low second)
    (h : IsBody ('\\' :: 'u' :: (low ++ more))) : IsBody more := by
  generalize same : '\\' :: 'u' :: (low ++ more) = body at h
  cases h with
  | nil => cases same
  | @cons piece tail head htail =>
    cases head with
    | plain plain =>
      cases same
      exact absurd rfl plain.2.2
    | short short =>
      cases same
      exact absurd rfl (escapedChar?_of_mem short).2.1
    | unit hdigits =>
      have four {digits : List Char} {unit : Nat} (h : SpellsUnit digits unit) :
          digits.length = 4 := by
        cases h
        rfl
      simp only [List.cons_append, List.cons.injEq, true_and] at same
      obtain ⟨_, rfl⟩ := List.append_inj same ((four hlow).trans (four hdigits).symm)
      exact htail

/-- What stands between the quotes of a literal is definite. The induction is on the length, since
a pair of units takes two escapes at once. -/
theorem definite (h : IsBody body) : Definite body := by
  induction hlen : body.length using Nat.strongRecOn generalizing body with
  | _ length ih =>
    subst hlen
    cases h with
    | nil => exact .inl ⟨[], .nil⟩
    | @cons piece more head tail =>
      have nonempty : 0 < piece.length := by cases head <;> simp
      have later : Definite more := ih more.length (by simp [nonempty]) tail rfl
      cases head with
      | plain h => exact later.cons (.plain h)
      | short h => exact later.cons (.short h)
      | unit h =>
        refine .unit h tail later fun {low second rest} hlow same => ?_
        subst same
        exact ih rest.length (by simp; omega) (IsBody.of_unit hlow tail) rfl

/-- A literal has a definite text or fault. -/
theorem exists_literalText (h : IsBody body) :
    ∃ result, ∀ {ending : Ending} {rest : List Char},
      literalText.Gives ending (body ++ '"' :: rest) result rest := by
  obtain ⟨text, denotes⟩ | malformed := definite h
  · refine ⟨.ok (String.ofList text), .literalText ?_⟩
    rwa [String.toList_ofList]
  · exact ⟨.error .malformed, .stop (malformed _ [] _)⟩

/-! ## Values of a wrong kind -/

/-- Which kind of value a text is shows from its first character on. -/
theorem exists_unexpected (h : IsValue text) :
    ∃ result, ∀ {ending : Ending} {rest : List Char} {c : Char} {more : List Char},
      text = c :: more → Ends ending rest →
      ∃ tail, (unexpected (ascii c)).Gives ending (text ++ rest) result tail := by
  cases h with
  | word h =>
    simp only [words, List.mem_cons, List.not_mem_nil, or_false] at h
    obtain rfl | rfl | rfl := h
    · refine ⟨.ok .null, fun {ending rest c more} same _ => ⟨rest, ?_⟩⟩
      cases same
      exact .bind .word (.pure _)
    · refine ⟨.ok (.boolean true), fun {ending rest c more} same _ => ⟨rest, ?_⟩⟩
      cases same
      exact .bind .word (.pure _)
    · refine ⟨.ok (.boolean false), fun {ending rest c more} same _ => ⟨rest, ?_⟩⟩
      cases same
      exact .bind .word (.pure _)
  | numeral h =>
    obtain ⟨found, taken⟩ := exists_number h
    obtain ⟨first, _, rfl, hfirst⟩ := h.exists_cons
    refine ⟨found.map Number.found, fun {ending rest c more} same hrest => ⟨rest, ?_⟩⟩
    cases same
    have noWord : ∀ c ∈ '-' :: digitChars, ascii c ≠ ascii 'n' ∧ ascii c ≠ ascii 't' ∧
        ascii c ≠ ascii 'f' ∧ startsNumeral (ascii c) = true := by decide
    obtain ⟨noNull, noTrue, noFalse, starts⟩ := noWord first hfirst
    unfold unexpected
    rw [if_neg noNull, if_neg noTrue, if_neg noFalse, if_pos starts]
    cases found with
    | error fault => exact .stop (taken.gives hrest)
    | ok value => exact .bind (taken.gives hrest) (.pure _)
  | @literal body h =>
    obtain ⟨found, read⟩ := exists_literalText h
    refine ⟨found.map Found.string, fun {ending rest c more} same _ => ⟨rest, ?_⟩⟩
    cases same
    rw [literal_append]
    refine .bind .skip ?_
    cases found with
    | error fault => exact .stop read
    | ok text => exact .bind read (.pure _)
  | list h _ =>
    refine ⟨.ok .sequence, fun {ending rest c more} same _ => ?_⟩
    cases h <;> cases same <;> exact ⟨_, .pure _⟩
  | object h _ _ =>
    obtain ⟨items, h, _⟩ := h
    refine ⟨.ok .map, fun {ending rest c more} same _ => ?_⟩
    cases h <;> cases same <;> exact ⟨_, .pure _⟩

/-- A value of an unexpected kind has a definite fault. -/
theorem exists_wrongType (h : IsValue text) (expected : String) :
    ∃ fault, ∀ {ending : Ending} {rest tail : List Char} {c : Char} {more : List Char},
      text = c :: more → Ends ending rest →
      (wrongType (ascii c) expected : Decoder α).Gives ending (text ++ rest) (.error fault)
        tail := by
  obtain ⟨result, kind⟩ := exists_unexpected h
  cases result with
  | error fault =>
    refine ⟨fault, fun {ending rest tail c more} same hrest => ?_⟩
    obtain ⟨_, gives⟩ := kind same hrest
    exact .stop gives.fault_irrel
  | ok found =>
    refine ⟨.mismatch (.wrongType found expected), fun {ending rest tail c more} same hrest => ?_⟩
    obtain ⟨_, gives⟩ := kind same hrest
    exact .bind gives .reject

/-- A decoder makes something definite of every value. -/
def Settles (d : Decoder α) : Prop :=
  ∀ {text : List Char}, IsValue text → ∃ result, d.Reads text result

/-- Another kind of value than the expected one settles. -/
theorem exists_reads_wrongType {p : UInt8 → Prop} [DecidablePred p] {accept : Decoder α} {c : Char}
    {more : List Char} (expected : String) (h : IsValue text) (same : text = c :: more)
    (other : ¬p (ascii c)) :
    ∃ result, Reads (do
      let b ← significant
      if p b then accept else wrongType b expected) text result := by
  obtain ⟨fault, stops⟩ := exists_wrongType (α := α) h expected
  refine ⟨.error fault, .of_significant h.startsValue same fun hrest => ?_⟩
  rw [if_neg other]
  exact stops same hrest

/-! ## Decoders -/

/-- A natural number is wanted. -/
theorem settles_natural : Settles natural := by
  intro text h
  obtain ⟨c, more, same, kind⟩ := h.kinds
  by_cases starts : startsNumeral (ascii c) = true
  · have noWord : ∀ c ∈ ['n', 't', 'f'], ¬startsNumeral (ascii c) = true := by decide
    have numeral : IsNumeral text := by
      obtain ⟨hc, _⟩ | ⟨_, h⟩ | ⟨rfl, _⟩ | ⟨rfl, _⟩ | ⟨rfl, _⟩ := kind
      · exact absurd starts (noWord c hc)
      · exact h
      all_goals exact absurd starts (by decide)
    obtain ⟨found, taken⟩ := exists_number numeral
    cases found with
    | error fault =>
      exact ⟨_, .of_accepted h.startsValue same starts fun hrest => .stop (taken.gives hrest)⟩
    | ok value =>
      cases value with
      | natural value =>
        exact ⟨_, .of_accepted h.startsValue same starts fun hrest =>
          .bind (taken.gives hrest) (.pure value)⟩
      | negative magnitude =>
        exact ⟨_, .of_accepted h.startsValue same starts fun hrest =>
          .bind (taken.gives hrest) .reject⟩
      | float value =>
        exact ⟨_, .of_accepted h.startsValue same starts fun hrest =>
          .bind (taken.gives hrest) .reject⟩
  · exact exists_reads_wrongType naturalName h same starts

/-- A null is wanted. -/
theorem settles_null : Settles null := by
  intro text h
  obtain ⟨c, more, same, kind⟩ := h.kinds
  by_cases starts : ascii c = ascii 'n'
  · have noWord : ∀ c ∈ '-' :: digitChars, ascii c ≠ ascii 'n' := by decide
    have isNull : text = nullWord := by
      obtain ⟨_, hword⟩ | ⟨hc, _⟩ | ⟨rfl, _⟩ | ⟨rfl, _⟩ | ⟨rfl, _⟩ := kind
      · simp only [words, List.mem_cons, List.not_mem_nil, or_false] at hword
        obtain rfl | rfl | rfl := hword
        · rfl
        · cases same
          exact absurd starts (by decide)
        · cases same
          exact absurd starts (by decide)
      · exact absurd starts (noWord c hc)
      all_goals exact absurd starts (by decide)
    exact ⟨.ok (), isNull ▸ .null⟩
  · exact exists_reads_wrongType "unit" h same starts

/-- Results exist for all items if one exists for each. -/
theorem exists_forall₂ {β γ : Type} {R : β → γ → Prop} {items : List β}
    (h : ∀ item ∈ items, ∃ result, R item result) : ∃ results, List.Forall₂ R items results := by
  induction items with
  | nil => exact ⟨[], .nil⟩
  | cons item items ih =>
    obtain ⟨result, head⟩ := h item (by simp)
    obtain ⟨results, tail⟩ := ih fun other hother => h other (by simp [hother])
    exact ⟨result :: results, .cons head tail⟩

/-- A list is wanted whose items settle. -/
theorem Settles.list {d : Decoder α} (hd : Settles d) : Settles (list d) := by
  intro text h
  obtain ⟨c, more, same, kind⟩ := h.kinds
  by_cases starts : ascii c = ascii '['
  · have noList : ∀ c ∈ ['n', 't', 'f'] ++ '-' :: digitChars, ascii c ≠ ascii '[' := by decide
    obtain ⟨hc, _⟩ | ⟨hc, _⟩ | ⟨rfl, _⟩ | ⟨rfl, items, hlist, each⟩ | ⟨rfl, _⟩ := kind
    · exact absurd starts (noList c (List.mem_append_left _ hc))
    · exact absurd starts (noList c (List.mem_append_right _ hc))
    · exact absurd starts (by decide)
    · obtain ⟨results, reads⟩ := exists_forall₂ fun item hitem => hd (each item hitem)
      exact ⟨_, .list hlist reads⟩
    · exact absurd starts (by decide)
  · exact exists_reads_wrongType "a sequence" h same starts

/-- What stands behind the key of an object that gives a value of a table. -/
theorem exists_variant_member (value : α) {front back after tail member : List Char}
    {next : Char} (hfront : Blank front) (hback : Blank back) (hafter : Blank after)
    (hmember : IsValue member) (hnext : next = '\x7d' ∧ tail = [] ∨ next = ',') :
    ∃ result, ∀ {ending : Ending} {rest : List Char}, Gives (do
      punctuation ':'
      null
      punctuation '\x7d'
      pure value) ending (front ++ ':' :: (back ++ (member ++ (after ++ next :: (tail ++ rest)))))
      result rest := by
  have hends : next ∈ [',', ']', '\x7d'] := by
    obtain ⟨rfl, _⟩ | rfl := hnext <;> decide
  obtain ⟨isNull, reads⟩ := settles_null hmember
  cases isNull with
  | error fault =>
    exact ⟨.error fault, .bind (.punctuation hfront)
      (.stop (reads.gives hback (.blank_cons hafter hends)).fault_irrel)⟩
  | ok _ =>
    obtain ⟨rfl, rfl⟩ | rfl := hnext
    · exact ⟨.ok value, .bind (.punctuation hfront)
        (.bind (reads.gives hback (.blank_cons hafter hends))
          (.bind (.punctuation hafter) (.pure value)))⟩
    · exact ⟨.error .malformed, .bind (.punctuation hfront)
        (.bind (reads.gives hback (.blank_cons hafter hends))
          (.stop (.punctuation_other hafter (by decide) (by decide))))⟩

/-- What stands behind the brace and the first quote of an object that gives a value of a table. -/
theorem exists_variant_object (table : List (String × α)) {front back after tail member : List Char}
    {next : Char} (hbody : IsBody body) (hfront : Blank front) (hback : Blank back)
    (hafter : Blank after) (hmember : IsValue member)
    (hnext : next = '\x7d' ∧ tail = [] ∨ next = ',') :
    ∃ result, ∀ {ending : Ending} {rest : List Char}, Gives (do
      let key ← literalText
      let value ← lookUp table key
      punctuation ':'
      null
      punctuation '\x7d'
      pure value) ending
      (body ++ '"' :: (front ++ ':' :: (back ++ (member ++ (after ++ next :: (tail ++ rest))))))
      result rest := by
  obtain ⟨found, read⟩ := exists_literalText hbody
  cases found with
  | error fault => exact ⟨.error fault, .stop read⟩
  | ok key =>
    cases chosen : choose table key with
    | error fault => exact ⟨.error fault, .bind read (.stop (.lookUp_error chosen))⟩
    | ok value =>
      obtain ⟨result, reads⟩ := exists_variant_member value hfront hback hafter hmember hnext
      exact ⟨result, .bind read (.bind (.lookUp_ok chosen) reads)⟩

/-- A literal that gives a value of a table. -/
theorem exists_lookUp (table : List (String × α)) (hbody : IsBody body) :
    ∃ result, ∀ {ending : Ending} {rest : List Char}, Gives (do
      let key ← literalText
      lookUp table key) ending (body ++ '"' :: rest) result rest := by
  obtain ⟨found, read⟩ := exists_literalText hbody
  cases found with
  | error fault => exact ⟨.error fault, .stop read⟩
  | ok key => exact ⟨choose table key, .bind read (.lookUp table key)⟩

/-- A value of a table is wanted. -/
theorem settles_variant (table : List (String × α)) : Settles (variant table) := by
  intro text h
  obtain ⟨c, more, same, kind⟩ := h.kinds
  have malformed (noQuote : ascii c ≠ ascii '"') (noBrace : ascii c ≠ ascii '\x7b') :
      ∃ result, (variant table).Reads text result := by
    refine ⟨.error .malformed, .of_significant h.startsValue same fun _ => ?_⟩
    rw [if_neg noQuote, if_neg noBrace]
    exact .fail
  have others : ∀ c ∈ ['n', 't', 'f'] ++ '-' :: digitChars, ascii c ≠ ascii '"' ∧
      ascii c ≠ ascii '\x7b' := by decide
  obtain ⟨hc, _⟩ | ⟨hc, _⟩ | ⟨rfl, body, hbody, rfl⟩ | ⟨rfl, _⟩ |
    ⟨rfl, members, hobject, keys, values⟩ := kind
  · obtain ⟨noQuote, noBrace⟩ := others c (List.mem_append_left _ hc)
    exact malformed noQuote noBrace
  · obtain ⟨noQuote, noBrace⟩ := others c (List.mem_append_right _ hc)
    exact malformed noQuote noBrace
  · obtain ⟨result, looksUp⟩ := exists_lookUp table hbody
    refine ⟨result, .of_accepted h.startsValue same rfl fun _ => ?_⟩
    rw [literal_append]
    exact .bind .skip looksUp
  · exact malformed (by decide) (by decide)
  · obtain ⟨items, hitems, hmembers⟩ := hobject
    obtain ⟨between, hbetween, rfl⟩ |
      ⟨before, item, after, next, tail, hbefore, hafter, hitem, rfl, hnext⟩ := hitems.first
    · refine ⟨.error .malformed, h.startsValue, fun hbefore _ => ?_⟩
      rw [List.cons_append, List.append_assoc]
      exact .variant_other table hbefore hbetween (by decide) (by decide)
    · obtain ⟨⟨key, value⟩, hmember, hparts⟩ := exists_isMember hmembers hitem
      cases hparts with | @parts _ front back _ hfront hback
      obtain ⟨result, reads⟩ := exists_variant_object table (keys _ hmember) hfront hback hafter
        (values _ hmember) hnext
      refine ⟨result, h.startsValue, fun hfirst _ => ?_⟩
      simp only [List.append_assoc, List.cons_append]
      exact .variant_key hfirst hbefore reads

end LineLexer.Json.Decoder
