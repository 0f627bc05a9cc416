import LineLexer.Proofs.Json.Interruptions
import LineLexer.Proofs.Json.IgnoredValues

/-!
# Prompt decoders

The decoders of literals, numerals, values that are passed over, lists and records read no further
than they must. Behind the runs of digits in a numeral the next byte is looked at before anything is
made of them, with one exception: an exponent that is too great is a fault at once, and more digits
would only make it greater. The main statement is `Prompt.readBytes`.
-/

namespace LineLexer.Json.Decoder

variable {α σ : Type} {bytes : List UInt8}

/-! ## Literals -/

theorem Prompt.codeUnit : Prompt codeUnit := by
  refine .bind .take fun a => .bind .take fun b => .bind .take fun c => .bind .take fun d => ?_
  split
  · exact .pure _
  · exact .malformed

theorem Prompt.numberedChar : Prompt numberedChar := by
  refine .bind .codeUnit fun unit => ?_
  split
  · exact .malformed
  · split
    · refine .bind (.word _) fun _ => .bind .codeUnit fun low => ?_
      split
      · exact .pure _
      · exact .malformed
    · exact .pure _

theorem Prompt.escapeFrom (care : Care) (b : UInt8) : Prompt (escapeFrom care b) := by
  unfold Decoder.escapeFrom
  split
  · cases care
    · exact .bind .codeUnit fun _ => .pure _
    · exact .bind .numberedChar fun _ => .pure _
  · split
    · exact .pure _
    · exact .malformed

theorem Prompt.escape (care : Care) : Prompt (escape care) :=
  .bind .take fun b => .escapeFrom care b

/-- The bytes of a literal are taken up to its closing quote. The induction is on the bytes, of
which an escape takes some. -/
theorem Prompt.literalBytes (care : Care) (meant : List UInt8) :
    Prompt fun ending => literalBytes care ending meant := by
  intro bytes
  induction hlen : bytes.length using Nat.strongRecOn generalizing bytes meant with
  | _ length ih =>
    subst hlen
    cases bytes with
    | nil =>
      refine .wants fun reason => ?_
      show Decoder.literalBytes care _ meant [] = _
      rw [Decoder.literalBytes]
      rfl
    | cons b rest =>
      by_cases quote : b = ascii '"'
      · subst quote
        refine .value meant.reverse rest fun ending more => ?_
        exact literalBytes_quote _
      · by_cases backslash : b = ascii '\\'
        · subst backslash
          cases Prompt.escape care rest with
          | value unescaped later h =>
            have shorter : later.length < rest.length + 1 :=
              Nat.lt_succ_of_lt (length_of_escape (ok_of_append h .finished))
            refine (ih _ shorter (unescaped.reverse ++ meant) later rfl).step fun ending more => ?_
            exact literalBytes_escape (h ending more)
          | fault fault definite h =>
            exact .fault fault definite fun ending more => literalBytes_fault (h ending more)
          | wants h => exact .wants fun reason => literalBytes_fault (h reason)
        · by_cases control : b < ascii ' '
          · refine .fault .malformed trivial fun ending more => ?_
            show Decoder.literalBytes care _ meant (b :: (rest ++ more)) = _
            rw [Decoder.literalBytes, if_neg quote, if_neg backslash, if_pos control]
          · refine (ih _ (Nat.lt_succ_self _) (b :: meant) rest rfl).step fun ending more => ?_
            show Decoder.literalBytes care _ meant (b :: (rest ++ more)) = _
            rw [Decoder.literalBytes, if_neg quote, if_neg backslash, if_neg control]

theorem Prompt.literalText : Prompt literalText := by
  refine .bind (.literalBytes .meaning []) fun bytes => ?_
  split
  · exact .pure _
  · exact .malformed

theorem Prompt.skipLiteral : Prompt skipLiteral :=
  .bind (.literalBytes .shape []) fun _ => .pure _

/-! ## Numerals -/

theorem Greedy.digits : Greedy digits :=
  fun bytes => (Greedy.takeWhile isDigit bytes).bind_pure _

theorem Prompt.takeOneOf (chars : List Char) : Prompt (takeOneOf chars) := by
  refine .peek_bind fun b rest => ?_
  dsimp only
  split
  · exact .skip_bind (Prompt.pure _ _)
  · exact Prompt.pure _ _

theorem Greedy.someDigits (cut : Fault) : Greedy (someDigits cut) := by
  refine .peek_bind fun b rest => ?_
  dsimp only
  split
  · exact Greedy.digits _
  · exact Prompt.malformed.greedy _

theorem Greedy.wholePart (cut : Fault) : Greedy (wholePart cut) := by
  refine .peek_bind fun b rest => ?_
  dsimp only
  split
  · refine .decided (.skip_bind (Prompt.peek_bind (fun next rest => ?_) _))
    dsimp only
    split
    · exact Prompt.malformed _
    · exact Prompt.pure _ _
  · split
    · exact Greedy.digits _
    · exact Prompt.malformed.greedy _

/-- More digits make a number greater. -/
theorem le_foldl_digits (number : Nat) (run : List Nat) :
    number ≤ run.foldl (fun number digit => number * 10 + digit) number := by
  induction run generalizing number with
  | nil => exact Nat.le_refl _
  | cons digit run ih =>
    have grows : number ≤ number * 10 + digit := by omega
    exact Nat.le_trans grows (ih _)

/-- A run of digits that leaves no bytes is continued by the digits behind. -/
theorem someDigits_append {cut : Fault} {reason : String} {run : List Nat}
    (h : someDigits cut (.failed reason) bytes = .ok (run, [])) (ending : Ending)
    (more : List UInt8) :
    someDigits cut ending (bytes ++ more) =
      .ok (run ++ (more.takeWhile isDigit).map fun d => d.toNat - '0'.toNat,
        more.dropWhile isDigit) := by
  cases bytes with
  | nil => cases h
  | cons b rest =>
    change (if isDigit b then digits else fail .malformed) _ (b :: rest) = _ at h
    show (if isDigit b then digits else fail .malformed) ending (b :: rest ++ more) = _
    split at h
    · next first =>
        obtain ⟨found, left⟩ := Prod.mk.inj (Except.ok.inj h)
        have each : ∀ d ∈ b :: rest, isDigit d = true := List.dropWhile_eq_nil_iff.mp left
        rw [List.takeWhile_eq_self_iff.mpr each] at found
        rw [if_pos first]
        show Except.ok (((b :: rest ++ more).takeWhile isDigit).map _,
          (b :: rest ++ more).dropWhile isDigit) = _
        rw [List.takeWhile_append_of_pos each, List.dropWhile_append_of_pos each,
          List.map_append, found]
    · cases h

/-- An exponent that is too great for a double stays so with more digits; otherwise the next byte is
looked at. -/
theorem Prompt.exponentPart (care : Care) (cut : Fault) (isZero : Bool) :
    Prompt (exponentPart care cut isZero) := by
  refine .bind (.takeOneOf _) fun sign bytes => ?_
  cases Greedy.someDigits cut bytes with
  | decided h =>
    refine h.bind fun run rest _ => ?_
    dsimp only
    split
    · exact Prompt.malformed _
    · refine Prompt.peek_bind (fun b more => ?_) rest
      exact Prompt.pure _ _
  | all run h =>
    -- All bytes are digits of the exponent.
    by_cases great : care = .meaning ∧
        greatestExponent < run.foldl (fun number digit => number * 10 + digit) 0 ∧
        (sign == some (ascii '-')) = false ∧ isZero = false
    · refine .fault .malformed trivial fun ending more => ?_
      refine (bind_of_ok (someDigits_append (h "") ending more)).trans ?_
      rw [List.foldl_append, if_pos]
      · rfl
      · obtain ⟨meaning, exceeds, others⟩ := great
        exact ⟨meaning, Nat.lt_of_lt_of_le exceeds (le_foldl_digits _ _), others⟩
    · refine .wants fun reason => (bind_of_ok (h reason)).trans ?_
      rw [if_neg great]
      rfl

/-- Behind each run of digits the next byte is looked at. -/
theorem Prompt.numeral (care : Care) : Prompt (numeral care) := by
  refine .bind (.takeOneOf _) fun sign => (Greedy.wholePart _).bind (fun whole => ?_) fun _ _ => rfl
  refine .bind (.takeOneOf _) fun point => ?_
  simp only [ite_bind]
  refine Greedy.bind ?_ (fun fraction => ?_) fun _ _ => rfl
  · split
    · exact fun bytes => (Greedy.someDigits _ bytes).bind_pure some
    · exact (Prompt.pure none).greedy
  · refine .bind (.takeOneOf _) fun mark => ?_
    split
    · exact .bind (.bind (.exponentPart _ _ _) fun _ => .pure _) fun _ => .pure _
    · exact .pure _

theorem Prompt.number : Prompt number := by
  refine .bind (.numeral .meaning) fun n => ?_
  split
  · exact .pure _
  · exact .malformed

/-! ## Values -/

/-- A value of an unexpected kind, whose first byte is still there. -/
theorem Decides.unexpected (b : UInt8) (rest : List UInt8) :
    Decides (unexpected b) (b :: rest) := by
  unfold Decoder.unexpected
  split_ifs
  · exact Prompt.bind (.word _) (fun _ => .pure _) _
  · exact Prompt.bind (.word _) (fun _ => .pure _) _
  · exact Prompt.bind (.word _) (fun _ => .pure _) _
  · exact Prompt.bind .number (fun _ => .pure _) _
  · exact .skip_bind (Prompt.bind .literalText (fun _ => .pure _) _)
  · exact Prompt.pure _ _
  · exact Prompt.pure _ _
  · exact Prompt.malformed _

theorem Decides.wrongType (b : UInt8) (expected : String) (rest : List UInt8) :
    Decides (wrongType b expected : Decoder α) (b :: rest) :=
  (Decides.unexpected b rest).bind fun _ _ _ => Prompt.reject _ _

theorem Prompt.stringAs (expected : String) : Prompt (stringAs expected) := by
  refine .significant_bind fun b rest => ?_
  split
  · exact .skip_bind (Prompt.literalText _)
  · exact .wrongType b expected rest

theorem Prompt.string : Prompt string :=
  .stringAs _

theorem Prompt.char : Prompt char := by
  refine .bind (.stringAs _) fun text => ?_
  split
  · exact .pure _
  · exact .reject _

/-! ## Values that are passed over -/

theorem Prompt.ignoreStart (brackets : List Bracket) : Prompt (ignoreStart brackets) := by
  refine .significant_bind fun b rest => ?_
  split_ifs
  · exact .skip_bind (Prompt.pure _ _)
  · exact .skip_bind (Prompt.pure _ _)
  · exact .skip_bind (Prompt.bind .skipLiteral (fun _ => .pure _) _)
  · exact Prompt.bind (.numeral _) (fun _ => .pure _) _
  · exact Prompt.bind (.word _) (fun _ => .pure _) _
  · exact Prompt.bind (.word _) (fun _ => .pure _) _
  · exact Prompt.bind (.word _) (fun _ => .pure _) _
  · exact Prompt.malformed _

theorem Prompt.ignoreKey : Prompt ignoreKey :=
  .bind (.punctuation _) fun _ => .bind .skipLiteral fun _ => .punctuation _

theorem Prompt.ignoreItem (bracket : Bracket) (outer : List Bracket) :
    Prompt (ignoreItem bracket outer) := by
  cases bracket with
  | list => exact .ignoreStart _
  | object => exact .bind .ignoreKey fun _ => .ignoreStart _

theorem Prompt.ignoreNext (n : Nesting) : Prompt (ignoreNext n) := by
  obtain ⟨innermost, outer, isFresh⟩ := n
  have item : (Decoder.ignoreItem innermost outer).Prompt := .ignoreItem _ _
  refine .significant_bind fun b rest => ?_
  split
  · exact .skip_bind (Prompt.pure _ _)
  · cases isFresh with
    | true => cases innermost <;> exact item _
    | false => cases innermost <;> exact Prompt.bind (.punctuation _) (fun _ => item) _

theorem Prompt.ignored : Prompt ignored := by
  refine .bind (.ignoreStart []) fun place => ?_
  cases place with
  | inr _ => exact .pure _
  | inl nesting => exact .loop .ignoreNext nesting

/-! ## Lists -/

/-- Behind the search for an item a byte is left. -/
theorem Prompt.hasItem_bind {second : Bool → Decoder α} (isFirst : Bool)
    (h : ∀ another b rest, Decides (second another) (b :: rest)) :
    Prompt (hasItem isFirst >>= second) := by
  unfold Decoder.hasItem
  rw [bind_assoc]
  refine .significant_bind fun b rest => ?_
  simp only [← ite_bind]
  split_ifs
  · exact h false b rest
  · exact h true b rest
  · rw [bind_assoc]
    refine .skip_bind ?_
    rw [bind_assoc]
    refine Prompt.significant_bind (fun b rest => ?_) rest
    split
    · exact Prompt.malformed _
    · exact h true b rest
  · exact Prompt.malformed _

theorem Prompt.list {item : Decoder α} (h : item.Prompt) : Prompt (list item) := by
  have rounds (read : List α) : Prompt (listStep item read) := by
    refine .hasItem_bind _ fun another b rest => ?_
    split
    · exact h.bind (fun _ => .pure _) _
    · exact .skip_bind (Prompt.pure _ _)
  refine .significant_bind fun b rest => ?_
  split
  · exact .skip_bind (Prompt.loop rounds [] rest)
  · exact .wrongType b _ rest

/-! ## Records -/

section Records

variable {r : Record σ α}

/-- The values of all fields are read promptly. -/
def PromptFields (fields : List (Field σ)) : Prop :=
  ∀ field ∈ fields, ∀ state, (field.decode state).Prompt

theorem Prompt.field {β : Type} {d : Decoder β} (h : d.Prompt) (name : String) (get : σ → Option β)
    (put : σ → β → σ) (state : σ) : Prompt ((Field.ofValue name get put d).decode state) :=
  .bind h fun _ => .pure _

theorem Prompt.memberValue (h : PromptFields r.fields) (state : σ) (key : String) :
    Prompt (memberValue r state key) := by
  unfold Decoder.memberValue
  split
  · exact .bind (.punctuation _) fun _ => .bind .ignored fun _ => .pure _
  · next field found =>
      split
      · exact .reject _
      · exact .bind (.punctuation _) fun _ => h field (List.mem_of_find?_eq_some found) state

theorem Prompt.memberStep (h : PromptFields r.fields) (place : Bool × σ) :
    Prompt (memberStep r place) := by
  refine .significant_bind fun b rest => ?_
  split
  · exact .skip_bind (Prompt.pure _ _)
  · have member : Prompt (do
        Decoder.punctuation '"'
        let key ← Decoder.literalText
        let state ← Decoder.memberValue r place.2 key
        Pure.pure (.inl (false, state) : (Bool × σ) ⊕ σ)) :=
      .bind (.punctuation _) fun _ => .bind .literalText fun key =>
        .bind (.memberValue h _ key) fun _ => .pure _
    dsimp only
    split
    · exact Prompt.bind (.punctuation _) (fun _ => member) _
    · exact member _

theorem Prompt.members (h : PromptFields r.fields) : Prompt (members r) := by
  refine .bind (.loop (.memberStep h) _) fun state => ?_
  split
  · exact .pure _
  · exact .reject _

theorem Prompt.positional {fields : List (Field σ)} (h : PromptFields fields) (state : σ)
    (count : Nat) : Prompt (positional state count fields) := by
  induction fields generalizing state count with
  | nil => exact .pure _
  | cons field fields ih =>
    obtain ⟨here, others⟩ := List.forall_mem_cons.mp h
    refine .hasItem_bind _ fun another b rest => ?_
    split
    · exact Prompt.bind (here state) (fun later => ih others later _) _
    · exact Prompt.pure _ _

theorem Prompt.elements (h : PromptFields r.fields) : Prompt (elements r) := by
  refine .bind (.positional h _ _) fun place => ?_
  dsimp only
  split
  · exact .bind (.punctuation _) fun _ => .pure _
  · exact .reject _

theorem Prompt.record (h : PromptFields r.fields) : Prompt (record r) := by
  refine .significant_bind fun b rest => ?_
  split
  · exact .skip_bind (Prompt.members h _)
  · split
    · exact .skip_bind (Prompt.elements h _)
    · exact .wrongType b _ rest

end Records

/-! ## Documents -/

theorem Prompt.document {d : Decoder α} (h : d.Prompt) : Prompt d.document := by
  refine .bind h fun value => Greedy.blanks.bind (fun _ => ?_) fun _ _ => rfl
  exact .peek_bind fun b rest => Prompt.malformed _

/-- Behind a value, a source that has failed does not show that the document is over. -/
theorem document_failed_ne_ok (d : Decoder α) (reason : String) (bytes : List UInt8)
    (taken : α × List UInt8) : d.document (.failed reason) bytes ≠ .ok taken := by
  unfold Decoder.document
  cases found : d (.failed reason) bytes with
  | error fault =>
    rw [bind_of_error found]
    exact nofun
  | ok read =>
    obtain ⟨value, rest⟩ := read
    have passed : blanks (.failed reason) rest = .ok ((), rest.dropWhile isBlank) := rfl
    rw [bind_of_ok found, bind_of_ok passed]
    cases rest.dropWhile isBlank <;> exact nofun

/-- A document from a source that has failed is not accepted. Either the failure is its fault, or
there is a fault in the bytes, and that is the fault of every document that starts with them. -/
theorem Prompt.readBytes {d : Decoder α} (h : d.Prompt) (bytes : List UInt8) :
    (∀ reason, d.readBytes (.failed reason) bytes = .error (.interrupted reason)) ∨
      ∃ fault : Fault, fault.IsDefinite ∧
        ∀ ending more, d.readBytes ending (bytes ++ more) = .error fault := by
  unfold Decoder.readBytes
  cases h.document bytes with
  | wants h =>
    refine .inl fun reason => ?_
    rw [h]
    rfl
  | fault fault definite h =>
    refine .inr ⟨fault, definite, fun ending more => ?_⟩
    rw [h]
    rfl
  | value value rest h => exact absurd (h (.failed "") []) (document_failed_ne_ok d _ _ _)

end LineLexer.Json.Decoder
