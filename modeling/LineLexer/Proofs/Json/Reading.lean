import LineLexer.Json.Aggregate
import LineLexer.Proofs.Json.Grammar

/-!
# Reading a text

`Decoder.Gives` says what a decoder makes of the text in front of it and what it leaves, and
`Decoder.Reads` what it makes of the text of a value wherever that text may stand in a document.
A decoder is followed through its steps by `Gives.bind`, one lemma for each primitive.
-/

namespace LineLexer.Json

/-! ## Bytes of a text -/

/-- The bytes of a text. -/
def utf8 (text : List Char) : List UInt8 :=
  text.flatMap String.utf8EncodeChar

/-- A text without characters has no bytes. -/
@[simp]
theorem utf8_nil : utf8 [] = [] :=
  rfl

/-- The bytes of two texts in a row. -/
@[simp]
theorem utf8_append (front back : List Char) : utf8 (front ++ back) = utf8 front ++ utf8 back :=
  List.flatMap_append

/-- The bytes of a text are those of its first character and those of the others. -/
theorem utf8_cons (c : Char) (text : List Char) :
    utf8 (c :: text) = String.utf8EncodeChar c ++ utf8 text :=
  List.flatMap_cons

/-- A character of one byte. -/
def IsAscii (c : Char) : Prop :=
  c.toNat < 128

/-- Whether a character has one byte is a comparison. -/
instance (c : Char) : Decidable (IsAscii c) :=
  inferInstanceAs (Decidable (_ < _))

/-- The only byte of an ASCII character. -/
theorem IsAscii.encode_eq {c : Char} (h : IsAscii c) : String.utf8EncodeChar c = [ascii c] := by
  apply String.utf8EncodeChar_eq_singleton
  apply Char.utf8Size_eq_one_iff.mpr
  rw [UInt32.le_iff_toNat_le]
  exact Nat.le_of_lt_succ h

/-- An ASCII character is one byte in front of those of the rest. -/
theorem IsAscii.utf8_cons {c : Char} (h : IsAscii c) (text : List Char) :
    utf8 (c :: text) = ascii c :: utf8 text := by
  rw [Json.utf8_cons, h.encode_eq]
  rfl

/-- A text of ASCII characters has one byte for each. -/
theorem utf8_eq_map {text : List Char} (h : ∀ c ∈ text, IsAscii c) :
    utf8 text = text.map ascii := by
  induction text with
  | nil => rfl
  | cons c text ih =>
    rw [(h c (by simp)).utf8_cons, ih fun d hd => h d (by simp [hd]), List.map_cons]

/-- What is left of a text has fewer bytes than the text if a character has been taken. -/
theorem length_utf8_lt {c : Char} (front text : List Char) :
    (utf8 text).length < (utf8 (c :: (front ++ text))).length := by
  have size := String.length_utf8EncodeChar c
  have pos := c.utf8Size_pos
  simp only [Json.utf8_cons, utf8_append, List.length_append]
  omega

/-- Text `middle` has fewer bytes than `text`. -/
def Shorter (middle text : List Char) : Prop :=
  (utf8 middle).length < (utf8 text).length

/-- What stands behind a text that is not empty is shorter than both. -/
theorem Shorter.of_ne_nil {front : List Char} (h : front ≠ []) (text : List Char) :
    Shorter text (front ++ text) := by
  cases front with
  | nil => exact absurd rfl h
  | cons c front => exact length_utf8_lt front text

/-- More text in front makes a text longer. -/
theorem Shorter.append_left {middle text : List Char} (h : Shorter middle text)
    (front : List Char) : Shorter middle (front ++ text) := by
  unfold Shorter at *
  rw [utf8_append, List.length_append]
  omega

/-! ## What a decoder gives -/

namespace Decoder

variable {α β σ : Type} {ending : Ending} {text middle rest before : List Char} {fault : Fault}

/-- In front of `text` a decoder gives `result`, and leaves `rest` if it gives a value. -/
def Gives (d : Decoder α) (ending : Ending) (text : List Char) (result : Except Fault α)
    (rest : List Char) : Prop :=
  d ending (utf8 text) = result.map fun value => (value, utf8 rest)

/-- Reading nothing leaves everything. -/
theorem Gives.pure (value : α) : Gives (pure value) ending text (.ok value) text :=
  rfl

/-- Stopping needs no text. -/
theorem Gives.fail : Gives (fail fault : Decoder α) ending text (.error fault) rest :=
  rfl

/-- Refusing a value needs no text. -/
theorem Gives.reject {cause : Mismatch} :
    Gives (reject cause : Decoder α) ending text (.error (.mismatch cause)) rest :=
  rfl

/-- The second decoder goes on where the first one has stopped. -/
theorem Gives.bind {first : Decoder α} {second : α → Decoder β} {value : α}
    {result : Except Fault β} (hfirst : first.Gives ending text (.ok value) middle)
    (hsecond : (second value).Gives ending middle result rest) :
    (first >>= second).Gives ending text result rest := by
  show first.andThen second ending (utf8 text) = _
  unfold andThen
  rw [show first ending (utf8 text) = .ok (value, utf8 middle) from hfirst]
  exact hsecond

/-- A fault of the first decoder is the fault of both. -/
theorem Gives.stop {first : Decoder α} {second : α → Decoder β}
    (h : first.Gives ending text (.error fault) rest) :
    (first >>= second).Gives ending text (.error fault) rest := by
  show first.andThen second ending (utf8 text) = _
  unfold andThen
  rw [show first ending (utf8 text) = .error fault from h]
  rfl

/-- What is left does not matter behind a fault. -/
theorem Gives.fault_irrel {d : Decoder α} (h : d.Gives ending text (.error fault) middle) :
    d.Gives ending text (.error fault) rest :=
  h

/-! ## Primitives -/

variable {c : Char}

/-- A character is passed over. -/
theorem Gives.skip (hc : IsAscii c := by decide) : skip.Gives ending (c :: rest) (.ok ()) rest := by
  unfold Gives
  rw [hc.utf8_cons]
  rfl

/-- A character is taken. -/
theorem Gives.take (hc : IsAscii c := by decide) :
    take.Gives ending (c :: rest) (.ok (ascii c)) rest := by
  unfold Gives
  rw [hc.utf8_cons]
  rfl

/-- A character is looked at. -/
theorem Gives.look (hc : IsAscii c) :
    look.Gives ending (c :: rest) (.ok (ascii c)) (c :: rest) := by
  unfold Gives
  rw [hc.utf8_cons]
  rfl

/-- A character shows that the document goes on. -/
theorem Gives.peek (hc : IsAscii c) :
    peek.Gives ending (c :: rest) (.ok (some (ascii c))) (c :: rest) := by
  unfold Gives
  rw [hc.utf8_cons]
  rfl

/-- The end of a document that is over. -/
theorem Gives.peek_nil : Decoder.peek.Gives .finished [] (.ok none) [] :=
  rfl

/-- A run of characters of a kind is taken up to the first one of another kind. -/
theorem Gives.takeWhile {p : UInt8 → Bool} {run : List Char}
    (hrun : ∀ c ∈ run, IsAscii c ∧ p (ascii c) = true)
    (hrest : ∀ c ∈ rest.head?, IsAscii c ∧ p (ascii c) = false) :
    (takeWhile p).Gives ending (run ++ rest) (.ok (run.map ascii)) rest := by
  have front : utf8 run = run.map ascii := utf8_eq_map fun c hc => (hrun c hc).1
  have each : ∀ b ∈ run.map ascii, p b = true := by
    intro b hb
    obtain ⟨c, hc, rfl⟩ := List.mem_map.mp hb
    exact (hrun c hc).2
  have behind : (utf8 rest).takeWhile p = [] ∧ (utf8 rest).dropWhile p = utf8 rest := by
    cases rest with
    | nil => exact ⟨rfl, rfl⟩
    | cons c rest =>
      obtain ⟨hc, other⟩ := hrest c rfl
      rw [hc.utf8_cons]
      exact ⟨List.takeWhile_cons_of_neg (by simp [other]),
        List.dropWhile_cons_of_neg (by simp [other])⟩
  show Except.ok _ = _
  rw [utf8_append, front, List.takeWhile_append_of_pos each, List.dropWhile_append_of_pos each,
    behind.1, behind.2, List.append_nil]
  rfl

/-- A character of one byte that is no blank. -/
def IsSolid (c : Char) : Prop :=
  IsAscii c ∧ isBlank (ascii c) = false

/-- Whether a character is solid can be looked at. -/
instance (c : Char) : Decidable (IsSolid c) :=
  inferInstanceAs (Decidable (_ ∧ _))

/-- Values start with solid characters. -/
theorem isSolid_of_mem_startChars (hc : c ∈ startChars) : IsSolid c := by
  revert c
  decide

/-- Blanks are passed over, up to the end of the document or a solid character. -/
theorem Gives.blanks (hbefore : Blank before) (hrest : ∀ c ∈ rest.head?, IsSolid c) :
    blanks.Gives ending (before ++ rest) (.ok ()) rest := by
  have each : ∀ c ∈ blankChars, IsAscii c ∧ isBlank (ascii c) = true := by decide
  exact .bind (.takeWhile (fun c hc => each c (hbefore c hc)) hrest) (.pure ())

/-- The solid character behind blanks is looked at. -/
theorem Gives.significant (hbefore : Blank before) (hc : IsSolid c := by decide) :
    significant.Gives ending (before ++ c :: rest) (.ok (ascii c)) (c :: rest) :=
  .bind (.blanks hbefore (by simpa using hc)) (.look hc.1)

/-- The wanted punctuation mark behind blanks is taken. -/
theorem Gives.punctuation (hbefore : Blank before) (hc : IsSolid c := by decide) :
    (punctuation c).Gives ending (before ++ c :: rest) (.ok ()) rest := by
  refine .bind (.significant hbefore hc) ?_
  rw [if_pos rfl]
  exact .skip hc.1

/-- Another character in the place of a punctuation mark makes the document malformed. -/
theorem Gives.punctuation_other {wanted : Char} (hbefore : Blank before) (hc : IsSolid c)
    (other : ascii c ≠ ascii wanted) :
    (Decoder.punctuation wanted).Gives ending (before ++ c :: middle) (.error .malformed) rest := by
  refine .bind (.significant hbefore hc) ?_
  rw [if_neg other]
  exact .fail

/-- A word is taken. -/
theorem Gives.word {chars : List Char} (each : ∀ c ∈ chars, IsAscii c := by decide) :
    (word chars).Gives ending (chars ++ rest) (.ok ()) rest := by
  induction chars with
  | nil => exact .pure ()
  | cons c chars ih =>
    refine .bind (.take (each c (by simp))) ?_
    rw [if_pos rfl]
    exact ih fun d hd => each d (by simp [hd])

/-! ## Loops -/

/-- What stands between the item before and an item: a comma, but nothing in front of the first
item. -/
def lead (isFirst : Bool) : List Char :=
  if isFirst then [] else [',']

variable {step : σ → Decoder (σ ⊕ α)} {state later : σ}

/-- The last round of a loop gives its value. -/
theorem Gives.loop_stop {value : α} (h : (step state).Gives ending text (.ok (.inr value)) rest) :
    (loop step state).Gives ending text (.ok value) rest := by
  unfold Gives
  rw [loop, show step state ending (utf8 text) = .ok (.inr value, utf8 rest) from h]
  rfl

/-- A fault of a round is the fault of a loop. -/
theorem Gives.loop_fault (h : (step state).Gives ending text (.error fault) middle) :
    (loop step state).Gives ending text (.error fault) rest := by
  unfold Gives
  rw [loop, show step state ending (utf8 text) = .error fault from h]
  rfl

/-- A round of a loop that takes something is followed by the others. -/
theorem Gives.loop_again {result : Except Fault α}
    (h : (step state).Gives ending text (.ok (.inl later)) middle) (shorter : Shorter middle text)
    (others : (loop step later).Gives ending middle result rest) :
    (loop step state).Gives ending text result rest := by
  unfold Gives
  rw [loop, show step state ending (utf8 text) = .ok (.inl later, utf8 middle) from h]
  exact (if_pos shorter).trans others

/-! ## Values in documents -/

/-- The characters that may stand behind a value. -/
def endChars : List Char :=
  blankChars ++ [',', ']', '\x7d']

/-- The next character is one of the given ones, or the document is over. The end of a source that
has failed does not show whether the document is over. -/
inductive Ahead (chars : List Char) : Ending → List Char → Prop where
  | nil : Ahead chars .finished []
  | cons {ending : Ending} {c : Char} (rest : List Char) (h : c ∈ chars) :
      Ahead chars ending (c :: rest)

/-- A value may end in front of `rest`. -/
abbrev Ends : Ending → List Char → Prop :=
  Ahead endChars

/-- A value may end in front of blanks at the end of a document. -/
theorem Ends.of_blank {after : List Char} (h : Blank after) : Ends .finished after := by
  cases after with
  | nil => exact .nil
  | cons c after => exact .cons _ (List.mem_append_left _ (h c (by simp)))

/-- A value may end in front of blanks and a comma or a closing bracket. -/
theorem Ends.blank_cons {after : List Char} (h : Blank after)
    (hc : c ∈ [',', ']', '\x7d'] := by decide) : Ends ending (after ++ c :: rest) := by
  cases after with
  | nil => exact .cons _ (List.mem_append_right _ hc)
  | cons d after => exact .cons _ (List.mem_append_left _ (h d (by simp)))

/-- The text is that of a value, and wherever it stands in a document the decoder gives the result
and leaves what stands behind the value. -/
structure Reads (d : Decoder α) (text : List Char) (result : Except Fault α) : Prop where
  starts : StartsValue text
  gives {ending : Ending} {before rest : List Char} (hbefore : Blank before)
    (hrest : Ends ending rest) : d.Gives ending (before ++ (text ++ rest)) result rest

/-- A decoder that looks at the first character of a value, behind the blanks. -/
theorem Reads.of_significant {d : UInt8 → Decoder α} {result : Except Fault α} {more : List Char}
    (hstart : StartsValue text) (same : text = c :: more)
    (h : ∀ {ending : Ending} {rest : List Char}, Ends ending rest →
      (d (ascii c)).Gives ending (text ++ rest) result rest) :
    (Decoder.significant >>= d).Reads text result := by
  refine ⟨hstart, fun {ending before rest} hbefore hrest => ?_⟩
  have read := h hrest
  subst same
  cases hstart with | cons _ hc
  exact .bind (.significant hbefore (isSolid_of_mem_startChars hc)) read

/-- A decoder that expects a kind of value and meets it. -/
theorem Reads.of_accepted {p : UInt8 → Prop} [DecidablePred p] {accept : Decoder α}
    {other : UInt8 → Decoder α} {result : Except Fault α} {more : List Char}
    (hstart : StartsValue text) (same : text = c :: more) (expected : p (ascii c))
    (h : ∀ {ending : Ending} {rest : List Char}, Ends ending rest →
      accept.Gives ending (text ++ rest) result rest) :
    Reads (do
      let b ← Decoder.significant
      if p b then accept else other b) text result := by
  refine .of_significant hstart same fun hrest => ?_
  rw [if_pos expected]
  exact h hrest

/-- What a second decoder makes of the value of the first one without reading further. -/
theorem Reads.bind {d : Decoder α} {f : α → Decoder β} {g : α → Except Fault β}
    {result : Except Fault α} (h : d.Reads text result)
    (hf : ∀ (value : α) {ending : Ending} {rest : List Char},
      (f value).Gives ending rest (g value) rest) :
    (d >>= f).Reads text (result.bind g) where
  starts := h.starts
  gives hbefore hrest := by
    have value := h.gives hbefore hrest
    cases result with
    | error fault => exact .stop value
    | ok found => exact .bind value (hf found)

/-- What is made of the value of a decoder. -/
theorem Reads.bind_pure {d : Decoder α} {result : Except Fault α} (h : d.Reads text result)
    (f : α → β) :
    (d >>= fun value => (Pure.pure (f value) : Decoder β)).Reads text (result.map f) := by
  have read : (d >>= fun value => (Pure.pure (f value) : Decoder β)).Reads text
      (result.bind fun value => .ok (f value)) := h.bind fun value => .pure (f value)
  cases result <;> exact read

/-- Behind a value a document may only hold blanks. -/
theorem Reads.readBytes {d : Decoder α} {result : Except Fault α} {after : List Char}
    (h : d.Reads text result) (hbefore : Blank before) (hafter : Blank after) :
    d.readBytes .finished (utf8 (before ++ (text ++ after))) = result := by
  have value := h.gives hbefore (.of_blank hafter)
  have whole : d.document.Gives .finished (before ++ (text ++ after)) result [] := by
    cases result with
    | error fault => exact .stop value
    | ok found =>
      have behind : blanks.Gives .finished (after ++ []) (.ok ()) [] := .blanks hafter (by simp)
      rw [List.append_nil] at behind
      exact .bind value (.bind behind (.bind .peek_nil (.pure found)))
  show (d.document .finished _).map Prod.fst = _
  rw [whole]
  cases result <;> rfl

/-- A document that is given as text is read from its bytes. -/
theorem read_ofList (d : Decoder α) (text : List Char) :
    d.read (String.ofList text) = d.readBytes .finished (utf8 text) := by
  show d.readBytes .finished (String.ofList text).toByteArray.data.toList = _
  rw [String.toByteArray_ofList]
  show d.readBytes .finished (utf8 text).toByteArray.data.toList = _
  rw [List.toList_data_toByteArray]

/-- A document: blanks, a value of the given shape and blanks. -/
def IsDocument (shape : List Char → Prop) (document : String) : Prop :=
  ∃ before text after, Blank before ∧ shape text ∧ Blank after ∧
    document = String.ofList (before ++ (text ++ after))

/-- A value between blanks is a document. -/
theorem Reads.read {d : Decoder α} {result : Except Fault α} {after : List Char}
    (h : d.Reads text result) (hbefore : Blank before) (hafter : Blank after) :
    d.read (String.ofList (before ++ (text ++ after))) = result := by
  rw [read_ofList, h.readBytes hbefore hafter]

/-- A value has one result. -/
theorem Reads.unique {d : Decoder α} {first second : Except Fault α} (hfirst : d.Reads text first)
    (hsecond : d.Reads text second) : first = second :=
  (hfirst.readBytes .nil .nil).symm.trans (hsecond.readBytes .nil .nil)

end Decoder

end LineLexer.Json
