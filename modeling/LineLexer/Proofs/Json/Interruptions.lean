import LineLexer.Json.Aggregate
import Mathlib.Data.List.TakeWhile

/-!
# Sources that fail

A source that fails delivers some bytes of a document and no end. A decoder is prompt if it reads no
further than it must: either the bytes that have been delivered decide what it gives, whatever would
have come behind them, or it meets the failure of the source. A run of bytes of a kind, such as the
digits of a number, is not decided by the bytes that have been delivered if it takes all of them. So
the decoders of runs have a weaker property, and a run is followed by a decoder that wants a byte.
There is one rule for each way to put decoders together.
-/

namespace LineLexer.Json

/-- A fault in the bytes of a document and not in their end. -/
def Fault.IsDefinite : Fault → Prop
  | .malformed | .mismatch _ => True
  | .incomplete | .interrupted _ => False

namespace Decoder

variable {α β γ σ : Type} {bytes : List UInt8}

/-- Bytes decide what a decoder gives, whatever stands behind them and however that ends, or the
decoder wants more bytes than there are. -/
inductive Decides (d : Decoder α) (bytes : List UInt8) : Prop where
  | value (value : α) (rest : List UInt8)
      (h : ∀ ending more, d ending (bytes ++ more) = .ok (value, rest ++ more))
  | fault (fault : Fault) (definite : fault.IsDefinite)
      (h : ∀ ending more, d ending (bytes ++ more) = .error fault)
  | wants (h : ∀ reason, d (.failed reason) bytes = .error (.interrupted reason))

/-- The decoder reads no further than it must. -/
def Prompt (d : Decoder α) : Prop :=
  ∀ bytes, Decides d bytes

/-- Bytes decide what a decoder gives, or it takes all of them and might have taken more. -/
inductive Covers (d : Decoder α) (bytes : List UInt8) : Prop where
  | decided (h : Decides d bytes)
  | all (value : α) (h : ∀ reason, d (.failed reason) bytes = .ok (value, []))

/-- The decoder takes a run of bytes. -/
def Greedy (d : Decoder α) : Prop :=
  ∀ bytes, Covers d bytes

/-- The decoder wants a byte. -/
def Awaits (d : Decoder α) : Prop :=
  ∀ reason, d (.failed reason) [] = .error (.interrupted reason)

/-! ## One decoder after the other -/

section Sequences

variable {first : Decoder α} {second : α → Decoder β} {ending : Ending} {value : α}
  {rest : List UInt8} {fault : Fault}

theorem bind_of_ok (h : first ending bytes = .ok (value, rest)) :
    (first >>= second) ending bytes = second value ending rest := by
  show first.andThen second ending bytes = _
  unfold andThen
  rw [h]

theorem bind_of_error (h : first ending bytes = .error fault) :
    (first >>= second) ending bytes = .error fault := by
  show first.andThen second ending bytes = _
  unfold andThen
  rw [h]

theorem bind_assoc (first : Decoder α) (second : α → Decoder β) (third : β → Decoder γ) :
    ((first >>= second) >>= third) = (first >>= fun value => second value >>= third) := by
  funext ending bytes
  cases found : first ending bytes with
  | error fault => rw [bind_of_error (bind_of_error found), bind_of_error found]
  | ok taken =>
    rw [bind_of_ok found]
    show (first >>= second).andThen third ending bytes = (second taken.1).andThen third _ _
    unfold andThen
    rw [bind_of_ok found]

/-- A decoder that goes on like another one behind the bytes that it takes is decided where that one
is. -/
theorem Decides.step {d other : Decoder α} {later : List UInt8} (h : Decides other later)
    (same : ∀ ending more, d ending (bytes ++ more) = other ending (later ++ more)) :
    Decides d bytes := by
  cases h with
  | value value rest h =>
    exact .value value rest fun ending more => (same ending more).trans (h _ _)
  | fault fault definite h =>
    exact .fault fault definite fun ending more => (same ending more).trans (h _ _)
  | wants h =>
    refine .wants fun reason => ?_
    have whole := same (.failed reason) []
    rw [List.append_nil, List.append_nil] at whole
    exact whole.trans (h reason)

/-- What is taken whatever stands behind the bytes is taken if nothing does. -/
theorem ok_of_append (h : ∀ ending more, first ending (bytes ++ more) = .ok (value, rest ++ more))
    (ending : Ending) : first ending bytes = .ok (value, rest) := by
  have here := h ending []
  rwa [List.append_nil, List.append_nil] at here

/-- The second decoder is asked about where it starts. -/
theorem Decides.bind (hfirst : Decides first bytes)
    (hsecond : ∀ value rest, (∀ ending, first ending bytes = .ok (value, rest)) →
      Decides (second value) rest) : Decides (first >>= second) bytes := by
  cases hfirst with
  | value value rest h =>
    exact (hsecond value rest (ok_of_append h)).step fun ending more => bind_of_ok (h ending more)
  | fault fault definite h =>
    exact .fault fault definite fun ending more => bind_of_error (h ending more)
  | wants h => exact .wants fun reason => bind_of_error (h reason)

theorem Prompt.bind (hfirst : first.Prompt) (hsecond : ∀ value, (second value).Prompt) :
    (first >>= second).Prompt :=
  fun bytes => (hfirst bytes).bind fun value rest _ => hsecond value rest

/-- Behind a run that has taken all bytes a decoder that wants a byte meets the failure of the
source. -/
theorem Greedy.bind (hfirst : first.Greedy) (hsecond : ∀ value, (second value).Prompt)
    (awaits : ∀ value, (second value).Awaits) : (first >>= second).Prompt := by
  intro bytes
  cases hfirst bytes with
  | decided h => exact h.bind fun value rest _ => hsecond value rest
  | all value h =>
    exact .wants fun reason => (bind_of_ok (h reason)).trans (awaits value reason)

theorem Prompt.greedy (h : first.Prompt) : first.Greedy :=
  fun bytes => .decided (h bytes)

/-- What is made of a run. -/
theorem Covers.bind_pure (h : Covers first bytes) (f : α → β) :
    Covers (first >>= fun value => (pure (f value) : Decoder β)) bytes := by
  cases h with
  | decided h => exact .decided (h.bind fun value rest _ => .value _ rest fun _ _ => rfl)
  | all value h => exact .all (f value) fun reason => bind_of_ok (h reason)

theorem Prompt.pure (value : α) : Prompt (pure value : Decoder α) :=
  fun bytes => .value value bytes fun _ _ => rfl

theorem Prompt.malformed : Prompt (fail .malformed : Decoder α) :=
  fun _ => .fault .malformed trivial fun _ _ => rfl

theorem Prompt.reject (cause : Mismatch) : Prompt (reject cause : Decoder α) :=
  fun _ => .fault (.mismatch cause) trivial fun _ _ => rfl

end Sequences

/-! ## Single bytes -/

section Bytes

variable {second : UInt8 → Decoder α} {b : UInt8} {rest : List UInt8}

theorem Prompt.take : Prompt take := by
  intro bytes
  cases bytes with
  | nil => exact .wants fun _ => rfl
  | cons b rest => exact .value b rest fun _ _ => rfl

theorem Prompt.look : Prompt look := by
  intro bytes
  cases bytes with
  | nil => exact .wants fun _ => rfl
  | cons b rest => exact .value b (b :: rest) fun _ _ => rfl

theorem Decides.skip : Decides skip (b :: rest) :=
  .value () rest fun _ _ => rfl

/-- A byte is passed over that has been looked at. -/
theorem Decides.skip_bind {next : Unit → Decoder α} (h : Decides (next ()) rest) :
    Decides (Decoder.skip >>= next) (b :: rest) :=
  h.step fun _ _ => rfl

/-- The source has to show whether there is another byte. -/
theorem Prompt.peek_bind {next : Option UInt8 → Decoder α}
    (h : ∀ b rest, Decides (next (some b)) (b :: rest)) : Prompt (peek >>= next) := by
  intro bytes
  cases bytes with
  | nil => exact .wants fun _ => rfl
  | cons b rest => exact (h b rest).step fun _ _ => rfl

/-- A run may start with the byte that has been looked at. -/
theorem Greedy.peek_bind {next : Option UInt8 → Decoder α}
    (h : ∀ b rest, Covers (next (some b)) (b :: rest)) : Greedy (peek >>= next) := by
  intro bytes
  cases bytes with
  | nil => exact .decided (.wants fun _ => rfl)
  | cons b rest =>
    cases h b rest with
    | decided h => exact .decided (h.step fun _ _ => rfl)
    | all value h => exact .all value fun reason => h reason

/-- A run of bytes of a kind ends in front of the first byte of another kind, if there is one. -/
theorem Greedy.takeWhile (p : UInt8 → Bool) : Greedy (takeWhile p) := by
  intro bytes
  cases behind : bytes.dropWhile p with
  | nil =>
    have run : bytes.takeWhile p = bytes :=
      List.takeWhile_eq_self_iff.mpr (List.dropWhile_eq_nil_iff.mp behind)
    refine .all bytes fun reason => ?_
    show Except.ok (bytes.takeWhile p, bytes.dropWhile p) = _
    rw [run, behind]
  | cons b rest =>
    refine .decided (.value (bytes.takeWhile p) (b :: rest) fun ending more => ?_)
    have shorter : ¬ (bytes.takeWhile p).length = bytes.length := by
      have sizes := congrArg List.length (List.takeWhile_append_dropWhile (p := p) (l := bytes))
      rw [behind, List.length_append, List.length_cons] at sizes
      omega
    show Except.ok ((bytes ++ more).takeWhile p, (bytes ++ more).dropWhile p) = _
    rw [List.takeWhile_append, if_neg shorter, List.dropWhile_append, behind]
    rfl

theorem Greedy.blanks : Greedy blanks :=
  fun bytes => (Greedy.takeWhile isBlank bytes).bind_pure _

theorem Prompt.significant : Prompt significant :=
  Greedy.blanks.bind (fun _ => .look) fun _ _ => rfl

/-- The byte that is not blank stays where it is. -/
theorem exists_cons_of_significant {ending : Ending}
    (h : significant ending bytes = .ok (b, rest)) : ∃ more, rest = b :: more := by
  change look ending (bytes.dropWhile isBlank) = _ at h
  cases behind : bytes.dropWhile isBlank with
  | nil =>
    rw [behind] at h
    cases h
  | cons b more =>
    rw [behind] at h
    cases h
    exact ⟨more, rfl⟩

/-- What is read depends on the next byte that is not blank. -/
theorem Prompt.significant_bind (h : ∀ b rest, Decides (second b) (b :: rest)) :
    Prompt (Decoder.significant >>= second) := by
  intro bytes
  refine (Prompt.significant bytes).bind fun b rest taken => ?_
  obtain ⟨more, rfl⟩ := exists_cons_of_significant (taken .finished)
  exact h b more

theorem Prompt.punctuation (c : Char) : Prompt (punctuation c) := by
  refine .significant_bind fun b rest => ?_
  split
  · exact .skip
  · exact Prompt.malformed _

theorem Prompt.word (chars : List Char) : Prompt (word chars) := by
  induction chars with
  | nil => exact .pure ()
  | cons c chars ih =>
    refine .bind .take fun b => ?_
    split
    · exact ih
    · exact .malformed

end Bytes

/-! ## Loops -/

/-- A loop is prompt if its rounds are. The induction is on the bytes; that a round has taken some
of them does not depend on what stands behind. -/
theorem Prompt.loop {step : σ → Decoder (σ ⊕ α)} (hstep : ∀ state, (step state).Prompt)
    (state : σ) : Prompt (loop step state) := by
  intro bytes
  induction hlen : bytes.length using Nat.strongRecOn generalizing bytes state with
  | _ length ih =>
    subst hlen
    cases hstep state bytes with
    | wants h =>
      refine .wants fun reason => ?_
      rw [Decoder.loop, h]
    | fault fault definite h =>
      refine .fault fault definite fun ending more => ?_
      rw [Decoder.loop, h]
    | value place rest h =>
      cases place with
      | inr value =>
        refine .value value rest fun ending more => ?_
        rw [Decoder.loop, h]
      | inl later =>
        -- What stands behind makes the bytes before and after a round longer by the same number.
        have guard (more : List UInt8) :
            (rest ++ more).length < (bytes ++ more).length ↔ rest.length < bytes.length := by
          rw [List.length_append, List.length_append, Nat.add_lt_add_iff_right]
        by_cases shorter : rest.length < bytes.length
        · refine (ih _ shorter later rest rfl).step fun ending more => ?_
          rw [Decoder.loop, h]
          exact if_pos ((guard more).mpr shorter)
        · refine .fault .malformed trivial fun ending more => ?_
          rw [Decoder.loop, h]
          exact if_neg (mt (guard more).mp shorter)

end Decoder

end LineLexer.Json
