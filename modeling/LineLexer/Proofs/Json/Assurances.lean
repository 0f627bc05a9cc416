import LineLexer.Json.Aggregate

/-!
# What is true of every value that is read

A property that a decoder assures holds of each value that it gives, whatever bytes it reads and
however they end.
-/

namespace LineLexer.Json.Decoder

variable {α β σ : Type} {p : α → Prop} {q : β → Prop}

/-- Every value that a decoder gives has a property. -/
def Assures (d : Decoder α) (p : α → Prop) : Prop :=
  ∀ (ending : Ending) (bytes rest : List UInt8) (value : α),
    d ending bytes = .ok (value, rest) → p value

/-- Nothing is asked of a value. -/
theorem Assures.trivial (d : Decoder α) : d.Assures fun _ => True :=
  fun _ _ _ _ _ => True.intro

/-- A value that is given without reading. -/
theorem Assures.pure {value : α} (h : p value) : (pure value : Decoder α).Assures p := by
  intro ending bytes rest found same
  cases same
  exact h

/-- No value is given. -/
theorem Assures.reject {cause : Mismatch} : (reject cause : Decoder α).Assures p := by
  intro ending bytes rest value same
  cases same

/-- The second decoder may rely on what the first one assures. -/
theorem Assures.bind {first : Decoder β} {second : β → Decoder α} (hfirst : first.Assures q)
    (hsecond : ∀ value, q value → (second value).Assures p) : (first >>= second).Assures p := by
  intro ending bytes rest found read
  change first.andThen second ending bytes = _ at read
  unfold andThen at read
  cases middle : first ending bytes with
  | error fault =>
    rw [middle] at read
    cases read
  | ok taken =>
    rw [middle] at read
    exact hsecond taken.1 (hfirst _ _ _ _ middle) _ _ _ _ read

/-- A loop assures what its last round does, if every round keeps an invariant. The induction is on
the bytes, of which each round takes some. -/
theorem Assures.loop {step : σ → Decoder (σ ⊕ α)} {invariant : σ → Prop}
    (hstep : ∀ state, invariant state → (step state).Assures (Sum.elim invariant p)) {state : σ}
    (h : invariant state) : (loop step state).Assures p := by
  intro ending bytes rest found read
  induction hlen : bytes.length using Nat.strongRecOn generalizing bytes state with
  | _ length ih =>
    subst hlen
    rw [Decoder.loop] at read
    cases round : step state ending bytes with
    | error fault =>
      rw [round] at read
      cases read
    | ok taken =>
      obtain ⟨later | value, middle⟩ := taken
      · have kept : invariant later := hstep state h _ _ _ _ round
        rw [round] at read
        dsimp only at read
        split at read
        · next shorter => exact ih _ shorter kept _ read rfl
        · cases read
      · have final : p value := hstep state h _ _ _ _ round
        rw [round] at read
        cases read
        exact final

/-- Every item of a list has what its decoder assures. -/
theorem Assures.list {d : Decoder α} (h : d.Assures p) :
    (list d).Assures fun values => ∀ value ∈ values, p value := by
  have rounds (read : List α) (hread : ∀ value ∈ read, p value) :
      (listStep d read).Assures
        (Sum.elim (fun read => ∀ value ∈ read, p value) fun values =>
          ∀ value ∈ values, p value) := by
    refine .bind (.trivial _) fun another _ => ?_
    cases another with
    | true =>
      refine .bind h fun value hvalue => .pure ?_
      exact fun other hother => (List.mem_cons.mp hother).elim (· ▸ hvalue) (hread other)
    | false =>
      refine .bind (.trivial _) fun _ _ => .pure ?_
      exact fun value hvalue => hread value (List.mem_reverse.mp hvalue)
  refine .bind (.trivial _) fun b _ => ?_
  by_cases opens : b = ascii '['
  · rw [if_pos opens]
    exact .bind (.trivial _) fun _ _ => .loop rounds (by simp)
  · rw [if_neg opens]
    exact .bind (.trivial _) fun _ _ => .reject

/-- The value of a whole document has what its decoder assures. -/
theorem Assures.of_readBytes {d : Decoder α} (h : d.Assures p) {ending : Ending}
    {bytes : List UInt8} {value : α} (read : d.readBytes ending bytes = .ok value) : p value := by
  have whole : d.document.Assures p := by
    refine .bind h fun value hvalue => .bind (.trivial _) fun _ _ => .bind (.trivial _) ?_
    intro next _
    cases next with
    | none => exact .pure hvalue
    | some b =>
      intro ending bytes rest found same
      cases same
  unfold readBytes at read
  cases found : d.document ending bytes with
  | error fault =>
    rw [found] at read
    cases read
  | ok taken =>
    rw [found] at read
    cases read
    exact whole _ _ _ _ found

end LineLexer.Json.Decoder
