import LineLexer.Proofs.LineTokens

/-!
# The tokens of a text

The tokens of a text are those of its lines, one line after the other: `Tokenizer.tokenize_eq`. The
proof follows a stream on its way. `TokenStream.ahead` lists the tokens that a stream has still to
hand out, a request for a token takes the first one of them away, `TokenStream.ahead_eq`, and a
stream that has none to hand out stays as it is, `TokenStream.Finished.next`.
-/

namespace LineLexer

namespace Rules

variable {rules : Rules}

/-- The tokens of consecutive lines, the first one of a given index. -/
def tokensOfLines (rules : Rules) : Nat → List (List Char) → List Token
  | _, [] => []
  | lineIndex, line :: more =>
    rules.tokensFrom lineIndex 0 line ++ rules.tokensOfLines (lineIndex + 1) more

theorem tokensOfLines_eq_mapIdx (lineIndex : Nat) (lines : List (List Char)) :
    rules.tokensOfLines lineIndex lines =
      (lines.mapIdx fun i line => rules.tokensFrom (lineIndex + i) 0 line).flatten := by
  induction lines generalizing lineIndex with
  | nil => rfl
  | cons line more ih =>
      rw [tokensOfLines, ih, List.mapIdx_cons, List.flatten_cons]
      simp only [Nat.add_zero, Nat.add_assoc, Nat.add_comm 1]

/-- The tokens of some lines come before those of the lines behind them. -/
theorem tokensOfLines_append (lineIndex : Nat) (front back : List (List Char)) :
    rules.tokensOfLines lineIndex (front ++ back) =
      rules.tokensOfLines lineIndex front ++
        rules.tokensOfLines (lineIndex + front.length) back := by
  induction front generalizing lineIndex with
  | nil => rfl
  | cons line more ih =>
      rw [List.cons_append, tokensOfLines, tokensOfLines, ih, List.append_assoc, List.length_cons,
        Nat.add_right_comm, Nat.add_assoc]

/-- The same lines have the same tokens further down in a text. -/
theorem tokensOfLines_add (lineIndex count : Nat) (lines : List (List Char)) :
    rules.tokensOfLines (lineIndex + count) lines =
      (rules.tokensOfLines lineIndex lines).map (Token.shift count 0) := by
  induction lines generalizing lineIndex with
  | nil => rfl
  | cons line more ih =>
      rw [tokensOfLines, tokensOfLines, List.map_append, ← tokensFrom_add, Nat.add_right_comm, ih]

end Rules

/-- The token that an event reports. -/
def Event.token? : Event → Option Token
  | .token found => some found
  | _ => none

/-- The tokens that were found on the way to an outcome, handed out or not. -/
def Pull.tokens {Found : Type} (pull : Pull Found) : List Token :=
  pull.events.filterMap Event.token?

namespace TokenStream

variable {rules : Rules}

/-- The tokens that a stream has still to hand out. -/
def ahead (rules : Rules) (s : TokenStream) : List Token :=
  (s.current.map (Scanner.ahead rules)).getD [] ++ rules.tokensOfLines s.nextLine s.pending

/-- There is nothing left to read, neither in the current line nor behind it. -/
structure Finished (s : TokenStream) : Prop where
  pending_eq : s.pending = []
  rest_eq : ∀ scanner, s.current = some scanner → scanner.rest = []

/-- Nothing lies ahead of a finished stream. -/
theorem Finished.ahead_eq {s : TokenStream} (h : s.Finished) : s.ahead rules = [] := by
  obtain ⟨nextLine, pending, current⟩ := s
  obtain rfl : pending = [] := h.pending_eq
  cases current with
  | none => rfl
  | some scanner =>
      have hrest : scanner.rest = [] := h.rest_eq scanner rfl
      show rules.tokensFrom scanner.lineIndex scanner.column scanner.rest ++ [] = []
      rw [hrest, Rules.tokensFrom_nil, List.append_nil]

/-- A finished stream finds nothing and does not change. -/
theorem Finished.next {s : TokenStream} (h : s.Finished) : s.next rules = ⟨none, s, []⟩ := by
  obtain ⟨nextLine, pending, current⟩ := s
  obtain rfl : pending = [] := h.pending_eq
  cases current with
  | none => rfl
  | some scanner =>
      obtain ⟨lineIndex, column, chars⟩ := scanner
      obtain rfl : chars = [] := h.rest_eq _ rfl
      rfl

/-! ## Entering lines -/

/-- Entering lines finds the first of their tokens and leaves the other ones ahead. -/
theorem enter_ahead (h : rules.Valid) (nextLine : Nat) (current : Option Scanner)
    (hcurrent : ∀ scanner, current = some scanner → scanner.rest = [])
    (pending : List (List Char)) :
    rules.tokensOfLines nextLine pending =
      (enter rules nextLine current pending).found.toList ++
        (enter rules nextLine current pending).after.ahead rules := by
  induction pending generalizing nextLine current with
  | nil =>
      have hfinished : Finished ⟨nextLine, [], current⟩ := ⟨rfl, hcurrent⟩
      rw [enter, hfinished.ahead_eq]
      rfl
  | cons line more ih =>
      have hreads := Scanner.next_reads h (Scanner.start nextLine line)
      rw [enter, Rules.tokensOfLines]
      split
      · next t scanner hnext =>
          rw [hnext] at hreads
          have heq := hreads.tokensFrom_eq
          simp only [Scanner.start] at heq
          simp [heq, ahead]
      -- The line has no token: its scan has nothing left and stays the current one.
      · next scanner hnext =>
          rw [hnext] at hreads
          have heq := hreads.tokensFrom_eq_nil
          simp only [Scanner.start] at heq
          rw [heq, List.nil_append]
          exact ih (nextLine + 1) (some scanner) (by rintro _ ⟨⟩; exact hreads.rest_eq_nil)

/-- Entering lines without finding a token leaves none of them out. -/
theorem enter_finished (h : rules.Valid) {nextLine : Nat} {current : Option Scanner}
    (hcurrent : ∀ scanner, current = some scanner → scanner.rest = [])
    {pending : List (List Char)} (hnone : (enter rules nextLine current pending).found = none) :
    (enter rules nextLine current pending).after.Finished := by
  induction pending generalizing nextLine current with
  | nil => exact ⟨rfl, hcurrent⟩
  | cons line more ih =>
      have hreads := Scanner.next_reads h (Scanner.start nextLine line)
      unfold enter at hnone ⊢
      split at hnone
      · cases hnone
      · next scanner hnext =>
          rw [hnext] at hreads
          exact ih (by rintro _ ⟨⟩; exact hreads.rest_eq_nil) hnone

/-- Every token found while lines are entered is the one that is handed out. -/
theorem tokens_enter (nextLine : Nat) (current : Option Scanner) (pending : List (List Char)) :
    (enter rules nextLine current pending).tokens =
      (enter rules nextLine current pending).found.toList := by
  induction pending generalizing nextLine current with
  | nil => rfl
  | cons line more ih =>
      unfold enter
      split
      · rfl
      · exact ih _ _

/-! ## Asking for a token -/

/-- A request hands out the first token that lies ahead. -/
theorem ahead_eq (h : rules.Valid) (s : TokenStream) :
    s.ahead rules = (s.next rules).found.toList ++ (s.next rules).after.ahead rules := by
  obtain ⟨nextLine, pending, current⟩ := s
  cases current with
  | none => exact enter_ahead h nextLine none (by simp) pending
  | some scanner =>
      have hreads := Scanner.next_reads h scanner
      unfold next
      dsimp only
      split
      · next t later hnext =>
          rw [hnext] at hreads
          simp [ahead, Scanner.ahead, hreads.tokensFrom_eq]
      -- Nothing is left in the current line, so that the tokens ahead are those of later lines.
      · next later hnext =>
          rw [hnext] at hreads
          rw [← enter_ahead h nextLine (some later) (by rintro _ ⟨⟩; exact hreads.rest_eq_nil)]
          simp [ahead, Scanner.ahead, hreads.tokensFrom_eq_nil]

/-- A request that is in vain finishes the stream. -/
theorem finished_next (h : rules.Valid) {s : TokenStream} (hnone : (s.next rules).found = none) :
    (s.next rules).after.Finished := by
  obtain ⟨nextLine, pending, current⟩ := s
  cases current with
  | none => exact enter_finished h (by simp) hnone
  | some scanner =>
      have hreads := Scanner.next_reads h scanner
      unfold next at hnone ⊢
      dsimp only at hnone ⊢
      split at hnone
      · cases hnone
      · next later hnext =>
          rw [hnext] at hreads
          exact enter_finished h (by rintro _ ⟨⟩; exact hreads.rest_eq_nil) hnone

/-- A request finds no token besides the one that it hands out. -/
theorem tokens_next (s : TokenStream) : (s.next rules).tokens = (s.next rules).found.toList := by
  unfold next
  split
  · exact tokens_enter _ _ _
  · split
    · rfl
    · exact tokens_enter _ _ _

/-! ## All tokens -/

/-- Using up a stream hands out all tokens that lie ahead. -/
theorem found_drain (h : rules.Valid) (s : TokenStream) :
    (s.drain rules).found = s.ahead rules := by
  fun_induction drain rules s with
  | case1 s pull hnone =>
      rw [ahead_eq h, (finished_next h hnone).ahead_eq, hnone]
      rfl
  | case2 s pull t hsome later ih =>
      rw [ahead_eq h s, hsome, ← ih]
      rfl

end TokenStream

/-- The tokens of a text are the tokens of its lines, in order. -/
theorem Tokenizer.tokenize_eq {t : Tokenizer} (h : t.rules.Valid) (text : String) :
    t.tokenize text = t.rules.tokensOfLines 0 (Text.lines text.toList) := by
  show ((TokenStream.ofText text).drain t.rules).found = _
  rw [TokenStream.found_drain h]
  rfl

end LineLexer
