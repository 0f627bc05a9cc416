import LineLexer.Proofs.LineTokens

/-!
# Calls of a scan

A scan of a line is called again and again, and each call goes on where the one before has stopped.
What it still finds depends on nothing but the characters that are left: a scan that starts with
them finds the same tokens, only further to the left, `drain_eq_map_shift`. Every call moves the
scan up to the end of its token, or else to the end of the line, where it stays, `Resumable`.
-/

namespace LineLexer.Scanner

/-- The scan after a number of calls. -/
def after (rules : Rules) : Nat → Scanner → Scanner
  | 0, s => s
  | calls + 1, s => after rules calls (s.next rules).2

/-- The tokens that calls give, up to the first call in vain. -/
def drain (rules : Rules) (s : Scanner) : List Token :=
  match _found : s.next rules with
  | (none, _) => []
  | (some t, later) => t :: later.drain rules
termination_by s.rest.length
decreasing_by exact scan_rest_lt _found

/-- What is true of a scan of a line between two calls, whatever the number of calls so far. -/
structure Resumable (rules : Rules) (lineIndex : Nat) (line : List Char) (s : Scanner) : Prop where
  lineIndex_eq : s.lineIndex = lineIndex
  column_le : s.column ≤ line.length
  rest_eq : s.rest = line.drop s.column
  drain_eq : s.drain rules =
    ((start lineIndex s.rest).drain rules).map (Token.shift 0 s.column)
  found : ∀ t later, s.next rules = (some t, later) →
    s.column ≤ t.startColumn ∧ t.startColumn < t.endColumn ∧ later.column = t.endColumn
  ended : ∀ later, s.next rules = (none, later) → later.column = line.length ∧
    ∀ calls, later.after rules calls = later ∧ later.next rules = (none, later)

variable {rules : Rules} {line : List Char} {s : Scanner}

/-! ## One call -/

/-- A call passes over characters before it finds a token, and goes back over none. -/
theorem Reads.le_startColumn {lineIndex column : Nat} {chars : List Char} {t : Token}
    (hreads : Reads rules lineIndex column chars (some t, s)) : column ≤ t.startColumn := by
  generalize hresult : (some t, s) = result at hreads
  induction hreads with
  | finish => cases hresult
  | token column chars found _ hat =>
      cases hresult
      exact Nat.le_of_eq (Rules.startColumn_of_tokenAt? hat).symm
  | skip column _ _ _ _ _ ih => exact Nat.le_of_succ_le (ih hresult)

/-- At the end of its line a scan finds nothing and does not move. -/
theorem next_of_rest_eq_nil (h : s.rest = []) : s.next rules = (none, s) := by
  obtain ⟨lineIndex, column, rest⟩ := s
  obtain rfl : rest = [] := h
  rfl

/-- A call stops right behind the token that it finds. -/
theorem On.column_of_next (h : rules.Valid) {t : Token} {later : Scanner} (hon : s.On line)
    (hnext : s.next rules = (some t, later)) :
    s.column ≤ t.startColumn ∧ t.startColumn < t.endColumn ∧ later.column = t.endColumn := by
  have hreads := next_reads h s
  have hkeeps := hon.next_keeps rules
  rw [hnext] at hreads hkeeps
  have hpos := (hkeeps.stands t rfl).2.length_pos
  exact ⟨hreads.le_startColumn, Nat.lt_add_of_pos_right hpos, hreads.endColumn_eq.2⟩

/-! ## The end of the line -/

/-- A scan that is at the end of its line stays there, however often it is called. -/
theorem after_of_rest_eq_nil (h : s.rest = []) (calls : Nat) : s.after rules calls = s := by
  induction calls with
  | zero => rfl
  | succ calls ih =>
      show ((s.next rules).2).after rules calls = s
      rw [next_of_rest_eq_nil h]
      exact ih

/-- After a call in vain a scan is at the end of its line for good. -/
theorem On.ended_of_next (h : rules.Valid) {later : Scanner} (hon : s.On line)
    (hnext : s.next rules = (none, later)) : later.column = line.length ∧
      ∀ calls, later.after rules calls = later ∧ later.next rules = (none, later) := by
  have hreads := next_reads h s
  have hkeeps := hon.next_keeps rules
  rw [hnext] at hreads hkeeps
  have hrest := hreads.rest_eq_nil
  exact ⟨hkeeps.on.column_eq hrest, fun calls =>
    ⟨after_of_rest_eq_nil hrest calls, next_of_rest_eq_nil hrest⟩⟩

/-! ## All calls -/

/-- The tokens that a scan finds are those that lie ahead of it. -/
theorem drain_eq_ahead (h : rules.Valid) (s : Scanner) : s.drain rules = s.ahead rules := by
  fun_induction drain rules s with
  | case1 s later hnext =>
      have hreads := next_reads h s
      rw [hnext] at hreads
      exact hreads.tokensFrom_eq_nil.symm
  | case2 s t later hnext ih =>
      have hreads := next_reads h s
      rw [hnext] at hreads
      rw [ih]
      exact hreads.tokensFrom_eq.symm

/-- A scan finds what a scan of the characters before it does, at columns further on. -/
theorem drain_eq_map_shift (h : rules.Valid) (s : Scanner) :
    s.drain rules = ((start s.lineIndex s.rest).drain rules).map (Token.shift 0 s.column) := by
  have hshift : rules.tokensFrom (s.lineIndex + 0) (0 + s.column) s.rest =
      (rules.tokensFrom s.lineIndex 0 s.rest).map (Token.shift 0 s.column) :=
    Rules.tokensFrom_add 0 s.column s.rest
  rw [Nat.zero_add] at hshift
  rw [drain_eq_ahead h, drain_eq_ahead h]
  exact hshift

/-- No call takes a scan off its line. -/
theorem On.after (rules : Rules) (hon : s.On line) (calls : Nat) :
    (s.after rules calls).On line ∧ (s.after rules calls).lineIndex = s.lineIndex := by
  induction calls generalizing s with
  | zero => exact ⟨hon, rfl⟩
  | succ calls ih =>
      have hkeeps := hon.next_keeps rules
      obtain ⟨hlater, hindex⟩ := ih hkeeps.on
      exact ⟨hlater, hindex.trans hkeeps.lineIndex_eq⟩

/-- A scan can be taken up again after any number of calls. -/
theorem resumable_after (h : rules.Valid) (lineIndex : Nat) (line : List Char) (calls : Nat) :
    Resumable rules lineIndex line ((start lineIndex line).after rules calls) := by
  obtain ⟨hon, hindex⟩ := (start_on lineIndex line).after rules calls
  have hindex : ((start lineIndex line).after rules calls).lineIndex = lineIndex := hindex
  refine ⟨hindex, hon.column_le, hon.rest_eq, ?_, fun _ _ => hon.column_of_next h,
    fun _ => hon.ended_of_next h⟩
  have hdrain := drain_eq_map_shift h ((start lineIndex line).after rules calls)
  rwa [hindex] at hdrain

end LineLexer.Scanner
