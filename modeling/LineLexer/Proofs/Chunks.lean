import LineLexer.Proofs.LineTokens

/-!
# Words and numbers of a line

A line has maximal runs of letters and digits, and each of these splits behind the digits that it
starts with: `Span.IsNumber` and `Span.IsWord` say so of columns, without reading the line from left
to right. Different chunks have no column in common, `Span.IsChunk.eq_of_mem`, and together they
hold every letter and every digit, `Span.exists_isChunk`. What the characters from a boundary on
start with is a chunk, `Boundary.isChunk`.
-/

namespace LineLexer

/-- The columns from `start` on that come before `stop`. -/
structure Span where
  start : Nat
  stop : Nat
  deriving DecidableEq, Repr

/-- A line has a character of a class at a column. -/
def holdsAt (p : Char → Bool) (chars : List Char) (column : Nat) : Bool :=
  chars[column]?.any p

namespace Span

/-- A maximal run of letters and digits. -/
structure IsRun (line : List Char) (s : Span) : Prop where
  start_lt : s.start < s.stop
  inside : ∀ k < s.stop, s.start ≤ k → holdsAt Char.isAlphanum line k = true
  before : s.start = 0 ∨ holdsAt Char.isAlphanum line (s.start - 1) = false
  behind : holdsAt Char.isAlphanum line s.stop = false

instance (line : List Char) (s : Span) : Decidable (s.IsRun line) :=
  decidable_of_iff
    (s.start < s.stop ∧ (∀ k < s.stop, s.start ≤ k → holdsAt Char.isAlphanum line k = true) ∧
      (s.start = 0 ∨ holdsAt Char.isAlphanum line (s.start - 1) = false) ∧
      holdsAt Char.isAlphanum line s.stop = false)
    ⟨fun h => ⟨h.1, h.2.1, h.2.2.1, h.2.2.2⟩, fun h => ⟨h.1, h.2, h.3, h.4⟩⟩

/-- The longest prefix of digits of a run ends at a column. -/
structure SplitsAt (line : List Char) (run : Span) (column : Nat) : Prop where
  start_le : run.start ≤ column
  le_stop : column ≤ run.stop
  digits : ∀ k < column, run.start ≤ k → holdsAt Char.isDigit line k = true
  behind : holdsAt Char.isDigit line column = false

instance (line : List Char) (run : Span) (column : Nat) : Decidable (run.SplitsAt line column) :=
  decidable_of_iff
    (run.start ≤ column ∧ column ≤ run.stop ∧
      (∀ k < column, run.start ≤ k → holdsAt Char.isDigit line k = true) ∧
      holdsAt Char.isDigit line column = false)
    ⟨fun h => ⟨h.1, h.2.1, h.2.2.1, h.2.2.2⟩, fun h => ⟨h.1, h.2, h.3, h.4⟩⟩

/-- A number: the longest prefix of digits of a run, unless it is empty. -/
def IsNumber (line : List Char) (s : Span) : Prop :=
  s.start < s.stop ∧ ∃ stop < line.length + 1, IsRun line ⟨s.start, stop⟩ ∧
    SplitsAt line ⟨s.start, stop⟩ s.stop

instance (line : List Char) (s : Span) : Decidable (s.IsNumber line) :=
  inferInstanceAs (Decidable (_ ∧ _))

/-- A word: what is left of a run behind its longest prefix of digits, unless this is empty. -/
def IsWord (line : List Char) (s : Span) : Prop :=
  s.start < s.stop ∧ ∃ start < s.start + 1, IsRun line ⟨start, s.stop⟩ ∧
    SplitsAt line ⟨start, s.stop⟩ s.start

instance (line : List Char) (s : Span) : Decidable (s.IsWord line) :=
  inferInstanceAs (Decidable (_ ∧ _))

/-- A number or a word. -/
def IsChunk (line : List Char) (s : Span) : Prop :=
  s.IsNumber line ∨ s.IsWord line

instance (line : List Char) (s : Span) : Decidable (s.IsChunk line) :=
  inferInstanceAs (Decidable (_ ∨ _))

end Span

/-- The columns where a span within a line may start and stop, in reading order. -/
def spans (line : List Char) : List Span :=
  (List.range line.length).flatMap fun start =>
    (List.range (line.length + 1)).map fun stop => ⟨start, stop⟩

/-- The numbers and words of a line, in reading order. -/
def chunks (line : List Char) : List Span :=
  (spans line).filter fun s => s.IsChunk line

/-- A column is a boundary of a line if it is not strictly inside a number or a word. -/
def Boundary (line : List Char) (column : Nat) : Prop :=
  ∀ s ∈ chunks line, ¬ (s.start < column ∧ column < s.stop)

instance (line : List Char) (column : Nat) : Decidable (Boundary line column) :=
  inferInstanceAs (Decidable (∀ s ∈ chunks line, _))

/-! ## Characters at columns -/

variable {line : List Char}

theorem holdsAt_eq_true_iff {p : Char → Bool} {chars : List Char} {k : Nat} :
    holdsAt p chars k = true ↔ ∃ c, chars[k]? = some c ∧ p c = true := by
  unfold holdsAt
  cases chars[k]? <;> simp

theorem lt_length_of_holdsAt {p : Char → Bool} {k : Nat} (h : holdsAt p line k = true) :
    k < line.length := by
  obtain ⟨c, hc, -⟩ := holdsAt_eq_true_iff.mp h
  exact (List.getElem?_eq_some_iff.mp hc).1

theorem holdsAt_isAlphanum {k : Nat} (h : holdsAt Char.isDigit line k = true) :
    holdsAt Char.isAlphanum line k = true := by
  obtain ⟨c, hc, hdigit⟩ := holdsAt_eq_true_iff.mp h
  exact holdsAt_eq_true_iff.mpr ⟨c, hc, isAlphanum_of_isDigit hdigit⟩

/-- A class of characters holds from a column on up to some column, where it does not. -/
theorem exists_stop (p : Char → Bool) (line : List Char) (k : Nat) :
    ∃ stop, k ≤ stop ∧ (∀ j < stop, k ≤ j → holdsAt p line j = true) ∧
      holdsAt p line stop = false := by
  cases h : holdsAt p line k with
  | false => exact ⟨k, Nat.le_refl k, fun j hlt hle => absurd hlt (by omega), h⟩
  | true =>
      have hlt := lt_length_of_holdsAt h
      obtain ⟨stop, hle, hinside, hbehind⟩ := exists_stop p line (k + 1)
      refine ⟨stop, by omega, fun j hj hkj => ?_, hbehind⟩
      rcases Nat.eq_or_lt_of_le hkj with rfl | hlater
      · exact h
      · exact hinside j hj hlater
termination_by line.length - k

/-- A class of characters holds up to a column from some column on, before which it does not. -/
theorem exists_start (p : Char → Bool) (line : List Char) (k : Nat) :
    ∃ start ≤ k, (∀ j < k, start ≤ j → holdsAt p line j = true) ∧
      (start = 0 ∨ holdsAt p line (start - 1) = false) := by
  induction k with
  | zero => exact ⟨0, Nat.le_refl 0, fun j hlt _ => absurd hlt (by omega), .inl rfl⟩
  | succ k ih =>
      cases h : holdsAt p line k with
      | false => exact ⟨k + 1, Nat.le_refl _, fun j hlt hle => absurd hlt (by omega), .inr h⟩
      | true =>
          obtain ⟨start, hle, hinside, hbefore⟩ := ih
          refine ⟨start, by omega, fun j hj hsj => ?_, hbefore⟩
          rcases Nat.eq_or_lt_of_le (Nat.le_of_lt_succ hj) with rfl | hearlier
          · exact h
          · exact hinside j hearlier hsj

/-! ## Runs and splits -/

namespace Span

variable {s run other : Span} {k column column' : Nat}

theorem IsRun.stop_le_length (h : run.IsRun line) : run.stop ≤ line.length := by
  have hstart := h.start_lt
  have hlast := lt_length_of_holdsAt (h.inside (run.stop - 1) (by omega) (by omega))
  omega

/-- A run that starts before some column of another run starts and stops no later than that one. -/
theorem IsRun.start_le_and_stop_le (h : run.IsRun line) (hother : other.IsRun line)
    (hstart : run.start ≤ k) (hstop : k < other.stop) :
    run.start ≤ other.start ∧ run.stop ≤ other.stop := by
  constructor
  -- The column in front of a run is no letter or digit, so that no other run goes on over it.
  · rcases Nat.lt_or_ge other.start run.start with hlt | hge
    · have hinside := hother.inside (run.start - 1) (by omega) (by omega)
      rcases h.before with hzero | hbefore
      · omega
      · rw [hbefore] at hinside
        cases hinside
    · exact hge
  · rcases Nat.lt_or_ge other.stop run.stop with hlt | hge
    · have hinside := h.inside other.stop hlt (by omega)
      rw [hother.behind] at hinside
      cases hinside
    · exact hge

/-- Different runs have no column in common. -/
theorem IsRun.eq_of_mem (h : run.IsRun line) (hother : other.IsRun line) (hstart : run.start ≤ k)
    (hstop : k < run.stop) (hstart' : other.start ≤ k) (hstop' : k < other.stop) : run = other := by
  obtain ⟨hle, hle'⟩ := h.start_le_and_stop_le hother hstart hstop'
  obtain ⟨hge, hge'⟩ := hother.start_le_and_stop_le h hstart' hstop
  obtain ⟨start, stop⟩ := run
  obtain rfl : start = other.start := Nat.le_antisymm hle hge
  obtain rfl : stop = other.stop := Nat.le_antisymm hle' hge'
  rfl

theorem SplitsAt.le (h : run.SplitsAt line column) (hother : run.SplitsAt line column') :
    column ≤ column' := by
  rcases Nat.lt_or_ge column' column with hlt | hge
  · have hdigit := h.digits column' hlt hother.start_le
    rw [hother.behind] at hdigit
    cases hdigit
  · exact hge

/-- A run splits at one column only. -/
theorem SplitsAt.unique (h : run.SplitsAt line column) (hother : run.SplitsAt line column') :
    column = column' :=
  Nat.le_antisymm (h.le hother) (hother.le h)

/-- Every letter and every digit belongs to a run. -/
theorem exists_isRun (h : holdsAt Char.isAlphanum line k = true) :
    ∃ run, IsRun line run ∧ run.start ≤ k ∧ k < run.stop := by
  obtain ⟨start, hstart, hahead, hbefore⟩ := exists_start Char.isAlphanum line k
  obtain ⟨stop, hstop, hinside, hbehind⟩ := exists_stop Char.isAlphanum line k
  have hne : stop ≠ k := by
    rintro rfl
    rw [h] at hbehind
    cases hbehind
  refine ⟨⟨start, stop⟩, ⟨by show start < stop; omega, fun j hj hsj => ?_, hbefore, hbehind⟩,
    hstart, by show k < stop; omega⟩
  rcases Nat.lt_or_ge j k with hlt | hge
  · exact hahead j hlt hsj
  · exact hinside j hj hge

/-- Every run splits somewhere. -/
theorem IsRun.exists_splitsAt (h : run.IsRun line) : ∃ column, run.SplitsAt line column := by
  obtain ⟨column, hle, hdigits, hbehind⟩ := exists_stop Char.isDigit line run.start
  refine ⟨column, hle, ?_, hdigits, hbehind⟩
  rcases Nat.lt_or_ge run.stop column with hlt | hge
  · have hdigit := hdigits run.stop hlt (by have := h.start_lt; omega)
    have halphanum := holdsAt_isAlphanum hdigit
    rw [h.behind] at halphanum
    cases halphanum
  · exact hge

/-! ## Chunks -/

/-- A chunk is one of the two parts of a run, if there is something in it. -/
theorem isChunk_iff :
    s.IsChunk line ↔ s.start < s.stop ∧ ∃ run column, IsRun line run ∧ run.SplitsAt line column ∧
      (s = ⟨run.start, column⟩ ∨ s = ⟨column, run.stop⟩) := by
  constructor
  · rintro (⟨hlt, stop, _, hrun, hsplit⟩ | ⟨hlt, start, _, hrun, hsplit⟩)
    · exact ⟨hlt, _, _, hrun, hsplit, .inl rfl⟩
    · exact ⟨hlt, _, _, hrun, hsplit, .inr rfl⟩
  · rintro ⟨hlt, run, column, hrun, hsplit, rfl | rfl⟩
    · exact .inl ⟨hlt, run.stop, Nat.lt_succ_of_le hrun.stop_le_length, hrun, hsplit⟩
    · exact .inr ⟨hlt, run.start, Nat.lt_succ_of_le hsplit.start_le, hrun, hsplit⟩

/-- A chunk lies within a run. -/
theorem IsChunk.isAlphanum (h : s.IsChunk line) (hstart : s.start ≤ k) (hstop : k < s.stop) :
    holdsAt Char.isAlphanum line k = true := by
  obtain ⟨_, run, column, hrun, hsplit, rfl | rfl⟩ := isChunk_iff.mp h
  · exact hrun.inside k (Nat.lt_of_lt_of_le hstop hsplit.le_stop) hstart
  · exact hrun.inside k hstop (Nat.le_trans hsplit.start_le hstart)

theorem IsChunk.start_lt (h : s.IsChunk line) : s.start < s.stop :=
  (isChunk_iff.mp h).1

theorem IsChunk.stop_le_length (h : s.IsChunk line) : s.stop ≤ line.length := by
  have hstart := h.start_lt
  have hlast := lt_length_of_holdsAt (h.isAlphanum (k := s.stop - 1) (by omega) (by omega))
  omega

/-- Different chunks have no column in common. -/
theorem IsChunk.eq_of_mem (h : s.IsChunk line) (hother : other.IsChunk line) (hstart : s.start ≤ k)
    (hstop : k < s.stop) (hstart' : other.start ≤ k) (hstop' : k < other.stop) : s = other := by
  obtain ⟨_, run, column, hrun, hsplit, hs⟩ := isChunk_iff.mp h
  obtain ⟨_, run', column', hrun', hsplit', hother⟩ := isChunk_iff.mp hother
  have hmem : run.start ≤ k ∧ k < run.stop := by
    have := hsplit.start_le
    have := hsplit.le_stop
    rcases hs with rfl | rfl <;> dsimp only at hstart hstop <;> omega
  have hmem' : run'.start ≤ k ∧ k < run'.stop := by
    have := hsplit'.start_le
    have := hsplit'.le_stop
    rcases hother with rfl | rfl <;> dsimp only at hstart' hstop' <;> omega
  obtain rfl := hrun.eq_of_mem hrun' hmem.1 hmem.2 hmem'.1 hmem'.2
  obtain rfl := hsplit.unique hsplit'
  -- The column is on one side of the split, so that both chunks are the same part of the run.
  rcases hs with rfl | rfl <;> rcases hother with rfl | rfl <;>
    first | rfl | (dsimp only at hstart hstop hstart' hstop'; omega)

/-- Every letter and every digit belongs to a chunk. -/
theorem exists_isChunk (h : holdsAt Char.isAlphanum line k = true) :
    ∃ s, IsChunk line s ∧ s.start ≤ k ∧ k < s.stop := by
  obtain ⟨run, hrun, hstart, hstop⟩ := exists_isRun h
  obtain ⟨column, hsplit⟩ := hrun.exists_splitsAt
  rcases Nat.lt_or_ge k column with hlt | hge
  · refine ⟨⟨run.start, column⟩, isChunk_iff.mpr ⟨?_, run, column, hrun, hsplit, .inl rfl⟩, hstart,
      hlt⟩
    exact Nat.lt_of_le_of_lt hstart hlt
  · refine ⟨⟨column, run.stop⟩, isChunk_iff.mpr ⟨?_, run, column, hrun, hsplit, .inr rfl⟩, hge,
      hstop⟩
    exact Nat.lt_of_le_of_lt hge hstop

end Span

theorem mem_chunks {s : Span} : s ∈ chunks line ↔ s.IsChunk line := by
  obtain ⟨start, stop⟩ := s
  simp only [chunks, List.mem_filter, decide_eq_true_eq, and_iff_right_iff_imp]
  intro h
  have hlt : start < stop := h.start_lt
  have hle : stop ≤ line.length := h.stop_le_length
  simp [spans]
  omega

/-- The chunks of a line stand in reading order, and none of them overlaps the next one. -/
theorem pairwise_chunks (line : List Char) :
    (chunks line).Pairwise fun s other => s.stop ≤ other.start := by
  have hspans : (spans line).Pairwise fun s other =>
      s.start < other.start ∨ s.start = other.start ∧ s.stop < other.stop := by
    refine List.pairwise_flatMap.mpr ⟨fun start _ => ?_, List.pairwise_lt_range.imp ?_⟩
    · exact List.pairwise_map.mpr (List.pairwise_lt_range.imp fun hlt => .inr ⟨rfl, hlt⟩)
    · intro start start' hlt s hs other hother
      obtain ⟨_, _, rfl⟩ := List.mem_map.mp hs
      obtain ⟨_, _, rfl⟩ := List.mem_map.mp hother
      exact .inl hlt
  refine (hspans.filter _).imp_of_mem fun {s other} hs hother hbefore => ?_
  have hchunk : s.IsChunk line := mem_chunks.mp hs
  have hchunk' : other.IsChunk line := mem_chunks.mp hother
  have hlt := hchunk.start_lt
  have hlt' := hchunk'.start_lt
  -- Otherwise the second chunk starts within the first one, so that they are the same.
  rcases Nat.lt_or_ge other.start s.stop with hinside | hge
  · obtain rfl := hchunk.eq_of_mem hchunk' (k := other.start) (by omega) hinside (by omega) hlt'
    omega
  · exact hge

/-! ## Boundaries -/

theorem boundary_iff {column : Nat} :
    Boundary line column ↔ ∀ s : Span, s.IsChunk line → s.start < column → s.stop ≤ column := by
  simp [Boundary, mem_chunks]

theorem boundary_zero : Boundary line 0 :=
  boundary_iff.mpr fun _ _ hlt => absurd hlt (Nat.not_lt_zero _)

/-- A chunk stops at a boundary. -/
theorem Span.IsChunk.boundary_stop {s : Span} (h : s.IsChunk line) : Boundary line s.stop := by
  rw [boundary_iff]
  intro other hother hlt
  rcases Nat.lt_or_ge s.stop other.stop with hinside | hge
  · have hstart := h.start_lt
    obtain rfl := h.eq_of_mem hother (k := s.stop - 1) (by omega) (by omega) (by omega) (by omega)
    exact Nat.le_refl _
  · exact hge

/-- There is a boundary behind every character that is neither a letter nor a digit. -/
theorem boundary_succ {column : Nat} (h : holdsAt Char.isAlphanum line column = false) :
    Boundary line (column + 1) := by
  rw [boundary_iff]
  intro s hs hlt
  rcases Nat.lt_or_ge (column + 1) s.stop with hinside | hge
  · have halphanum := hs.isAlphanum (Nat.le_of_lt_succ hlt) (Nat.lt_of_succ_lt hinside)
    rw [h] at halphanum
    cases halphanum
  · exact hge

/-! ## Reading from the start of a chunk -/

/-- A class of characters holds of the rest of a line as far as it does at the columns. -/
theorem length_takeWhile_drop {p : Char → Bool} {start stop : Nat} (hle : start ≤ stop)
    (hinside : ∀ k < stop, start ≤ k → holdsAt p line k = true)
    (hbehind : holdsAt p line stop = false) :
    ((line.drop start).takeWhile p).length = stop - start := by
  rcases Nat.eq_or_lt_of_le hle with rfl | hlt
  · have hhead : ((line.drop start).takeWhile p).head? = none := by
      rw [holdsAt, ← List.head?_drop] at hbehind
      rw [List.head?_takeWhile]
      cases hat : (line.drop start).head? <;> simp_all
    rw [List.head?_eq_none_iff.mp hhead, Nat.sub_self, List.length_nil]
  · obtain ⟨c, hat, hc⟩ := holdsAt_eq_true_iff.mp (hinside start hlt (Nat.le_refl start))
    obtain ⟨hlength, rfl⟩ := List.getElem?_eq_some_iff.mp hat
    have hlater := length_takeWhile_drop (Nat.succ_le_of_lt hlt)
      (fun k hk hle => hinside k hk (Nat.le_of_succ_le hle)) hbehind
    rw [List.drop_eq_getElem_cons hlength, List.takeWhile_cons_of_pos hc, List.length_cons, hlater]
    omega
termination_by stop - start

theorem holdsAt_eq_any_head? {p : Char → Bool} {k : Nat} :
    holdsAt p line k = (line.drop k).head?.any p := by
  rw [holdsAt, List.head?_drop]

/-- A chunk starts in front of every letter and every digit. -/
theorem chunk_drop_eq_nil_iff {k : Nat} :
    chunk (line.drop k) = [] ↔ holdsAt Char.isAlphanum line k = false := by
  rw [holdsAt_eq_any_head?]
  cases line.drop k with
  | nil => exact iff_of_true chunk_nil rfl
  | cons c rest => exact chunk_cons_eq_nil_iff

/-- Digits come before all letters. -/
theorem isAlpha_eq_false_of_isDigit {c : Char} (h : c.isDigit = true) : c.isAlpha = false := by
  have hdigit : c.toNat ≤ 57 := (Char.isDigit_iff_toNat.mp h).2
  rw [Bool.eq_false_iff]
  intro halpha
  rcases (Bool.or_eq_true _ _).mp halpha with hupper | hlower
  · have hle : 65 ≤ c.toNat := UInt32.le_iff_toNat_le.mp (of_decide_eq_true hupper).1
    omega
  · have hle : 97 ≤ c.toNat :=
      UInt32.le_iff_toNat_le.mp (of_decide_eq_true ((Bool.and_eq_true _ _).mp hlower).1)
    omega

/-- A number does not start with a letter. -/
theorem Span.IsNumber.isAlpha_start {s : Span} (h : s.IsNumber line) :
    holdsAt Char.isAlpha line s.start = false := by
  obtain ⟨hlt, _, _, _, hsplit⟩ := h
  obtain ⟨c, hat, hdigit⟩ := holdsAt_eq_true_iff.mp (hsplit.digits s.start hlt (Nat.le_refl _))
  rw [holdsAt, hat]
  exact isAlpha_eq_false_of_isDigit hdigit

/-- A word starts with a letter. -/
theorem Span.IsWord.isAlpha_start {s : Span} (h : s.IsWord line) :
    holdsAt Char.isAlpha line s.start = true := by
  obtain ⟨c, hat, halphanum⟩ :=
    holdsAt_eq_true_iff.mp (Span.IsChunk.isAlphanum (.inr h) (Nat.le_refl _) h.1)
  obtain ⟨_, _, _, _, hsplit⟩ := h
  have hdigit := hsplit.behind
  rw [holdsAt, hat] at hdigit ⊢
  simp_all [Char.isAlphanum]

/-- The characters from the start of a chunk on start with this chunk. -/
theorem Span.IsChunk.length_chunk {s : Span} (h : s.IsChunk line) :
    (chunk (line.drop s.start)).length = s.stop - s.start := by
  rcases h with hnumber | hword
  · have halpha := hnumber.isAlpha_start
    obtain ⟨hlt, _, _, _, hsplit⟩ := hnumber
    rw [holdsAt_eq_any_head?] at halpha
    rw [chunk, halpha, if_neg Bool.false_ne_true]
    exact length_takeWhile_drop (Nat.le_of_lt hlt) hsplit.digits hsplit.behind
  · have halpha := hword.isAlpha_start
    rw [holdsAt_eq_any_head?] at halpha
    rw [chunk, if_pos halpha]
    obtain ⟨hlt, _, _, hrun, hsplit⟩ := hword
    exact length_takeWhile_drop (Nat.le_of_lt hlt)
      (fun k hk hle => hrun.inside k hk (Nat.le_trans hsplit.start_le hle)) hrun.behind

/-- The chunk that starts at a boundary in front of a letter or a digit. -/
theorem Boundary.isChunk {column : Nat} (hboundary : Boundary line column)
    (h : holdsAt Char.isAlphanum line column = true) :
    Span.IsChunk line ⟨column, column + (chunk (line.drop column)).length⟩ := by
  obtain ⟨⟨start, stop⟩, hs, hstart, hstop⟩ := Span.exists_isChunk h
  dsimp only at hstart hstop
  have hge : start < column → stop ≤ column := boundary_iff.mp hboundary _ hs
  obtain rfl : start = column := by omega
  have hlength : (chunk (line.drop start)).length = stop - start := hs.length_chunk
  rw [hlength, Nat.add_sub_cancel' (Nat.le_of_lt hstop)]
  exact hs

end LineLexer
