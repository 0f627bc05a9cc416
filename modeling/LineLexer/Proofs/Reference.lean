import LineLexer.Proofs.Chunks
import LineLexer.Proofs.TextTokens

/-!
# The tokens of a line without a scan

`Rules.lineReference` says what the tokens of a line are in terms of the whole line: its comment
starts at the least boundary where the marker stands, and the words and numbers in front of it are
the other tokens. A scan from left to right finds the same tokens, because it comes from boundary to
boundary: `Rules.tokensFrom_eq_layOut` is about the tokens from any of them on.
-/

namespace LineLexer

/-- The characters of a line within a span. -/
def Span.covered (line : List Char) (s : Span) : List Char :=
  (line.drop s.start).take (s.stop - s.start)

namespace Rules

/-- The category and the modifier of a number or a word of a line. -/
def spanKind (rules : Rules) (line : List Char) (s : Span) : Category × Modifier :=
  if s.IsNumber line then (.number, .static)
  else if String.ofList (s.covered line) ∈ rules.reservedWords then (.keyword, .modification)
  else if holdsAt Char.isUpper line s.start then (.typeName, .declaration)
  else (.identifier, .declaration)

/-- The token of a number or a word of a line. -/
def spanToken (rules : Rules) (lineIndex : Nat) (line : List Char) (s : Span) : Token :=
  ⟨lineIndex, s.start, s.stop - s.start, (rules.spanKind line s).1,
    .singleton (rules.spanKind line s).2⟩

/-- The comment marker stands at a boundary of a line. -/
def OpensAt (rules : Rules) (line : List Char) (column : Nat) : Prop :=
  Boundary line column ∧ rules.lineComment.toList <+: line.drop column

instance (rules : Rules) (line : List Char) (column : Nat) :
    Decidable (rules.OpensAt line column) :=
  inferInstanceAs (Decidable (_ ∧ _))

/-- The column where the comment of a line starts, if there is one. -/
def commentColumn? (rules : Rules) (line : List Char) : Option Nat :=
  (List.range (line.length + 1)).find? fun column => rules.OpensAt line column

/-- The tokens of the chunks that lie before a comment and the token of the comment. -/
def layOut (rules : Rules) (lineIndex : Nat) (line : List Char) (found : List Span) :
    Option Nat → List Token
  | none => found.map (rules.spanToken lineIndex line)
  | some column =>
    (found.filter fun s => s.stop ≤ column).map (rules.spanToken lineIndex line) ++
      [commentToken lineIndex column (line.length - column)]

/-- The tokens of a line. -/
def lineReference (rules : Rules) (lineIndex : Nat) (line : List Char) : List Token :=
  rules.layOut lineIndex line (chunks line) (rules.commentColumn? line)

end Rules

variable {rules : Rules} {line : List Char} {lineIndex column : Nat}

/-! ## The chunks from a column on -/

/-- The chunks of a line that start at a column or behind it. -/
def chunksFrom (line : List Char) (column : Nat) : List Span :=
  (chunks line).filter fun s => column ≤ s.start

theorem chunksFrom_zero : chunksFrom line 0 = chunks line := by
  simp [chunksFrom]

theorem chunksFrom_length : chunksFrom line line.length = [] := by
  rw [chunksFrom, List.filter_eq_nil_iff]
  intro s hs
  have hlt := (mem_chunks.mp hs).start_lt
  have hle := (mem_chunks.mp hs).stop_le_length
  rw [decide_eq_true_eq]
  omega

/-- Columns where no chunk starts can be left out. -/
theorem chunksFrom_succ (h : holdsAt Char.isAlphanum line column = false) :
    chunksFrom line column = chunksFrom line (column + 1) := by
  apply List.filter_congr
  intro s hs
  have hne : s.start ≠ column := by
    rintro rfl
    have hstart := (mem_chunks.mp hs).isAlphanum (Nat.le_refl _) (mem_chunks.mp hs).start_lt
    rw [h] at hstart
    cases hstart
  rw [decide_eq_decide]
  omega

/-- In a list of spans in reading order, one of them is followed by those that start behind it. -/
theorem filter_start_eq_cons {found : List Span} {s : Span}
    (hlt : ∀ other ∈ found, other.start < other.stop)
    (horder : found.Pairwise fun left right => left.stop ≤ right.start) (hs : s ∈ found) :
    (found.filter fun other => s.start ≤ other.start) =
      s :: found.filter fun other => s.stop ≤ other.start := by
  induction found with
  | nil => cases hs
  | cons first later ih =>
      obtain ⟨hfirst, hlater⟩ := List.pairwise_cons.mp horder
      have hfirstlt := hlt first (by simp)
      -- What comes before the span is in neither list, and what comes behind it is in both.
      rcases List.mem_cons.mp hs with rfl | hmem
      · have hbehind : ∀ other ∈ later, s.start ≤ other.start := fun other hother =>
          Nat.le_trans (Nat.le_of_lt hfirstlt) (hfirst other hother)
        rw [List.filter_cons_of_pos (by simp), List.filter_cons_of_neg (by simpa using hfirstlt),
          List.filter_eq_self.mpr (by simpa using hbehind),
          List.filter_eq_self.mpr (by simpa using hfirst)]
      · have hbefore : first.start < s.start := Nat.lt_of_lt_of_le hfirstlt (hfirst s hmem)
        have hbefore' : first.start < s.stop := Nat.lt_trans hbefore (hlt s hs)
        rw [List.filter_cons_of_neg (by simpa using hbefore),
          List.filter_cons_of_neg (by simpa using hbefore')]
        exact ih (fun other hother => hlt other (List.mem_cons_of_mem _ hother)) hlater hmem

/-- A chunk comes before those that start behind it. -/
theorem chunksFrom_of_isChunk {s : Span} (h : s.IsChunk line) :
    chunksFrom line s.start = s :: chunksFrom line s.stop :=
  filter_start_eq_cons (fun _ hother => (mem_chunks.mp hother).start_lt) (pairwise_chunks line)
    (mem_chunks.mpr h)

/-! ## The comment from a column on -/

namespace Rules

/-- The column where the comment of a line starts, unless this is before a given one. -/
def commentFrom? (rules : Rules) (line : List Char) (column : Nat) : Option Nat :=
  (List.range (line.length + 1)).find? fun k => column ≤ k ∧ rules.OpensAt line k

theorem commentFrom?_zero : rules.commentFrom? line 0 = rules.commentColumn? line := by
  simp [commentFrom?, commentColumn?]

theorem le_of_commentFrom? {k : Nat} (h : rules.commentFrom? line column = some k) :
    column ≤ k := by
  have hfound := List.find?_some h
  rw [decide_eq_true_eq] at hfound
  exact hfound.1

theorem commentFrom?_of_opensAt (hle : column ≤ line.length) (h : rules.OpensAt line column) :
    rules.commentFrom? line column = some column := by
  refine List.find?_range_eq_some.mpr ⟨by simpa using h, by simpa using Nat.lt_succ_of_le hle, ?_⟩
  intro k hk
  simp [hk]

/-- Columns where no comment starts can be left out. -/
theorem commentFrom?_congr {later : Nat} (hle : column ≤ later)
    (h : ∀ k < later, column ≤ k → ¬ rules.OpensAt line k) :
    rules.commentFrom? line column = rules.commentFrom? line later := by
  unfold commentFrom?
  congr 1
  funext k
  rw [decide_eq_decide]
  constructor
  · rintro ⟨hk, hopens⟩
    refine ⟨?_, hopens⟩
    rcases Nat.lt_or_ge k later with hlt | hge
    · exact absurd hopens (h k hlt hk)
    · exact hge
  · rintro ⟨hk, hopens⟩
    exact ⟨Nat.le_trans hle hk, hopens⟩

/-! ## From boundary to boundary -/

/-- The characters of a chunk are those that the line starts with at its column. -/
theorem covered_eq {s : Span} (h : s.IsChunk line) :
    s.covered line = chunk (line.drop s.start) := by
  rw [chunk_eq_take, h.length_chunk, Span.covered]

/-- Whether a chunk is a number or a word shows in its first character. -/
theorem spanKind_eq {s : Span} (h : s.IsChunk line) :
    rules.spanKind line s = rules.classifyChunk (chunk (line.drop s.start)) := by
  have hhead : (chunk (line.drop s.start)).head? = (line.drop s.start).head? := by
    apply head?_chunk
    have hlt := h.start_lt
    rw [← List.length_pos_iff, h.length_chunk]
    omega
  rw [spanKind, classifyChunk, classify, covered_eq h, hhead]
  rcases h with hnumber | hword
  · have halpha := hnumber.isAlpha_start
    rw [holdsAt_eq_any_head?] at halpha
    rw [if_pos hnumber, halpha, if_neg Bool.false_ne_true]
  · have halpha := hword.isAlpha_start
    have hnumber : ¬ s.IsNumber line := by
      intro hnumber
      rw [hnumber.isAlpha_start] at halpha
      cases halpha
    rw [holdsAt_eq_any_head?] at halpha
    rw [if_neg hnumber, halpha, if_pos rfl, holdsAt_eq_any_head?]
    simp only [List.contains_iff_mem]

/-- The token of a chunk is the one that starts at its column. -/
theorem spanToken_eq {s : Span} (h : s.IsChunk line) :
    rules.spanToken lineIndex line s =
      rules.chunkToken lineIndex s.start (chunk (line.drop s.start)) := by
  rw [spanToken, chunkToken, spanKind_eq h, h.length_chunk]

/-- A comment that starts where the chunks do is alone. -/
theorem layOut_comment :
    rules.layOut lineIndex line (chunksFrom line column) (some column) =
      [commentToken lineIndex column (line.length - column)] := by
  have hnone : (chunksFrom line column).filter (fun s => s.stop ≤ column) = [] := by
    rw [List.filter_eq_nil_iff]
    intro s hs
    obtain ⟨hmem, hle⟩ := List.mem_filter.mp hs
    have hlt := (mem_chunks.mp hmem).start_lt
    rw [decide_eq_true_eq] at hle ⊢
    omega
  rw [layOut, hnone]
  rfl

/-- A chunk in front of the comment is the first one. -/
theorem layOut_cons {s : Span} {found : List Span} {comment? : Option Nat}
    (h : ∀ k, comment? = some k → s.stop ≤ k) :
    rules.layOut lineIndex line (s :: found) comment? =
      rules.spanToken lineIndex line s :: rules.layOut lineIndex line found comment? := by
  cases comment? with
  | none => rfl
  | some k =>
      rw [layOut, List.filter_cons_of_pos (by simpa using h k rfl)]
      rfl

/-- No comment starts at the end of a line. -/
theorem Valid.commentFrom?_length (h : rules.Valid) :
    rules.commentFrom? line line.length = none := by
  rw [commentFrom?, List.find?_eq_none]
  intro k _ hk
  obtain ⟨hle, -, hmarker⟩ := of_decide_eq_true hk
  rw [List.drop_eq_nil_of_le hle, List.prefix_nil] at hmarker
  exact h.marker_ne_nil hmarker

/-- From a boundary where no token starts a scan goes on to the next column. -/
theorem skip_step (hat : rules.tokenAt? lineIndex column (line.drop column) = none) :
    Boundary line (column + 1) ∧ chunksFrom line column = chunksFrom line (column + 1) ∧
      rules.commentFrom? line column = rules.commentFrom? line (column + 1) := by
  obtain ⟨hopens, hchunk⟩ := tokenAt?_eq_none_iff.mp hat
  have hother : holdsAt Char.isAlphanum line column = false := chunk_drop_eq_nil_iff.mp hchunk
  refine ⟨boundary_succ hother, chunksFrom_succ hother, commentFrom?_congr (Nat.le_succ _) ?_⟩
  rintro k hk hle ⟨-, hmarker⟩
  obtain rfl : k = column := Nat.le_antisymm (Nat.le_of_lt_succ hk) hle
  rw [opensComment_iff.mpr hmarker] at hopens
  cases hopens

/-- From a boundary where a chunk starts a scan goes on to the end of the chunk. -/
theorem chunk_step {stop : Nat} (hboundary : Boundary line column)
    (hopens : rules.opensComment (line.drop column) = false)
    (hchunk : chunk (line.drop column) ≠ [])
    (hstop : stop = column + (chunk (line.drop column)).length) :
    Span.IsChunk line ⟨column, stop⟩ ∧ Boundary line stop ∧
      rules.commentFrom? line column = rules.commentFrom? line stop := by
  have halphanum : holdsAt Char.isAlphanum line column = true := by
    rw [Ne, chunk_drop_eq_nil_iff, Bool.not_eq_false] at hchunk
    exact hchunk
  have hs : Span.IsChunk line ⟨column, stop⟩ := hstop ▸ hboundary.isChunk halphanum
  refine ⟨hs, hs.boundary_stop, commentFrom?_congr (Nat.le_of_lt hs.start_lt) ?_⟩
  rintro k hk hle ⟨hinside, hmarker⟩
  rcases Nat.eq_or_lt_of_le hle with rfl | hlater
  · rw [opensComment_iff.mpr hmarker] at hopens
    cases hopens
  · have hge : stop ≤ k := boundary_iff.mp hinside _ hs hlater
    omega

/-- The tokens from a boundary on are laid out by the chunks and the comment from there on. -/
theorem Valid.tokensFrom_eq_layOut (h : rules.Valid) {column : Nat} (hle : column ≤ line.length)
    (hboundary : Boundary line column) :
    rules.tokensFrom lineIndex column (line.drop column) =
      rules.layOut lineIndex line (chunksFrom line column) (rules.commentFrom? line column) := by
  rcases Nat.eq_or_lt_of_le hle with rfl | hlt
  · rw [List.drop_length, tokensFrom_nil, chunksFrom_length, h.commentFrom?_length]
    rfl
  · have hdrop := List.drop_eq_getElem_cons hlt
    have hne : line.drop column ≠ [] := by
      rw [hdrop]
      exact List.cons_ne_nil _ _
    cases hat : rules.tokenAt? lineIndex column (line.drop column) with
    -- The character here is in no token and in no chunk.
    | none =>
        obtain ⟨hboundary', hchunks, hcomment⟩ := skip_step hat
        rw [hchunks, hcomment, ← Valid.tokensFrom_eq_layOut h hlt hboundary', hdrop,
          tokensFrom_of_none (by rw [← hdrop, hat])]
    | some t =>
        rw [tokensFrom_of_some hne hat]
        rcases tokenAt?_cases hat with ⟨hopens, rfl⟩ | ⟨hopens, hchunk, rfl⟩
        · have hhere : rules.OpensAt line column := ⟨hboundary, opensComment_iff.mp hopens⟩
          -- Every chunk from here on is within the comment.
          rw [commentFrom?_of_opensAt hle hhere, layOut_comment, commentToken,
            List.drop_length, tokensFrom_nil, List.length_drop]
          rfl
        · let s : Span := ⟨column, column + (chunk (line.drop column)).length⟩
          obtain ⟨hs, hboundary', hcomment⟩ : s.IsChunk line ∧ Boundary line s.stop ∧
              rules.commentFrom? line column = rules.commentFrom? line s.stop :=
            chunk_step hboundary hopens hchunk rfl
          have hpos : column < column + (chunk (line.drop column)).length := hs.start_lt
          have hlater := Valid.tokensFrom_eq_layOut h hs.stop_le_length hboundary'
          have hchunks : chunksFrom line column = s :: chunksFrom line s.stop :=
            chunksFrom_of_isChunk hs
          -- A comment that starts behind the chunk leaves it in place.
          have hbehind : ∀ k, rules.commentFrom? line s.stop = some k → s.stop ≤ k :=
            fun _ => le_of_commentFrom?
          rw [hchunks, hcomment, layOut_cons hbehind, ← hlater, spanToken_eq hs]
          show _ :: rules.tokensFrom lineIndex s.stop _ = _
          rw [List.drop_drop]
          rfl
termination_by line.length - column

end Rules

/-- The tokens of a text are those of its lines, said without a scan. -/
theorem Tokenizer.Obtained.tokenize_eq_reference {t : Tokenizer} (h : t.Obtained) (text : String) :
    t.tokenize text =
      ((Text.lines text.toList).mapIdx fun i line => t.rules.lineReference i line).flatten := by
  rw [tokenize_eq h.valid, Rules.tokensOfLines_eq_mapIdx]
  congr 2
  funext i line
  have hline : t.rules.tokensFrom i 0 (line.drop 0) = _ :=
    h.valid.tokensFrom_eq_layOut (Nat.zero_le line.length) boundary_zero
  rw [List.drop_zero, chunksFrom_zero, Rules.commentFrom?_zero] at hline
  rw [Nat.zero_add, hline, Rules.lineReference]

/-- The marker `rem` opens a comment in front of a digit, but not at the end of a word. -/
theorem Tokenizer.tokenize_remarks :
    (Tokenizer.mk Rules.remarks).Obtained ∧
      (Tokenizer.mk Rules.remarks).tokenize "2go rem1\n\nif xrem" =
        [⟨0, 0, 1, .number, .singleton .static⟩, ⟨0, 1, 2, .identifier, .singleton .declaration⟩,
          ⟨0, 4, 4, .comment, .singleton .documentation⟩,
          ⟨2, 0, 2, .keyword, .singleton .modification⟩,
          ⟨2, 3, 4, .identifier, .singleton .declaration⟩] :=
  ⟨remarks_obtained, (Obtained.tokenize_eq_reference remarks_obtained _).trans (by decide +kernel)⟩

end LineLexer
