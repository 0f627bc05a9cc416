import LineLexer.Proofs.ByteRuns
import LineLexer.Proofs.ScannerCalls

/-!
# Scans by byte offsets

A cursor keeps its whole line and the place that it has reached, counted in bytes and in characters.
Every round of its scan takes the unread characters out of the line at the offset in bytes, which
fails inside a character, and measures words and numbers in bytes. The two counts are moved on
separately: by the size of a character and by one, by the size of the rest and by its length, or both
by the length of a run. They stay in step, so that no round fails and a cursor finds what a scan
does, `Scanner.On.next_cursor`. The main statement is `Tokenizer.Obtained.scan_after_calls`.
-/

namespace LineLexer

open Json (utf8)

/-- A scan that keeps its whole line and counts what it has read of it in bytes and in
characters. -/
structure Cursor where
  lineIndex : Nat
  line : List Char
  offset : Nat
  column : Nat
  deriving DecidableEq, Repr

namespace Cursor

/-- A scan at the start of a line. -/
def start (lineIndex : Nat) (line : List Char) : Cursor :=
  ⟨lineIndex, line, 0, 0⟩

/-- The scan behind some more bytes, which are those of some characters. -/
def advance (s : Cursor) (bytes chars : Nat) : Cursor :=
  { s with offset := s.offset + bytes, column := s.column + chars }

/-- What a round of a scan comes to: the line is over, a character is passed over, or a token is
found. -/
inductive Round where
  | ended
  | passed (later : Cursor)
  | found (t : Token) (later : Cursor)

/-- A token of characters of one byte each. -/
def emit (s : Cursor) (length : Nat) (category : Category) (modifier : Modifier) : Round :=
  .found ⟨s.lineIndex, s.column, length, category, .singleton modifier⟩ (s.advance length length)

/-- The token of the word that some characters start with, unless it ends inside a character. -/
def takeWord (rules : Rules) (s : Cursor) (chars : List Char) : Option Round := do
  let length := Text.wordLength (utf8 chars)
  let (word, _) ← Text.cut? length chars
  let (category, modifier) := rules.classify word
  return s.emit length category modifier

/-- One round of a scan in front of some characters. -/
def roundAt (rules : Rules) (s : Cursor) : List Char → Option Round
  | [] => some .ended
  | c :: rest =>
    if rules.whitespace.contains c then some (.passed (s.advance c.utf8Size 1))
    else if rules.opensComment (c :: rest) then
      some (.found (commentToken s.lineIndex s.column (c :: rest).length)
        (s.advance (Text.bytes (c :: rest)) (c :: rest).length))
    else if 0 < Text.wordLength (utf8 (c :: rest)) then s.takeWord rules (c :: rest)
    else if 0 < Text.digitsLength (utf8 (c :: rest)) then
      some (s.emit (Text.digitsLength (utf8 (c :: rest))) .number .static)
    else some (.passed (s.advance c.utf8Size 1))

/-- One round of a scan, unless the offset is inside a character or behind the line. -/
def round (rules : Rules) (s : Cursor) : Option Round := do
  let (_, rest) ← Text.cut? s.offset s.line
  s.roundAt rules rest

variable {rules : Rules} {s later : Cursor} {t : Token}

/-- A round passes over one character at most. -/
theorem exists_of_roundAt_passed {rest : List Char}
    (h : s.roundAt rules rest = some (.passed later)) :
    ∃ c more, rest = c :: more ∧ later = s.advance c.utf8Size 1 := by
  unfold roundAt at h
  split at h
  · cases h
  · next c more =>
      split_ifs at h
      · cases h
        exact ⟨c, more, rfl, rfl⟩
      · cases h
      · obtain ⟨_, _, hfound⟩ := Option.bind_eq_some_iff.mp h
        cases hfound
      · cases h
      · cases h
        exact ⟨c, more, rfl, rfl⟩

/-- A round that passes over a character leaves fewer bytes. -/
theorem unread_of_round_passed (h : s.round rules = some (.passed later)) :
    Text.bytes later.line - later.offset < Text.bytes s.line - s.offset := by
  obtain ⟨⟨front, rest⟩, hcut, hround⟩ := Option.bind_eq_some_iff.mp h
  obtain ⟨c, more, rfl, rfl⟩ := exists_of_roundAt_passed hround
  obtain ⟨hline, hoffset⟩ := Text.eq_of_cut?_eq_some hcut
  have hpos := c.utf8Size_pos
  have hsize : Text.bytes s.line = s.offset + (c.utf8Size + Text.bytes more) := by
    rw [hline, Text.bytes_append, hoffset]
    rfl
  show Text.bytes s.line - (s.offset + c.utf8Size) < Text.bytes s.line - s.offset
  omega

/-- The next token of a scan, if there is one, and the scan after it, unless a round fails. -/
def next (rules : Rules) (s : Cursor) : Option (Option Token × Cursor) :=
  match _round : s.round rules with
  | none => none
  | some .ended => some (none, s)
  | some (.found t later) => some (some t, later)
  | some (.passed later) => later.next rules
termination_by Text.bytes s.line - s.offset
decreasing_by exact unread_of_round_passed _round

/-- The scan after a number of calls, unless one of them fails. -/
def after (rules : Rules) : Nat → Cursor → Option Cursor
  | 0, s => some s
  | calls + 1, s => do
    let (_, later) ← s.next rules
    after rules calls later

theorem next_of_ended (h : s.round rules = some .ended) : s.next rules = some (none, s) := by
  rw [next]
  split <;> simp_all

theorem next_of_found (h : s.round rules = some (.found t later)) :
    s.next rules = some (some t, later) := by
  rw [next]
  split <;> simp_all

theorem next_of_passed (h : s.round rules = some (.passed later)) :
    s.next rules = later.next rules := by
  rw [next]
  split <;> simp_all

end Cursor

/-! ## The cursor of a scan -/

namespace Scanner

variable {rules : Rules} {line rest : List Char} {s : Scanner} {lineIndex column : Nat}

/-- The cursor that has read as many characters of a line as a scan. -/
def cursor (line : List Char) (s : Scanner) : Cursor :=
  ⟨s.lineIndex, line, Text.bytes (line.take s.column), s.column⟩

/-- The unread characters of a scan stand at the offset of its cursor. -/
theorem On.cut? (hon : s.On line) :
    Text.cut? (s.cursor line).offset line = some (line.take s.column, s.rest) := by
  have hcut := Text.cut?_bytes (line.take s.column) (line.drop s.column)
  rwa [List.take_append_drop, ← hon.rest_eq] at hcut

/-- A cursor that moves on by the size and the number of some characters is behind these. -/
theorem On.advance {covered : List Char} (hon : On line ⟨lineIndex, column, covered ++ rest⟩) :
    (cursor line ⟨lineIndex, column, covered ++ rest⟩).advance (Text.bytes covered) covered.length =
      cursor line ⟨lineIndex, column + covered.length, rest⟩ := by
  have hrest : covered ++ rest = line.drop column := hon.rest_eq
  have hbytes : Text.bytes (line.take (column + covered.length)) =
      Text.bytes (line.take column) + Text.bytes covered := by
    rw [List.take_add, ← hrest, List.take_left, Text.bytes_append]
  show Cursor.mk _ _ (Text.bytes (line.take column) + Text.bytes covered) _ = _
  rw [← hbytes]
  rfl

/-- A round of a cursor takes place in front of the unread characters. -/
theorem On.round_eq (hon : s.On line) :
    (s.cursor line).round rules = (s.cursor line).roundAt rules s.rest := by
  show (Text.cut? (s.cursor line).offset line).bind _ = _
  rw [hon.cut?]
  rfl

/-- A round of a cursor and a scan go the same way: both pass over a character, or both find a token
and are behind it. -/
inductive SameWay (rules : Rules) (line : List Char) (lineIndex column : Nat) (rest : List Char) :
    Option Cursor.Round → Option Token × Scanner → Prop where
  | pass : SameWay rules line lineIndex column rest
      (some (.passed (cursor line ⟨lineIndex, column + 1, rest⟩)))
      (scan rules lineIndex (column + 1) rest)
  | find (t : Token) (later : Scanner) : SameWay rules line lineIndex column rest
      (some (.found t (cursor line later))) (some t, later)

/-- Both make the same token of characters of one byte each. -/
theorem On.sameWay_emit {covered left : List Char}
    (hon : On line ⟨lineIndex, column, covered ++ left⟩)
    (hsize : Text.bytes covered = covered.length) (category : Category) (modifier : Modifier) :
    SameWay rules line lineIndex column rest
      (some ((cursor line ⟨lineIndex, column, covered ++ left⟩).emit covered.length category
        modifier))
      (emit lineIndex column covered left category modifier) := by
  have hadvance := hon.advance
  rw [hsize] at hadvance
  rw [Cursor.emit, hadvance]
  exact .find _ _

/-- Both make a comment of the rest of the line. -/
theorem On.sameWay_comment {chars : List Char} (hon : On line ⟨lineIndex, column, chars⟩) :
    SameWay rules line lineIndex column rest
      (some (.found (commentToken lineIndex column chars.length)
        ((cursor line ⟨lineIndex, column, chars⟩).advance (Text.bytes chars) chars.length)))
      (emit lineIndex column chars [] .comment .documentation) := by
  rw [← List.append_nil chars] at hon
  have hadvance := hon.advance
  rw [List.append_nil] at hadvance
  rw [hadvance]
  exact .find _ _

/-- Both take the same word, whether it is measured in bytes or in characters. -/
theorem On.sameWay_word {c : Char} (hon : On line ⟨lineIndex, column, c :: rest⟩)
    (halpha : c.isAlpha = true) :
    let word := c :: rest.takeWhile Char.isAlphanum
    SameWay rules line lineIndex column rest
      ((cursor line ⟨lineIndex, column, c :: rest⟩).takeWord rules (c :: rest))
      (emit lineIndex column word (rest.dropWhile Char.isAlphanum) (rules.classify word).1
        (rules.classify word).2) := by
  intro word
  have hchars : word ++ rest.dropWhile Char.isAlphanum = c :: rest := by
    rw [List.cons_append, List.takeWhile_append_dropWhile]
  have hlength : Text.wordLength (utf8 (c :: rest)) = word.length := by
    rw [Text.wordLength_utf8, if_pos halpha]
  show SameWay rules line lineIndex column rest
    ((Text.cut? (Text.wordLength (utf8 (c :: rest))) (c :: rest)).bind _) _
  rw [Text.cut?_wordLength halpha, hlength]
  rw [← hchars] at hon ⊢
  exact hon.sameWay_emit (Text.bytes_word halpha rest) _ _

/-- Both take the same number. -/
theorem On.sameWay_number {c : Char} (hon : On line ⟨lineIndex, column, c :: rest⟩)
    (hdigit : c.isDigit = true) :
    SameWay rules line lineIndex column rest
      (some ((cursor line ⟨lineIndex, column, c :: rest⟩).emit
        (c :: rest.takeWhile Char.isDigit).length .number .static))
      (emit lineIndex column (c :: rest.takeWhile Char.isDigit) (rest.dropWhile Char.isDigit)
        .number .static) := by
  have hchars : (c :: rest.takeWhile Char.isDigit) ++ rest.dropWhile Char.isDigit = c :: rest := by
    rw [List.cons_append, List.takeWhile_append_dropWhile]
  rw [← hchars] at hon ⊢
  exact hon.sameWay_emit (Text.bytes_number hdigit rest) _ _

/-- A round of a cursor goes the way of the scan, rule by rule. -/
theorem On.sameWay (rules : Rules) {c : Char} (hon : On line ⟨lineIndex, column, c :: rest⟩) :
    SameWay rules line lineIndex column rest
      ((cursor line ⟨lineIndex, column, c :: rest⟩).round rules)
      (scan rules lineIndex column (c :: rest)) := by
  have hpass : (cursor line ⟨lineIndex, column, c :: rest⟩).advance c.utf8Size 1 =
      cursor line ⟨lineIndex, column + 1, rest⟩ := by
    rw [← List.singleton_append] at hon ⊢
    exact hon.advance
  rw [hon.round_eq, Cursor.roundAt, scan, hpass, Text.wordLength_utf8, Text.digitsLength_utf8]
  by_cases hblank : rules.whitespace.contains c = true
  · rw [if_pos hblank, if_pos hblank]
    exact .pass
  rw [if_neg hblank, if_neg hblank]
  by_cases hopens : rules.opensComment (c :: rest) = true
  · rw [if_pos hopens, if_pos hopens]
    exact hon.sameWay_comment
  rw [if_neg hopens, if_neg hopens]
  by_cases halpha : c.isAlpha = true
  · rw [if_pos halpha, if_pos (List.length_pos_of_mem List.mem_cons_self), if_pos halpha]
    exact hon.sameWay_word halpha
  rw [if_neg halpha, if_neg (Nat.lt_irrefl 0), if_neg halpha]
  by_cases hdigit : c.isDigit = true
  · rw [if_pos hdigit, if_pos (List.length_pos_of_mem List.mem_cons_self), if_pos hdigit]
    exact hon.sameWay_number hdigit
  · rw [if_neg hdigit, if_neg (Nat.lt_irrefl 0), if_neg hdigit]
    exact .pass

/-! ## Calls -/

/-- A call of a cursor does not fail, and finds what the scan does. -/
theorem On.next_cursor (hon : s.On line) :
    (s.cursor line).next rules = some ((s.next rules).1, (s.next rules).2.cursor line) := by
  obtain ⟨lineIndex, column, chars⟩ := s
  show _ = some ((scan rules lineIndex column chars).1,
    (scan rules lineIndex column chars).2.cursor line)
  induction chars generalizing column with
  | nil => exact Cursor.next_of_ended hon.round_eq
  | cons c rest ih =>
      have hlater : On line ⟨lineIndex, column + 1, rest⟩ := by
        rw [← List.singleton_append] at hon
        exact hon.append
      have hway := hon.sameWay rules
      generalize hround : (cursor line ⟨lineIndex, column, c :: rest⟩).round rules = round at hway
      generalize scan rules lineIndex column (c :: rest) = result at hway
      cases hway with
      | pass => rw [Cursor.next_of_passed hround, ih _ hlater]
      | find t later => rw [Cursor.next_of_found hround]

/-- No call of the cursor fails, and it keeps up with the scan. -/
theorem On.after_cursor (hon : s.On line) (calls : Nat) :
    (s.cursor line).after rules calls = some ((s.after rules calls).cursor line) := by
  induction calls generalizing s with
  | zero => rfl
  | succ calls ih =>
      show ((s.cursor line).next rules).bind _ = _
      rw [hon.next_cursor]
      exact ih (hon.next_keeps rules).on

end Scanner

/-- Between any two calls a scan of a line can be taken up again: it holds the part of the line
behind its column, finds in it what a scan of that part alone does, and each call takes it behind a
token or to the end for good. A cursor gets there without ever cutting the line inside a character:
its offset is the number of bytes of the characters that it has read, and its next call finds what
that of the scan does. -/
theorem Tokenizer.Obtained.scan_after_calls {t : Tokenizer} (h : t.Obtained) (lineIndex : Nat)
    (line : List Char) (calls : Nat) :
    let s := (Scanner.start lineIndex line).after t.rules calls
    s.Resumable t.rules lineIndex line ∧
      (Cursor.start lineIndex line).after t.rules calls = some (s.cursor line) ∧
      (s.cursor line).offset = (utf8 (line.take s.column)).length ∧
      Text.cut? (s.cursor line).offset line = some (line.take s.column, s.rest) ∧
      (s.cursor line).next t.rules = some ((s.next t.rules).1, (s.next t.rules).2.cursor line) := by
  intro s
  have hstart := Scanner.start_on lineIndex line
  have hon : s.On line := (hstart.after t.rules calls).1
  exact ⟨Scanner.resumable_after h.valid lineIndex line calls, hstart.after_cursor calls,
    (Text.length_utf8 _).symm, hon.cut?, hon.next_cursor⟩

/-- Behind a letter of two bytes and a digit a word is still to be found, two columns and three bytes
into the line. -/
theorem Tokenizer.scan_after_calls_remarks :
    let rules := Rules.remarks
    let line := Char.ofNat 0x3BB :: "4if".toList
    let found : Token := ⟨7, 2, 2, .keyword, .singleton .modification⟩
    (Tokenizer.mk rules).Obtained ∧
      (Scanner.start 7 line).after rules 1 = ⟨7, 2, "if".toList⟩ ∧
      (Cursor.start 7 line).after rules 1 = some ⟨7, line, 3, 2⟩ ∧
      Cursor.next rules ⟨7, line, 3, 2⟩ = some (some found, ⟨7, line, 5, 4⟩) ∧
      Scanner.drain rules ⟨7, 2, "if".toList⟩ =
        ((Scanner.start 7 "if".toList).drain rules).map (Token.shift 0 2) := by
  intro rules line found
  have hstate : (Scanner.start 7 line).after rules 1 = ⟨7, 2, "if".toList⟩ := by decide
  have hcalls := Obtained.scan_after_calls remarks_obtained 7 line 1
  dsimp only at hcalls
  rw [hstate] at hcalls
  obtain ⟨hresumable, hcursor, _, _, hnext⟩ := hcalls
  exact ⟨remarks_obtained, hstate, hcursor, hnext, hresumable.drain_eq⟩

end LineLexer
