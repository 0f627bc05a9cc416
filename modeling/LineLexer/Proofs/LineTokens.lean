import LineLexer.Proofs.Validity

/-!
# The tokens of a line

`Rules.tokenAt?` says which token starts at a place of a line, looking at nothing but the characters
from there on, and `Rules.tokensFrom` reads a line with it. Blank characters play no part in either,
and where the characters stand makes no difference but to the place of the tokens,
`Rules.tokensFrom_add`. With valid rules a scan reads in the same way, `Scanner.scan_cons`: it passes
over places where no token starts, `Scanner.Reads`, and finds the first of the tokens that lie ahead
of it, `Scanner.Reads.tokensFrom_eq`. Rules that are not valid can give blanks a say in what a scan
finds, but `Token.StandsIn` still holds of every token, `Scanner.scan_keeps`.
-/

namespace LineLexer

/-- The word or number that some characters start with: letters and digits from a letter on, digits
from a digit on. -/
def chunk (chars : List Char) : List Char :=
  if chars.head?.any Char.isAlpha then chars.takeWhile Char.isAlphanum
  else chars.takeWhile Char.isDigit

/-- The comment of a given length. -/
def commentToken (lineIndex column length : Nat) : Token :=
  ⟨lineIndex, column, length, .comment, .singleton .documentation⟩

/-- A token as it is in a line and at a column further on. -/
def Token.shift (lines columns : Nat) (t : Token) : Token :=
  { t with line := t.line + lines, startColumn := t.startColumn + columns }

/-- What can be told of a token of a line whatever the rules are: it covers characters of the line,
the first of them is not blank, and if it is a comment the marker comes first. -/
structure Token.StandsIn (rules : Rules) (line : List Char) (t : Token) : Prop where
  length_pos : 0 < t.length
  end_le : t.endColumn ≤ line.length
  visible : ∀ c, (line.drop t.startColumn).head? = some c → c ∉ rules.whitespace
  marked : t.category = .comment → rules.lineComment.toList <+: line.drop t.startColumn

theorem Token.endColumn_shift (lines columns : Nat) (t : Token) :
    (t.shift lines columns).endColumn = t.endColumn + columns :=
  Nat.add_right_comm _ _ _

namespace Rules

/-- The category and the modifier of a word or a number. -/
def classifyChunk (rules : Rules) (covered : List Char) : Category × Modifier :=
  if covered.head?.any Char.isAlpha then rules.classify covered else (.number, .static)

/-- The token of a word or a number. -/
def chunkToken (rules : Rules) (lineIndex column : Nat) (covered : List Char) : Token :=
  ⟨lineIndex, column, covered.length, (rules.classifyChunk covered).1,
    .singleton (rules.classifyChunk covered).2⟩

/-- The token that starts at a column, where `chars` is the line from there on. -/
def tokenAt? (rules : Rules) (lineIndex column : Nat) (chars : List Char) : Option Token :=
  if rules.opensComment chars then some (commentToken lineIndex column chars.length)
  else if chunk chars = [] then none
  else some (rules.chunkToken lineIndex column (chunk chars))

end Rules

/-! ## Words and numbers -/

theorem dropWhile_eq_drop {α : Type} (p : α → Bool) (xs : List α) :
    xs.dropWhile p = xs.drop (xs.takeWhile p).length := by
  induction xs with
  | nil => rfl
  | cons x xs ih => cases hx : p x <;> simp [hx, ih]

@[simp] theorem chunk_nil : chunk [] = [] := rfl

theorem chunk_eq_take (chars : List Char) : chunk chars = chars.take (chunk chars).length := by
  unfold chunk
  split <;> exact List.prefix_iff_eq_take.mp (List.takeWhile_prefix _)

theorem length_chunk_le (chars : List Char) : (chunk chars).length ≤ chars.length := by
  rw [chunk_eq_take, List.length_take]
  exact Nat.min_le_right _ _

theorem isAlphanum_of_isDigit {c : Char} (h : c.isDigit = true) : c.isAlphanum = true := by
  simp [Char.isAlphanum, h]

theorem isAlphanum_of_mem_chunk {chars : List Char} {c : Char} (h : c ∈ chunk chars) :
    c.isAlphanum = true := by
  unfold chunk at h
  split at h
  · exact List.all_eq_true.mp List.all_takeWhile c h
  · exact isAlphanum_of_isDigit (List.all_eq_true.mp List.all_takeWhile c h)

/-- Every letter and every digit starts a word or a number, and no other character does. -/
theorem chunk_cons_eq_nil_iff {c : Char} {rest : List Char} :
    chunk (c :: rest) = [] ↔ c.isAlphanum = false := by
  cases halpha : c.isAlpha <;> cases hdigit : c.isDigit <;>
    simp [chunk, Char.isAlphanum, halpha, hdigit]

/-- The chunk at a place starts with the character there. -/
theorem head?_chunk {chars : List Char} (h : chunk chars ≠ []) :
    (chunk chars).head? = chars.head? := by
  rw [chunk_eq_take, List.head?_take, if_neg (by simpa using h)]

namespace Rules

variable {rules : Rules} {lineIndex column : Nat}

/-- No word counts as a comment. -/
theorem classify_ne_comment (word : List Char) : (rules.classify word).1 ≠ .comment := by
  unfold classify
  split
  · simp
  · split <;> simp

/-- No word and no number counts as a comment. -/
theorem classifyChunk_ne_comment (covered : List Char) :
    (rules.classifyChunk covered).1 ≠ .comment := by
  unfold classifyChunk
  split
  · exact classify_ne_comment covered
  · simp

/-! ## The token at a place -/

/-- A token at a place is a comment up to the end of the line or a word or number. -/
theorem tokenAt?_cases {chars : List Char} {t : Token}
    (h : rules.tokenAt? lineIndex column chars = some t) :
    (rules.opensComment chars = true ∧ t = commentToken lineIndex column chars.length) ∨
      (rules.opensComment chars = false ∧ chunk chars ≠ [] ∧
        t = rules.chunkToken lineIndex column (chunk chars)) := by
  unfold tokenAt? at h
  split at h
  · next hopens => exact .inl ⟨hopens, (Option.some.inj h).symm⟩
  · next hopens =>
      split at h
      · simp at h
      · next hchunk =>
          exact .inr ⟨Bool.eq_false_iff.mpr hopens, hchunk, (Option.some.inj h).symm⟩

/-- Where no token starts there is no comment marker, and no letter or digit. -/
theorem tokenAt?_eq_none_iff {chars : List Char} :
    rules.tokenAt? lineIndex column chars = none ↔
      rules.opensComment chars = false ∧ chunk chars = [] := by
  unfold tokenAt?
  split <;> simp_all

theorem line_of_tokenAt? {chars : List Char} {t : Token}
    (h : rules.tokenAt? lineIndex column chars = some t) : t.line = lineIndex := by
  rcases tokenAt?_cases h with ⟨_, rfl⟩ | ⟨_, _, rfl⟩ <;> rfl

theorem startColumn_of_tokenAt? {chars : List Char} {t : Token}
    (h : rules.tokenAt? lineIndex column chars = some t) : t.startColumn = column := by
  rcases tokenAt?_cases h with ⟨_, rfl⟩ | ⟨_, _, rfl⟩ <;> rfl

theorem endColumn_of_tokenAt? {chars : List Char} {t : Token}
    (h : rules.tokenAt? lineIndex column chars = some t) : t.endColumn = column + t.length := by
  rw [Token.endColumn, startColumn_of_tokenAt? h]

/-- A token covers at least one character and no more than the line has left. -/
theorem length_of_tokenAt? {chars : List Char} {t : Token} (hne : chars ≠ [])
    (h : rules.tokenAt? lineIndex column chars = some t) :
    0 < t.length ∧ t.length ≤ chars.length := by
  rcases tokenAt?_cases h with ⟨_, rfl⟩ | ⟨_, hchunk, rfl⟩
  · exact ⟨List.length_pos_iff.mpr hne, Nat.le_refl _⟩
  · exact ⟨List.length_pos_iff.mpr hchunk, length_chunk_le chars⟩

/-- The text of a token is what stands at its place in the line. -/
theorem text?_of_tokenAt? {line : List Char} {t : Token} (hne : line.drop column ≠ [])
    (h : rules.tokenAt? lineIndex column (line.drop column) = some t) :
    t.text? (String.ofList line) = some (String.ofList ((line.drop column).take t.length)) := by
  obtain ⟨hpos, hle⟩ := length_of_tokenAt? hne h
  rw [List.length_drop] at hle
  have hfits : t.FitsIn (String.ofList line) := by
    refine ⟨hpos, ?_⟩
    rw [endColumn_of_tokenAt? h, String.length_ofList]
    omega
  rw [Token.text?_of_fitsIn hfits, startColumn_of_tokenAt? h, String.toList_ofList]

theorem opensComment_iff {chars : List Char} :
    rules.opensComment chars = true ↔ rules.lineComment.toList <+: chars :=
  List.isPrefixOf_iff_prefix

/-- The same characters make the same token in another line and at another column. -/
theorem tokenAt?_add (lines columns : Nat) (chars : List Char) :
    rules.tokenAt? (lineIndex + lines) (column + columns) chars =
      (rules.tokenAt? lineIndex column chars).map (Token.shift lines columns) := by
  unfold tokenAt?
  by_cases hopens : rules.opensComment chars = true
  · rw [if_pos hopens, if_pos hopens]
    rfl
  · rw [if_neg hopens, if_neg hopens]
    by_cases hchunk : chunk chars = []
    · rw [if_pos hchunk, if_pos hchunk]
      rfl
    · rw [if_neg hchunk, if_neg hchunk]
      rfl

/-! ## Reading a line -/

/-- The tokens of a line from a column on, where `chars` is the line from there on. -/
def tokensFrom (rules : Rules) (lineIndex column : Nat) (chars : List Char) : List Token :=
  match chars with
  | [] => []
  | c :: rest =>
    match _found : rules.tokenAt? lineIndex column (c :: rest) with
    | none => rules.tokensFrom lineIndex (column + 1) rest
    | some t => t :: rules.tokensFrom lineIndex t.endColumn ((c :: rest).drop t.length)
termination_by chars.length
decreasing_by
  · simp
  · have := (length_of_tokenAt? (by simp) _found).1
    simp only [List.length_drop, List.length_cons]
    omega

@[simp] theorem tokensFrom_nil : rules.tokensFrom lineIndex column [] = [] := by
  rw [tokensFrom]

theorem tokensFrom_of_none {c : Char} {rest : List Char}
    (h : rules.tokenAt? lineIndex column (c :: rest) = none) :
    rules.tokensFrom lineIndex column (c :: rest) =
      rules.tokensFrom lineIndex (column + 1) rest := by
  rw [tokensFrom]
  split
  · rfl
  · simp_all

theorem tokensFrom_of_some {chars : List Char} {t : Token} (hne : chars ≠ [])
    (h : rules.tokenAt? lineIndex column chars = some t) :
    rules.tokensFrom lineIndex column chars =
      t :: rules.tokensFrom lineIndex t.endColumn (chars.drop t.length) := by
  obtain ⟨c, rest, rfl⟩ := List.exists_cons_of_ne_nil hne
  rw [tokensFrom]
  split
  · simp_all
  · next found =>
      obtain rfl := Option.some.inj (found.symm.trans h)
      rfl

/-- Where the whole rest of a line is one token there is no other one. -/
theorem tokensFrom_whole {chars : List Char} {t : Token} (hne : chars ≠ [])
    (hat : rules.tokenAt? lineIndex column chars = some t) (hlength : t.length = chars.length) :
    rules.tokensFrom lineIndex column chars = [t] := by
  rw [tokensFrom_of_some hne hat, hlength, List.drop_length, tokensFrom_nil]

/-- Characters that start with the marker are read as one comment. -/
theorem tokensFrom_marker {chars : List Char} (hne : chars ≠ [])
    (hmarker : rules.lineComment.toList <+: chars) :
    rules.tokensFrom lineIndex column chars = [commentToken lineIndex column chars.length] := by
  apply tokensFrom_whole hne _ rfl
  rw [tokenAt?, if_pos (opensComment_iff.mpr hmarker)]

/-- Every token of a line is the one that starts at its column. -/
theorem exists_tokenAt?_of_mem {chars : List Char} {t : Token}
    (h : t ∈ rules.tokensFrom lineIndex column chars) :
    ∃ k < chars.length, rules.tokenAt? lineIndex (column + k) (chars.drop k) = some t := by
  fun_induction rules.tokensFrom lineIndex column chars with
  | case1 => cases h
  | case2 column c rest hat ih =>
      obtain ⟨k, hk, hlater⟩ := ih h
      refine ⟨k + 1, Nat.succ_lt_succ hk, ?_⟩
      rw [← Nat.add_assoc, Nat.add_right_comm]
      exact hlater
  | case3 column c rest first hat ih =>
      rcases List.mem_cons.mp h with rfl | hmem
      · exact ⟨0, Nat.succ_pos _, hat⟩
      · obtain ⟨k, hk, hlater⟩ := ih hmem
        rw [List.length_drop] at hk
        refine ⟨first.length + k, by omega, ?_⟩
        rw [endColumn_of_tokenAt? hat, List.drop_drop, Nat.add_assoc] at hlater
        exact hlater

/-- The same characters make the same tokens in another line and from another column on. -/
theorem tokensFrom_add (lines columns : Nat) (chars : List Char) :
    rules.tokensFrom (lineIndex + lines) (column + columns) chars =
      (rules.tokensFrom lineIndex column chars).map (Token.shift lines columns) := by
  fun_induction rules.tokensFrom lineIndex column chars with
  | case1 column => rw [tokensFrom_nil, List.map_nil]
  | case2 column c rest hat ih =>
      have hshift : rules.tokenAt? (lineIndex + lines) (column + columns) (c :: rest) = none := by
        rw [tokenAt?_add, hat, Option.map_none]
      rw [tokensFrom_of_none hshift, Nat.add_right_comm, ih]
  | case3 column c rest t hat ih =>
      have hshift : rules.tokenAt? (lineIndex + lines) (column + columns) (c :: rest) =
          some (t.shift lines columns) := by
        rw [tokenAt?_add, hat, Option.map_some]
      rw [tokensFrom_of_some (List.cons_ne_nil _ _) hshift, List.map_cons, Token.endColumn_shift,
        ← ih]
      rfl

/-! ## What a scan finds -/

/-- A blank character starts neither a comment nor a word nor a number. -/
theorem Valid.tokenAt?_blank (h : rules.Valid) {c : Char} {rest : List Char}
    (hblank : c ∈ rules.whitespace) : rules.tokenAt? lineIndex column (c :: rest) = none := by
  rw [tokenAt?_eq_none_iff]
  constructor
  · obtain ⟨m, marker, hmarker⟩ := List.exists_cons_of_ne_nil h.marker_ne_nil
    have hm : m ∉ rules.whitespace := h.marker_not_blank m (by simp [hmarker])
    have hne : m ≠ c := fun heq => hm (heq ▸ hblank)
    simp [opensComment, hmarker, List.isPrefixOf, hne]
  · exact chunk_cons_eq_nil_iff.mpr (h.blank_not_alphanum c hblank)

end Rules

namespace Scanner

variable {rules : Rules} {lineIndex column : Nat}

/-- One character of a scan: it stops with the token that starts there or goes on behind the
character. The test for blanks, which comes first in a scan, makes no difference. -/
theorem scan_cons (h : rules.Valid) (c : Char) (rest : List Char) :
    scan rules lineIndex column (c :: rest) =
      match rules.tokenAt? lineIndex column (c :: rest) with
      | none => scan rules lineIndex (column + 1) rest
      | some t => (some t, ⟨lineIndex, t.endColumn, (c :: rest).drop t.length⟩) := by
  rw [scan]
  -- Valid rules let nothing start with a blank, so that both sides go on behind it.
  by_cases hblank : c ∈ rules.whitespace
  · rw [if_pos (by simpa using hblank), h.tokenAt?_blank hblank]
  · rw [if_neg (by simpa using hblank)]
    unfold Rules.tokenAt?
    by_cases hopens : rules.opensComment (c :: rest) = true
    · simp [hopens, emit, commentToken, Token.endColumn]
    · rw [if_neg hopens, if_neg hopens]
      cases halpha : c.isAlpha <;> cases hdigit : c.isDigit <;>
        simp [chunk, emit, Rules.chunkToken, Rules.classifyChunk, Token.endColumn, halpha, hdigit,
          Char.isAlphanum, dropWhile_eq_drop]

/-- How a scan of a line goes on from a column: over places where no token starts, up to the end of
the line or to a token. -/
inductive Reads (rules : Rules) (lineIndex : Nat) :
    Nat → List Char → Option Token × Scanner → Prop where
  | finish (column : Nat) : Reads rules lineIndex column [] (none, ⟨lineIndex, column, []⟩)
  | token (column : Nat) (chars : List Char) (t : Token) :
      chars ≠ [] → rules.tokenAt? lineIndex column chars = some t →
      Reads rules lineIndex column chars (some t, ⟨lineIndex, t.endColumn, chars.drop t.length⟩)
  | skip (column : Nat) (c : Char) (rest : List Char) (result : Option Token × Scanner) :
      rules.tokenAt? lineIndex column (c :: rest) = none →
      Reads rules lineIndex (column + 1) rest result →
      Reads rules lineIndex column (c :: rest) result

/-- With valid rules every scan goes that way. -/
theorem scan_reads (h : rules.Valid) (chars : List Char) :
    Reads rules lineIndex column chars (scan rules lineIndex column chars) := by
  induction chars generalizing column with
  | nil => exact .finish column
  | cons c rest ih =>
      rw [scan_cons h]
      cases hat : rules.tokenAt? lineIndex column (c :: rest) with
      | none => exact .skip _ _ _ _ hat ih
      | some t => exact .token _ _ _ (by simp) hat

/-- The tokens that a scan has still to find. -/
def ahead (rules : Rules) (s : Scanner) : List Token :=
  rules.tokensFrom s.lineIndex s.column s.rest

/-- A scan is at a column of a line and has the rest of the line from there on before it. -/
structure On (line : List Char) (s : Scanner) : Prop where
  column_le : s.column ≤ line.length
  rest_eq : s.rest = line.drop s.column

namespace Reads

variable {chars : List Char} {found : Option Token} {s : Scanner}

theorem lineIndex_eq (hreads : Reads rules lineIndex column chars (found, s)) :
    s.lineIndex = lineIndex := by
  generalize hresult : (found, s) = result at hreads
  induction hreads with
  | finish | token => cases hresult; rfl
  | skip _ _ _ _ _ _ ih => exact ih hresult

/-- The tokens from a column on are the one that is found and those that lie ahead afterwards. -/
theorem tokensFrom_eq (hreads : Reads rules lineIndex column chars (found, s)) :
    rules.tokensFrom lineIndex column chars = found.toList ++ s.ahead rules := by
  generalize hresult : (found, s) = result at hreads
  induction hreads with
  | finish => cases hresult; simp [ahead]
  | token column chars t hne hat =>
      cases hresult
      exact Rules.tokensFrom_of_some hne hat
  | skip column c rest _ hat _ ih =>
      rw [Rules.tokensFrom_of_none hat]
      exact ih hresult

/-- A scan that finds no token has read the whole line. -/
theorem rest_eq_nil (hreads : Reads rules lineIndex column chars (none, s)) : s.rest = [] := by
  generalize hresult : (none, s) = result at hreads
  induction hreads with
  | finish => cases hresult; rfl
  | token => cases hresult
  | skip _ _ _ _ _ _ ih => exact ih hresult

/-- No token lies ahead of a scan that finds none. -/
theorem tokensFrom_eq_nil (hreads : Reads rules lineIndex column chars (none, s)) :
    rules.tokensFrom lineIndex column chars = [] := by
  rw [hreads.tokensFrom_eq, ahead, hreads.rest_eq_nil, Rules.tokensFrom_nil]
  rfl

/-- A scan that finds a token stops right behind it. -/
theorem endColumn_eq {t : Token} (hreads : Reads rules lineIndex column chars (some t, s)) :
    t.line = lineIndex ∧ s.column = t.endColumn := by
  generalize hresult : (some t, s) = result at hreads
  induction hreads with
  | finish => cases hresult
  | token column chars found _ hat =>
      cases hresult
      exact ⟨Rules.line_of_tokenAt? hat, rfl⟩
  | skip _ _ _ _ _ _ ih => exact ih hresult

end Reads

/-! ## Scans by any rules -/

/-- A scan that has read some of the characters before it is still on its line. -/
theorem On.append {line covered rest : List Char}
    (hon : On line ⟨lineIndex, column, covered ++ rest⟩) :
    On line ⟨lineIndex, column + covered.length, rest⟩ := by
  have hle : column ≤ line.length := hon.column_le
  have hrest : covered ++ rest = line.drop column := hon.rest_eq
  have hleft := congrArg List.length hrest
  rw [List.length_append, List.length_drop] at hleft
  refine ⟨by show column + covered.length ≤ line.length; omega, ?_⟩
  show rest = line.drop (column + covered.length)
  rw [← List.drop_drop, ← hrest, List.drop_left]

/-- What holds of the outcome of a scan of a line whatever the rules are: the scan does not leave
its line, and the token that it has found stands there. -/
structure Keeps (rules : Rules) (line : List Char) (lineIndex : Nat)
    (result : Option Token × Scanner) : Prop where
  lineIndex_eq : result.2.lineIndex = lineIndex
  on : result.2.On line
  stands : ∀ t, result.1 = some t → t.line = lineIndex ∧ t.StandsIn rules line

/-- A token may be made of characters that do not start with a blank, if it is no comment or the
marker comes first. -/
theorem emit_keeps {line covered rest : List Char} {c : Char} {category : Category}
    (hon : On line ⟨lineIndex, column, covered ++ rest⟩) (hhead : covered.head? = some c)
    (hblank : c ∉ rules.whitespace)
    (hcomment : category = .comment → rules.lineComment.toList <+: covered ++ rest)
    (modifier : Modifier) :
    Keeps rules line lineIndex (emit lineIndex column covered rest category modifier) := by
  refine ⟨rfl, hon.append, ?_⟩
  rintro _ ⟨⟩
  have hrest : covered ++ rest = line.drop column := hon.rest_eq
  refine ⟨rfl, ?_, hon.append.column_le, ?_, ?_⟩
  · exact List.length_pos_iff.mpr fun hnil => by rw [hnil] at hhead; cases hhead
  · intro d hd
    have hat : (covered ++ rest).head? = some c := by
      rw [List.head?_append, hhead]
      rfl
    rw [hrest] at hat
    obtain rfl := Option.some.inj (hat.symm.trans hd)
    exact hblank
  · exact fun hcategory => hrest ▸ hcomment hcategory

/-- Every scan of a line keeps to the line. -/
theorem scan_keeps {line chars : List Char} (hon : On line ⟨lineIndex, column, chars⟩) :
    Keeps rules line lineIndex (scan rules lineIndex column chars) := by
  induction chars generalizing column with
  | nil => exact ⟨rfl, hon, fun t hnone => by cases hnone⟩
  | cons c rest ih =>
      have hnext : On line ⟨lineIndex, column + 1, rest⟩ := by
        rw [← List.singleton_append] at hon
        exact hon.append
      rw [scan]
      split
      · exact ih hnext
      · next hblank =>
          have hblank : c ∉ rules.whitespace := by simpa using hblank
          split
          · next hopens =>
              rw [← List.append_nil (c :: rest)] at hon
              refine emit_keeps hon rfl hblank (fun _ => ?_) _
              rw [List.append_nil]
              exact Rules.opensComment_iff.mp hopens
          · split
            · rw [← List.takeWhile_append_dropWhile (p := Char.isAlphanum) (l := rest),
                ← List.cons_append] at hon
              exact emit_keeps hon rfl hblank
                (fun hcategory => (Rules.classify_ne_comment _ hcategory).elim) _
            · split
              · rw [← List.takeWhile_append_dropWhile (p := Char.isDigit) (l := rest),
                  ← List.cons_append] at hon
                exact emit_keeps hon rfl hblank (fun hcategory => by cases hcategory) _
              · exact ih hnext

theorem On.next_keeps (rules : Rules) {line : List Char} {s : Scanner} (hon : s.On line) :
    Keeps rules line s.lineIndex (s.next rules) :=
  scan_keeps hon

/-! ## Whole lines -/

/-- A scan on its way reads on from where it is. -/
theorem next_reads (h : rules.Valid) (s : Scanner) :
    Reads rules s.lineIndex s.column s.rest (s.next rules) :=
  scan_reads h s.rest

theorem start_on (lineIndex : Nat) (line : List Char) : (start lineIndex line).On line :=
  ⟨Nat.zero_le _, rfl⟩

/-- A scan that finds no token is at the end of its line. -/
theorem On.column_eq {line : List Char} {s : Scanner} (hon : s.On line) (hrest : s.rest = []) :
    s.column = line.length := by
  have hleft := congrArg List.length (hon.rest_eq.symm.trans hrest)
  have hle := hon.column_le
  rw [List.length_drop, List.length_nil] at hleft
  omega

end Scanner

end LineLexer
