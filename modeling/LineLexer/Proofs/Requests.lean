import LineLexer.Proofs.Breaks
import LineLexer.Proofs.TextTokens

/-!
# Partial consumption of a stream

A stream that is asked in any order for the next token, for later ones, for several at a time, for
all that are left or for their number answers every request as the list of all tokens would, less
what has been used up, and where it stands in its text depends on the last request alone. A `Tape`
holds the list, and `TokenStream.Follows` relates a stream to it. The main statement is
`Obtained.serveAll_eq`. Where a stream is in its text is said by `TokenStream.InLines`, which needs
no valid rules, and neither does `InLines.standsInLines_drain`: every token stands in its line.
-/

namespace LineLexer

/-- A request to a stream: the next token, the one behind `n` others, up to `n` tokens, all that are
left, or the number of these. -/
inductive Request where
  | next
  | nth (n : Nat)
  | take (n : Nat)
  | rest
  | count
  deriving DecidableEq, Repr

/-- The answer to a request. -/
inductive Answer where
  | token (found : Option Token)
  | tokens (found : List Token)
  | number (n : Nat)
  deriving DecidableEq, Repr

namespace Request

/-- The answer that a list of tokens gives. -/
def answer (left : List Token) : Request → Answer
  | next => .token left.head?
  | nth n => .token (left.drop n).head?
  | take n => .tokens (left.take n)
  | rest => .tokens left
  | count => .number left.length

/-- How often the next token has to be asked for. To use up a list takes one time more than it has
tokens, since the end shows only when a request is in vain. -/
def pulls (left : List Token) : Request → Nat
  | next => 1
  | nth n => n + 1
  | take n => n
  | rest => left.length + 1
  | count => left.length + 1

end Request

/-- A list of tokens that is used up from the front. `last` is what the last request for a single
token came to, if there was one. -/
structure Tape where
  used : List Token
  left : List Token
  last : Option (Option Token)
  deriving DecidableEq, Repr

namespace Tape

/-- A list of which no token has been used. -/
def ofList (tokens : List Token) : Tape :=
  ⟨[], tokens, none⟩

/-- The tape after `n` requests for a single token. -/
def advance (tape : Tape) (n : Nat) : Tape :=
  ⟨tape.used ++ tape.left.take n, tape.left.drop n,
    if n = 0 then tape.last else some tape.left[n - 1]?⟩

/-- The answers to a sequence of requests and the tape after them. -/
def serveAll : Tape → List Request → List Answer × Tape
  | tape, [] => ([], tape)
  | tape, r :: more =>
    let later := (tape.advance (r.pulls tape.left)).serveAll more
    (r.answer tape.left :: later.1, later.2)

@[simp] theorem advance_zero (tape : Tape) : tape.advance 0 = tape := by
  simp [advance]

theorem advance_advance (tape : Tape) (m n : Nat) :
    (tape.advance m).advance n = tape.advance (m + n) := by
  unfold advance
  congr 1
  · rw [List.append_assoc, ← List.take_add]
  · rw [List.drop_drop]
  · cases n with
    | zero => simp
    | succ n => simp [← Nat.add_assoc]

/-- Further requests to an empty tape come to nothing, like the first one. -/
theorem advance_of_left_eq_nil {tape : Tape} (h : tape.left = []) (n : Nat) :
    tape.advance (n + 1) = tape.advance 1 := by
  simp [advance, h]

/-- No token is lost and none comes twice. -/
theorem used_append_left_serveAll (tape : Tape) (requests : List Request) :
    (tape.serveAll requests).2.used ++ (tape.serveAll requests).2.left =
      tape.used ++ tape.left := by
  induction requests generalizing tape with
  | nil => rfl
  | cons r more ih =>
      rw [serveAll, ih, advance, List.append_assoc, List.take_append_drop]

/-- Where a stream of a text stands after the last request: nowhere before the first one, behind the
token that it found, or at the end of the last line if it found none. -/
def place? (text : List Char) (tape : Tape) : Option Position :=
  match tape.last with
  | none => none
  | some (some t) => some ⟨t.line, t.endColumn⟩
  | some none =>
    some ⟨Text.breakCount text, ((Text.lines text).getLast (Text.lines_ne_nil text)).length⟩

end Tape

/-- Change what an outcome says was found. -/
def Pull.map {Found Shown : Type} (show' : Found → Shown) (pull : Pull Found) : Pull Shown :=
  ⟨show' pull.found, pull.after, pull.events⟩

namespace TokenStream

/-- The outcome of a request. -/
def serve (rules : Rules) (s : TokenStream) : Request → Pull Answer
  | .next => (s.next rules).map .token
  | .nth n => (nth rules n s).map .token
  | .take n => (take rules n s).map .tokens
  | .rest => (s.drain rules).map .tokens
  | .count => (s.count rules).map .number

/-- The outcome of a sequence of requests. -/
def serveAll (rules : Rules) : TokenStream → List Request → Pull (List Answer)
  | s, [] => ⟨[], s, []⟩
  | s, r :: more =>
    let pull := s.serve rules r
    let later := pull.after.serveAll rules more
    ⟨pull.found :: later.found, later.after, pull.events ++ later.events⟩

/-- The line that a stream is in and the column that it has reached there. -/
def place? (s : TokenStream) : Option Position :=
  s.current.map fun scanner => ⟨scanner.lineIndex, scanner.column⟩

/-! ## Where a stream stands -/

/-- A stream that finds a token stands right behind it. -/
theorem place?_enter {rules : Rules} (h : rules.Valid) {nextLine : Nat} {current : Option Scanner}
    {pending : List (List Char)} {t : Token}
    (hfound : (enter rules nextLine current pending).found = some t) :
    (enter rules nextLine current pending).after.place? = some ⟨t.line, t.endColumn⟩ := by
  induction pending generalizing nextLine current with
  | nil => simp [enter] at hfound
  | cons line more ih =>
      have hreads := Scanner.next_reads h (Scanner.start nextLine line)
      unfold enter at hfound ⊢
      split at hfound
      · next found scanner hnext =>
          obtain rfl := Option.some.inj hfound
          rw [hnext] at hreads
          obtain ⟨hline, hcolumn⟩ := hreads.endColumn_eq
          simp [place?, hreads.lineIndex_eq, hline, hcolumn]
      · exact ih hfound

theorem place?_next {rules : Rules} (h : rules.Valid) {s : TokenStream} {t : Token}
    (hfound : (s.next rules).found = some t) :
    (s.next rules).after.place? = some ⟨t.line, t.endColumn⟩ := by
  unfold next at hfound ⊢
  split at hfound
  · exact place?_enter h hfound
  · next scanner _ =>
      have hreads := Scanner.next_reads h scanner
      split at hfound
      · next found later hnext =>
          obtain rfl := Option.some.inj hfound
          rw [hnext] at hreads
          obtain ⟨hline, hcolumn⟩ := hreads.endColumn_eq
          simp [place?, hreads.lineIndex_eq, hline, hcolumn]
      · exact place?_enter h hfound

/-- A stream on its way through some lines: the lines that it has not entered are the last ones, and
its scan is in the line before these. -/
structure InLines (lines : List (List Char)) (s : TokenStream) : Prop where
  pending_eq : s.pending = lines.drop s.nextLine
  not_started : s.current = none → s.nextLine = 0
  current_on : ∀ scanner, s.current = some scanner →
    s.nextLine = scanner.lineIndex + 1 ∧ ∃ line, lines[scanner.lineIndex]? = some line ∧
      scanner.On line

theorem inLines_ofText (text : String) : InLines (Text.lines text.toList) (ofText text) :=
  ⟨rfl, fun _ => rfl, fun _ hcurrent => by cases hcurrent⟩

/-- A scan that reads on in the line that a stream is in keeps the stream on its way. -/
theorem InLines.reads {rules : Rules} {lines pending : List (List Char)} {nextLine : Nat}
    {line : List Char} {s later : Scanner} {found : Option Token}
    (hnext : s.next rules = (found, later)) (hpending : pending = lines.drop nextLine)
    (hindex : nextLine = s.lineIndex + 1) (hline : lines[s.lineIndex]? = some line)
    (hon : s.On line) : InLines lines ⟨nextLine, pending, some later⟩ := by
  have hkeeps := hon.next_keeps rules
  rw [hnext] at hkeeps
  have hlater : later.lineIndex = s.lineIndex := hkeeps.lineIndex_eq
  refine ⟨hpending, fun hnone => (Option.some_ne_none _ hnone).elim, ?_⟩
  rintro _ ⟨⟩
  rw [hlater]
  exact ⟨hindex, line, hline, hkeeps.on⟩

/-- The first one of the lines that a stream has not entered, and the lines behind it. -/
theorem InLines.pending_cons {lines : List (List Char)} {nextLine : Nat} {current : Option Scanner}
    {line : List Char} {more : List (List Char)}
    (hs : InLines lines ⟨nextLine, line :: more, current⟩) :
    lines[nextLine]? = some line ∧ more = lines.drop (nextLine + 1) := by
  have hdrop : line :: more = lines.drop nextLine := hs.pending_eq
  constructor
  · rw [← List.head?_drop, ← hdrop, List.head?_cons]
  · rw [← List.drop_drop, ← hdrop, List.drop_one, List.tail_cons]

theorem InLines.enter {rules : Rules} {lines pending : List (List Char)}
    {nextLine : Nat} {current : Option Scanner} (hs : InLines lines ⟨nextLine, pending, current⟩) :
    InLines lines (enter rules nextLine current pending).after := by
  induction pending generalizing nextLine current with
  | nil => exact hs
  | cons line more ih =>
      obtain ⟨hline, hmore⟩ := hs.pending_cons
      have hentered : ∀ {found later},
          (Scanner.start nextLine line).next rules = (found, later) →
            InLines lines ⟨nextLine + 1, more, some later⟩ := fun hnext =>
        .reads hnext hmore rfl hline (Scanner.start_on nextLine line)
      unfold TokenStream.enter
      split
      · next hnext => exact hentered hnext
      · next hnext => exact ih (hentered hnext)

/-- A request does not lead a stream off its way. -/
theorem InLines.next (rules : Rules) {lines : List (List Char)} {s : TokenStream}
    (hs : InLines lines s) : InLines lines (s.next rules).after := by
  obtain ⟨nextLine, pending, current⟩ := s
  cases current with
  | none => exact hs.enter
  | some scanner =>
      obtain ⟨hindex, line, hline, hon⟩ := hs.current_on scanner rfl
      have hlater : ∀ {found later}, scanner.next rules = (found, later) →
          InLines lines ⟨nextLine, pending, some later⟩ := fun hnext =>
        .reads hnext hs.pending_eq hindex hline hon
      unfold TokenStream.next
      dsimp only
      split
      · next hnext => exact hlater hnext
      · next hnext => exact (hlater hnext).enter

/-! ## The tokens of any stream -/

/-- A token stands in the line that it names. -/
def StandsInLines (rules : Rules) (lines : List (List Char)) (t : Token) : Prop :=
  ∃ line, lines[t.line]? = some line ∧ t.StandsIn rules line

/-- A token that is found while lines are entered stands in one of them. -/
theorem InLines.standsInLines_enter {rules : Rules} {lines pending : List (List Char)}
    {nextLine : Nat} {current : Option Scanner} {t : Token}
    (hs : InLines lines ⟨nextLine, pending, current⟩)
    (hfound : (TokenStream.enter rules nextLine current pending).found = some t) :
    StandsInLines rules lines t := by
  induction pending generalizing nextLine current with
  | nil => cases hfound
  | cons line more ih =>
      obtain ⟨hline, hmore⟩ := hs.pending_cons
      have hkeeps := (Scanner.start_on nextLine line).next_keeps rules
      unfold TokenStream.enter at hfound
      split at hfound
      · next found scanner hnext =>
          obtain rfl := Option.some.inj hfound
          rw [hnext] at hkeeps
          obtain ⟨rfl, hstands⟩ := hkeeps.stands _ rfl
          exact ⟨line, hline, hstands⟩
      · next scanner hnext =>
          exact ih (.reads hnext hmore rfl hline (Scanner.start_on nextLine line)) hfound

/-- A token that is handed out stands in its line. -/
theorem InLines.standsInLines_next {rules : Rules} {lines : List (List Char)} {s : TokenStream}
    {t : Token} (hs : InLines lines s) (hfound : (s.next rules).found = some t) :
    StandsInLines rules lines t := by
  obtain ⟨nextLine, pending, current⟩ := s
  cases current with
  | none => exact hs.standsInLines_enter hfound
  | some scanner =>
      obtain ⟨hindex, line, hline, hon⟩ := hs.current_on scanner rfl
      have hkeeps := hon.next_keeps rules
      unfold TokenStream.next at hfound
      dsimp only at hfound
      split at hfound
      · next found later hnext =>
          obtain rfl := Option.some.inj hfound
          rw [hnext] at hkeeps
          obtain ⟨hsame, hstands⟩ := hkeeps.stands _ rfl
          exact ⟨line, hsame ▸ hline, hstands⟩
      · next later hnext =>
          exact (InLines.reads hnext hs.pending_eq hindex hline hon).standsInLines_enter hfound

/-- Every token of a stream stands in its line, whatever the rules are. -/
theorem InLines.standsInLines_drain {rules : Rules} {lines : List (List Char)} {s : TokenStream}
    (hs : InLines lines s) : ∀ t ∈ (s.drain rules).found, StandsInLines rules lines t := by
  fun_induction drain rules s with
  | case1 => exact fun t ht => absurd ht List.not_mem_nil
  | case2 s pull t hsome later ih =>
      exact List.forall_mem_cons.mpr ⟨hs.standsInLines_next hsome, ih (hs.next rules)⟩

/-- A stream that has finished a text stands at the end of the last line. -/
theorem Finished.place? {text : List Char} {s : TokenStream} (hs : InLines (Text.lines text) s)
    (hfinished : s.Finished) :
    s.place? = some ⟨Text.breakCount text,
      ((Text.lines text).getLast (Text.lines_ne_nil text)).length⟩ := by
  obtain ⟨nextLine, pending, current⟩ := s
  have hdrop : (Text.lines text).drop nextLine = [] :=
    hs.pending_eq.symm.trans hfinished.pending_eq
  have hlength := Text.length_lines text
  cases current with
  -- A text has at least one line, so that a stream that has entered none has not finished.
  | none =>
      obtain rfl : nextLine = 0 := hs.not_started rfl
      exact (Text.lines_ne_nil text hdrop).elim
  | some scanner =>
      obtain ⟨hnext, line, hline, hon⟩ := hs.current_on scanner rfl
      obtain rfl : nextLine = scanner.lineIndex + 1 := hnext
      have hge := List.drop_eq_nil_iff.mp hdrop
      obtain ⟨hlt, hget⟩ := List.getElem?_eq_some_iff.mp hline
      have hindex : scanner.lineIndex = Text.breakCount text := by omega
      have hlast : line = (Text.lines text).getLast (Text.lines_ne_nil text) := by
        rw [List.getLast_eq_getElem, ← hget]
        congr 1
        omega
      simp [TokenStream.place?, hindex, ← hlast, hon.column_eq (hfinished.rest_eq scanner rfl)]

theorem currentLine?_eq_place? (s : TokenStream) :
    s.currentLine? = s.place?.map Position.line := by
  rw [currentLine?, place?, Option.map_map]
  rfl

theorem column_eq_place? (s : TokenStream) :
    s.current.map Scanner.column = s.place?.map Position.column := by
  rw [place?, Option.map_map]
  rfl

/-- A stream enters lines one by one and none behind the one that it is in. -/
theorem InLines.nextLine_eq {lines : List (List Char)} {s : TokenStream} (hs : InLines lines s) :
    s.nextLine = (s.currentLine?.map (· + 1)).getD 0 := by
  cases hcurrent : s.current with
  | none => simp [currentLine?, hcurrent, hs.not_started hcurrent]
  | some scanner => simp [currentLine?, hcurrent, (hs.current_on scanner hcurrent).1]

/-! ## Streams and tapes -/

/-- A stream of a text has used up as much as a tape has, and stands where the tape says. -/
structure Follows (rules : Rules) (text : List Char) (s : TokenStream) (tape : Tape) : Prop where
  ahead_eq : s.ahead rules = tape.left
  inLines : InLines (Text.lines text) s
  place?_eq : s.place? = tape.place? text
  finished : tape.last = some none → s.Finished

/-- An outcome gives the answer that a tape gives after `n` requests for a single token, and leaves
the stream where the tape is then. -/
structure Serves {Found : Type} (rules : Rules) (text : List Char) (tape : Tape) (n : Nat)
    (answer : Found) (pull : Pull Found) : Prop where
  found_eq : pull.found = answer
  tokens_eq : pull.tokens = tape.left.take n
  follows : Follows rules text pull.after (tape.advance n)

variable {rules : Rules} {text : List Char} {s : TokenStream} {tape : Tape}

theorem follows_ofText (h : rules.Valid) (text : String) :
    Follows rules text.toList (ofText text) (.ofList ((Tokenizer.mk rules).tokenize text)) :=
  ⟨(Tokenizer.tokenize_eq h text).symm, inLines_ofText text, rfl,
    fun hlast => (Option.some_ne_none none hlast.symm).elim⟩

/-- An outcome that hands nothing out asks for no token. -/
theorem Follows.nothing (hf : Follows rules text s tape) {Found : Type} (answer : Found) :
    Serves rules text tape 0 answer ⟨answer, s, []⟩ :=
  ⟨rfl, by simp [Pull.tokens], by simpa using hf⟩

/-- One step: a request for a single token gets the first token that is left. -/
theorem Follows.next (h : rules.Valid) (hf : Follows rules text s tape) :
    Serves rules text tape 1 tape.left.head? (s.next rules) := by
  have hahead : tape.left =
      (s.next rules).found.toList ++ (s.next rules).after.ahead rules :=
    hf.ahead_eq.symm.trans (TokenStream.ahead_eq h s)
  have hin := hf.inLines.next rules
  cases hfound : (s.next rules).found with
  -- The tape is empty: asking in vain has led the stream to the end of the text.
  | none =>
      have hfinished := finished_next h hfound
      have hleft : tape.left = [] := by rw [hahead, hfound, hfinished.ahead_eq]; rfl
      refine ⟨by simp [hfound, hleft], by simp [tokens_next, hfound, hleft], ?_⟩
      refine ⟨by simp [hfinished.ahead_eq, Tape.advance, hleft], hin, ?_, fun _ => hfinished⟩
      simp [Finished.place? hin hfinished, Tape.place?, Tape.advance, hleft]
  | some t =>
      rw [hfound] at hahead
      refine ⟨by simp [hfound, hahead], by simp [tokens_next, hfound, hahead], ?_⟩
      refine ⟨by simp [Tape.advance, hahead], hin, ?_, ?_⟩
      · simp [place?_next h hfound, Tape.place?, Tape.advance, hahead]
      · simp [Tape.advance, hahead]

/-- A request that goes on after another one adds its tokens to those of the first. -/
theorem Serves.append {First Later Found : Type} {m n : Nat} {first : First} {later : Later}
    {pull : Pull First} {pull' : Pull Later} (answer : Found)
    (hfirst : Serves rules text tape m first pull)
    (hlater : Serves rules text (tape.advance m) n later pull') :
    Serves rules text tape (m + n) answer ⟨answer, pull'.after, pull.events ++ pull'.events⟩ := by
  refine ⟨rfl, ?_, ?_⟩
  · have hlast := hlater.tokens_eq
    simp only [Tape.advance] at hlast
    rw [List.take_add, ← hfirst.tokens_eq, ← hlast]
    exact List.filterMap_append
  · rw [← Tape.advance_advance]
    exact hlater.follows

/-- A request that finds the tape empty stops there, however many tokens it is about. -/
theorem Serves.stop {First Found : Type} {first : First} {pull : Pull First} (answer : Found)
    (n : Nat) (hfirst : Serves rules text tape 1 first pull) (hleft : tape.left = []) :
    Serves rules text tape (n + 1) answer ⟨answer, pull.after, pull.events⟩ := by
  refine ⟨rfl, ?_, ?_⟩
  · have htokens := hfirst.tokens_eq
    simp only [hleft, List.take_nil] at htokens ⊢
    exact htokens
  · rw [Tape.advance_of_left_eq_nil hleft]
    exact hfirst.follows

/-- Passing over tokens gets the one behind them. -/
theorem Follows.nth (h : rules.Valid) (n : Nat) (hf : Follows rules text s tape) :
    Serves rules text tape (n + 1) (tape.left.drop n).head? (nth rules n s) := by
  induction n generalizing s tape with
  | zero => exact hf.next h
  | succ n ih =>
      have hnext := hf.next h
      unfold TokenStream.nth
      cases hleft : tape.left with
      | nil =>
          have hfound := hnext.found_eq
          rw [hleft, List.head?_nil] at hfound
          simp only [hfound, List.drop_nil, List.head?_nil]
          rw [← hfound]
          exact hnext.stop _ (n + 1) hleft
      | cons t more =>
          have hfound := hnext.found_eq
          rw [hleft, List.head?_cons] at hfound
          -- One token is passed over, and the tape behind it has to pass over one less.
          have hlater := ih hnext.follows
          have hdrop : ((tape.advance 1).left.drop n).head? = (more.drop n).head? := by
            simp [Tape.advance, hleft]
          simp only [hfound, List.drop_succ_cons, hlater.found_eq, hdrop]
          rw [Nat.add_comm (n + 1) 1]
          exact hnext.append _ hlater

/-- Asking for several tokens gets as many as there are. -/
theorem Follows.take (h : rules.Valid) (n : Nat) (hf : Follows rules text s tape) :
    Serves rules text tape n (tape.left.take n) (take rules n s) := by
  induction n generalizing s tape with
  | zero => exact hf.nothing []
  | succ n ih =>
      have hnext := hf.next h
      have hfound := hnext.found_eq
      unfold TokenStream.take
      cases hleft : tape.left with
      | nil =>
          rw [hleft] at hfound
          simp only [hfound, List.head?_nil, List.take_nil]
          exact hnext.stop [] n hleft
      | cons t more =>
          rw [hleft, List.head?_cons] at hfound
          have hlater := ih hnext.follows
          have htake : (tape.advance 1).left.take n = more.take n := by
            simp [Tape.advance, hleft]
          simp only [hfound, List.take_succ_cons, hlater.found_eq, htake]
          rw [Nat.add_comm n 1]
          exact hnext.append _ hlater

/-- Using up a stream gets all tokens and asks once more. -/
theorem Follows.drain (h : rules.Valid) (hf : Follows rules text s tape) :
    Serves rules text tape (tape.left.length + 1) tape.left (s.drain rules) := by
  induction hleft : tape.left generalizing s tape with
  | nil =>
      have hnext := hf.next h
      have hfound := hnext.found_eq
      rw [hleft, List.head?_nil] at hfound
      rw [TokenStream.drain]
      split
      · exact hnext.stop [] 0 hleft
      · next t hsome => exact absurd (hfound.symm.trans hsome) (by simp)
  | cons t more ih =>
      have hnext := hf.next h
      have hfound := hnext.found_eq
      rw [hleft, List.head?_cons] at hfound
      have hlater := ih hnext.follows (by simp [Tape.advance, hleft])
      rw [TokenStream.drain]
      split
      · next hnone => exact absurd (hfound.symm.trans hnone) (by simp)
      · next found hsome =>
          obtain rfl := Option.some.inj (hsome.symm.trans hfound)
          dsimp only
          rw [List.length_cons, Nat.add_comm _ 1, hlater.found_eq]
          exact hnext.append _ hlater

/-- Every request is served as the tape serves it. -/
theorem Follows.serve (h : rules.Valid) (hf : Follows rules text s tape) (r : Request) :
    Serves rules text tape (r.pulls tape.left) (r.answer tape.left) (s.serve rules r) := by
  cases r with
  | next =>
      have hs := hf.next h
      exact ⟨congrArg Answer.token hs.found_eq, hs.tokens_eq, hs.follows⟩
  | nth n =>
      have hs := hf.nth h n
      exact ⟨congrArg Answer.token hs.found_eq, hs.tokens_eq, hs.follows⟩
  | take n =>
      have hs := hf.take h n
      exact ⟨congrArg Answer.tokens hs.found_eq, hs.tokens_eq, hs.follows⟩
  | rest =>
      have hs := hf.drain h
      exact ⟨congrArg Answer.tokens hs.found_eq, hs.tokens_eq, hs.follows⟩
  | count =>
      have hs := hf.drain h
      have hfound : (s.count rules).found = tape.left.length := congrArg List.length hs.found_eq
      exact ⟨congrArg Answer.number hfound, hs.tokens_eq, hs.follows⟩

/-- A finished stream serves every request from nothing and does not change. -/
theorem Finished.serve (hs : s.Finished) (r : Request) :
    s.serve rules r = ⟨r.answer [], s, []⟩ := by
  have hnext : s.next rules = ⟨none, s, []⟩ := hs.next
  have hdrain : s.drain rules = ⟨[], s, []⟩ := by
    rw [drain]
    split
    · rw [hnext]
    · next t hsome => simp [hnext] at hsome
  cases r with
  | next => simp [TokenStream.serve, Pull.map, hnext, Request.answer]
  | nth n => cases n <;> simp [TokenStream.serve, Pull.map, nth, hnext, Request.answer]
  | take n => cases n <;> simp [TokenStream.serve, Pull.map, take, hnext, Request.answer]
  | rest => simp [TokenStream.serve, Pull.map, hdrain, Request.answer]
  | count => simp [TokenStream.serve, Pull.map, count, hdrain, Request.answer]

/-- A whole run: the answers are those of the tape, the tokens found on the way are those that the
tape has used up, and the stream ends where the tape does. -/
theorem Follows.serveAll (h : rules.Valid) (hf : Follows rules text s tape)
    (requests : List Request) :
    (s.serveAll rules requests).found = (tape.serveAll requests).1 ∧
      tape.used ++ (s.serveAll rules requests).tokens = (tape.serveAll requests).2.used ∧
      Follows rules text (s.serveAll rules requests).after (tape.serveAll requests).2 := by
  induction requests generalizing s tape with
  | nil => exact ⟨rfl, List.append_nil _, hf⟩
  | cons r more ih =>
      have hserves := hf.serve h r
      obtain ⟨hfound, htokens, hfollows⟩ := ih hserves.follows
      have hused : (tape.advance (r.pulls tape.left)).used =
          tape.used ++ (s.serve rules r).tokens := by
        rw [hserves.tokens_eq]
        rfl
      refine ⟨?_, ?_, hfollows⟩
      · simp only [TokenStream.serveAll, Tape.serveAll, hserves.found_eq, hfound]
      · simp only [Tape.serveAll]
        rw [← htokens, hused, List.append_assoc]
        congr 1
        exact List.filterMap_append

end TokenStream

/-- Any sequence of requests to the stream of a text is answered as the list of the tokens of the
text answers it, each request from what the earlier ones have left. What has been found and what is
left make up that list. The stream stands nowhere before the first request for a token, behind the
token that the last one found, or, if that was in vain, at the end of the last line; it has entered
no line behind that place; and once a request was in vain it finds nothing any more and stays as it
is. -/
theorem Tokenizer.Obtained.serveAll_eq {t : Tokenizer} (h : t.Obtained) (text : String)
    (requests : List Request) :
    let run := (TokenStream.ofText text).serveAll t.rules requests
    let tape := ((Tape.ofList (t.tokenize text)).serveAll requests).2
    run.found = ((Tape.ofList (t.tokenize text)).serveAll requests).1 ∧
      run.tokens = tape.used ∧ tape.used ++ tape.left = t.tokenize text ∧
      run.after.currentLine? = (tape.place? text.toList).map Position.line ∧
      run.after.current.map Scanner.column = (tape.place? text.toList).map Position.column ∧
      run.after.nextLine = (run.after.currentLine?.map (· + 1)).getD 0 ∧
      (tape.last = some none →
        ∀ r : Request, run.after.serve t.rules r = ⟨r.answer [], run.after, []⟩) := by
  intro run tape
  obtain ⟨hfound, htokens, hfollows⟩ :=
    (TokenStream.follows_ofText h.valid text).serveAll h.valid requests
  have hplace : run.after.place? = tape.place? text.toList := hfollows.place?_eq
  refine ⟨hfound, htokens, Tape.used_append_left_serveAll _ requests, ?_, ?_,
    hfollows.inLines.nextLine_eq, fun hlast r => (hfollows.finished hlast).serve r⟩
  · rw [TokenStream.currentLine?_eq_place?, hplace]
  · rw [TokenStream.column_eq_place?, hplace]

/-- Four tokens of three lines, asked for in five ways. The last request is in vain, and so is
another one after it. -/
theorem Tokenizer.serveAll_remarks :
    let requests := [Request.nth 1, .take 0, .take 1, .count, .next]
    let run := (TokenStream.ofText "2go rem1\n\nif").serveAll Rules.remarks requests
    (Tokenizer.mk Rules.remarks).Obtained ∧
      run.found =
        [.token (some ⟨0, 1, 2, .identifier, .singleton .declaration⟩), .tokens [],
          .tokens [⟨0, 4, 4, .comment, .singleton .documentation⟩], .number 1, .token none] ∧
      run.after.currentLine? = some 2 ∧ run.after.current.map Scanner.column = some 2 ∧
      run.after.serve Rules.remarks .rest = ⟨.tokens [], run.after, []⟩ := by
  intro requests run
  obtain ⟨hfound, -, -, hline, hcolumn, -, hend⟩ :=
    Obtained.serveAll_eq remarks_obtained "2go rem1\n\nif" requests
  exact ⟨remarks_obtained, hfound.trans (by decide +kernel), hline.trans (by decide +kernel),
    hcolumn.trans (by decide +kernel), hend (by decide +kernel) .rest⟩

end LineLexer
