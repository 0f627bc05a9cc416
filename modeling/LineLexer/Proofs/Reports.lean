import LineLexer.Proofs.Breaks
import LineLexer.Proofs.Tiling

/-!
# What a run reports

A run through a text reports every line when it is entered, whether or not it has tokens, and every
token when it is found. `TokenStream.eventsAhead` lists what a stream has still to report. A request
for a token reports a first part of that list, `TokenStream.eventsAhead_eq`, so that a stream that
is used up has reported all of it, `TokenStream.events_drain`. The main statement is
`Obtained.trace_messages`.
-/

namespace LineLexer

namespace Rules

/-- What is reported of consecutive lines, the first one of a given index: each line and then its
tokens. -/
def eventsOfLines (rules : Rules) : Nat → List (List Char) → List Event
  | _, [] => []
  | lineIndex, line :: more =>
    .scanning lineIndex line ::
      ((rules.tokensFrom lineIndex 0 line).map .token ++ rules.eventsOfLines (lineIndex + 1) more)

variable {rules : Rules}

/-- No line and no token is reported as the building of a tokenizer. -/
theorem level_of_mem_eventsOfLines {lineIndex : Nat} {lines : List (List Char)} {e : Event}
    (h : e ∈ rules.eventsOfLines lineIndex lines) : e.level = .trace := by
  induction lines generalizing lineIndex with
  | nil => cases h
  | cons line more ih =>
      rcases List.mem_cons.mp h with rfl | h
      · rfl
      · rcases List.mem_append.mp h with h | h
        · obtain ⟨t, -, rfl⟩ := List.mem_map.mp h
          rfl
        · exact ih h

end Rules

namespace TokenStream

variable {rules : Rules}

/-- What a stream has still to report: the tokens that are left in its line, and the lines that it
has not entered. -/
def eventsAhead (rules : Rules) (s : TokenStream) : List Event :=
  ((s.current.map (Scanner.ahead rules)).getD []).map .token ++
    rules.eventsOfLines s.nextLine s.pending

/-- A finished stream has nothing to report. -/
theorem Finished.eventsAhead_eq {s : TokenStream} (h : s.Finished) :
    s.eventsAhead rules = [] := by
  obtain ⟨nextLine, pending, current⟩ := s
  obtain rfl : pending = [] := h.pending_eq
  have hnone : ahead rules ⟨nextLine, [], current⟩ = [] := h.ahead_eq
  simp only [ahead, Rules.tokensOfLines, List.append_nil] at hnone
  simp [eventsAhead, hnone, Rules.eventsOfLines]

/-- Entering lines up to a token reports them and leaves the rest to report. -/
theorem enter_eventsAhead (h : rules.Valid) (nextLine : Nat) (current : Option Scanner)
    (hcurrent : ∀ scanner, current = some scanner → scanner.rest = [])
    (pending : List (List Char)) :
    rules.eventsOfLines nextLine pending =
      (enter rules nextLine current pending).events ++
        (enter rules nextLine current pending).after.eventsAhead rules := by
  induction pending generalizing nextLine current with
  | nil =>
      have hfinished : Finished ⟨nextLine, [], current⟩ := ⟨rfl, hcurrent⟩
      rw [enter, hfinished.eventsAhead_eq]
      rfl
  | cons line more ih =>
      have hreads := Scanner.next_reads h (Scanner.start nextLine line)
      rw [enter, Rules.eventsOfLines]
      split
      · next t scanner hnext =>
          rw [hnext] at hreads
          have heq := hreads.tokensFrom_eq
          simp only [Scanner.start] at heq
          simp [heq, eventsAhead]
      -- A line without tokens is reported all the same.
      · next scanner hnext =>
          rw [hnext] at hreads
          have heq := hreads.tokensFrom_eq_nil
          simp only [Scanner.start] at heq
          rw [heq, List.map_nil, List.nil_append, List.cons_append]
          exact congrArg _ (ih (nextLine + 1) (some scanner)
            (by rintro _ ⟨⟩; exact hreads.rest_eq_nil))

/-- A request reports a first part of what lies ahead. -/
theorem eventsAhead_eq (h : rules.Valid) (s : TokenStream) :
    s.eventsAhead rules = (s.next rules).events ++ (s.next rules).after.eventsAhead rules := by
  obtain ⟨nextLine, pending, current⟩ := s
  cases current with
  | none => exact enter_eventsAhead h nextLine none (by simp) pending
  | some scanner =>
      have hreads := Scanner.next_reads h scanner
      unfold next
      dsimp only
      split
      · next t later hnext =>
          rw [hnext] at hreads
          simp [eventsAhead, Scanner.ahead, hreads.tokensFrom_eq]
      -- The line is at its end without another token, so that the next line is entered.
      · next later hnext =>
          rw [hnext] at hreads
          rw [← enter_eventsAhead h nextLine (some later)
            (by rintro _ ⟨⟩; exact hreads.rest_eq_nil)]
          simp [eventsAhead, Scanner.ahead, hreads.tokensFrom_eq_nil]

/-- Using up a stream reports all that lies ahead. -/
theorem events_drain (h : rules.Valid) (s : TokenStream) :
    (s.drain rules).events = s.eventsAhead rules := by
  fun_induction drain rules s with
  | case1 s pull hnone =>
      rw [eventsAhead_eq h, (finished_next h hnone).eventsAhead_eq, List.append_nil]
  | case2 s pull t hsome later ih => rw [eventsAhead_eq h s, ← ih]

end TokenStream

namespace Tokenizer

variable {t : Tokenizer}

/-- The message of a line that is entered. -/
def lineMessage (lineIndex : Nat) (line : List Char) : String :=
  "Scanning line " ++ toString lineIndex ++ ": " ++ Text.quoted line

/-- The message of a token that is found. -/
def tokenMessage (found : Token) : String :=
  "Token: " ++ found.render

/-- A message is about a token. -/
def isTokenMessage (message : String) : Bool :=
  "Token: ".toList.isPrefixOf message.toList

/-- Whether a message is about a token shows in its characters. -/
theorem isTokenMessage_of_toList {message : String} {chars : List Char}
    (h : message.toList = chars) : isTokenMessage message = "Token: ".toList.isPrefixOf chars :=
  congrArg _ h

theorem isTokenMessage_tokenMessage (found : Token) :
    isTokenMessage (tokenMessage found) = true :=
  (isTokenMessage_of_toList String.toList_append).trans
    (List.isPrefixOf_iff_prefix.mpr (List.prefix_append _ _))

theorem isTokenMessage_lineMessage (lineIndex : Nat) (line : List Char) :
    isTokenMessage (lineMessage lineIndex line) = false := by
  have hlist : (lineMessage lineIndex line).toList =
      "Scanning line ".toList ++ (toString lineIndex ++ (": " ++ Text.quoted line)).toList := by
    show ("Scanning line " ++ toString lineIndex ++ ": " ++ Text.quoted line).toList = _
    rw [String.append_assoc, String.append_assoc]
    exact String.toList_append
  exact isTokenMessage_of_toList hlist

/-- The messages of the events about some tokens. -/
theorem map_message_token (tokens : List Token) :
    (tokens.map Event.token).map Event.message = tokens.map tokenMessage :=
  List.map_map

/-- Each line has its message and those of its tokens. -/
theorem map_message_eventsOfLines (rules : Rules) (lineIndex : Nat) (lines : List (List Char)) :
    (rules.eventsOfLines lineIndex lines).map Event.message =
      (lines.mapIdx fun i line => lineMessage (lineIndex + i) line ::
        (rules.tokensFrom (lineIndex + i) 0 line).map tokenMessage).flatten := by
  induction lines generalizing lineIndex with
  | nil => rfl
  | cons line more ih =>
      rw [Rules.eventsOfLines, List.map_cons, List.map_append, map_message_token, ih,
        List.mapIdx_cons, List.flatten_cons]
      simp only [Nat.add_zero, Nat.add_assoc, Nat.add_comm 1, List.cons_append]
      rfl

/-- The messages about tokens are about the tokens of the lines. -/
theorem filter_isTokenMessage_eventsOfLines (rules : Rules) (lineIndex : Nat)
    (lines : List (List Char)) :
    ((rules.eventsOfLines lineIndex lines).map Event.message).filter isTokenMessage =
      (rules.tokensOfLines lineIndex lines).map tokenMessage := by
  induction lines generalizing lineIndex with
  | nil => rfl
  | cons line more ih =>
      have hline : ¬ isTokenMessage (Event.scanning lineIndex line).message = true :=
        Bool.eq_false_iff.mp (isTokenMessage_lineMessage lineIndex line)
      have htokens : ((rules.tokensFrom lineIndex 0 line).map tokenMessage).filter isTokenMessage =
          (rules.tokensFrom lineIndex 0 line).map tokenMessage := by
        rw [List.filter_eq_self]
        intro message hmessage
        obtain ⟨found, -, rfl⟩ := List.mem_map.mp hmessage
        exact isTokenMessage_tokenMessage found
      rw [Rules.eventsOfLines, Rules.tokensOfLines, List.map_cons, List.map_append,
        map_message_token, List.filter_cons_of_neg hline, List.filter_append, ih, htokens,
        List.map_append]

/-- A run reports the lines of its text, each followed by its tokens. -/
theorem events_run (h : t.rules.Valid) (text : String) :
    (t.run text).events = t.rules.eventsOfLines 0 (Text.lines text.toList) := by
  show ((TokenStream.ofText text).drain t.rules).events = _
  rw [TokenStream.events_drain h]
  rfl

/-- Everything that a run reports is a detail. -/
theorem messages_run (h : t.rules.Valid) (text : String) :
    (t.run text).messages .trace =
      (t.rules.eventsOfLines 0 (Text.lines text.toList)).map Event.message := by
  rw [Logged.messages, events_run h, List.filter_eq_self.mpr]
  exact fun e he => decide_eq_true (Rules.level_of_mem_eventsOfLines he)

/-- The tokens of a text that name a line are those of that line. -/
theorem filter_line_tokenize (h : t.rules.Valid) {text : String} {i : Nat} {line : List Char}
    (hline : (Text.lines text.toList)[i]? = some line) :
    (t.tokenize text).filter (·.line = i) = t.rules.tokensFrom i 0 line := by
  have hnamed : ∀ token : Token, decide (token.line = i) = true → token.line = 0 + i := by
    intro token htoken
    rw [Nat.zero_add]
    exact of_decide_eq_true htoken
  rw [tokenize_eq h, Rules.filter_tokensOfLines hline hnamed, Nat.zero_add, List.filter_eq_self]
  exact fun token htoken => decide_eq_true (Rules.line_of_mem_tokensFrom htoken)

/-- A run through a text with `n` breaks reports its `n + 1` lines in order, the empty ones too, and
behind each line the tokens of that line; it reports nothing else of this level, so that the
messages about tokens are about the tokens of the text, in order. -/
theorem Obtained.trace_messages (h : t.Obtained) (text : String) :
    (t.run text).messages .trace =
        ((Text.lines text.toList).mapIdx fun i line =>
          lineMessage i line ::
            ((t.tokenize text).filter (·.line = i)).map tokenMessage).flatten ∧
      (Text.lines text.toList).length = Text.breakCount text.toList + 1 ∧
      ((t.run text).messages .trace).filter isTokenMessage =
        (t.tokenize text).map tokenMessage := by
  have hvalid := h.valid
  refine ⟨?_, Text.length_lines _, ?_⟩
  · rw [messages_run hvalid, map_message_eventsOfLines]
    refine congrArg List.flatten (List.mapIdx_eq_mapIdx_iff.mpr fun i hi => ?_)
    rw [filter_line_tokenize hvalid (List.getElem?_eq_getElem hi), Nat.zero_add]
  · rw [messages_run hvalid, filter_isTokenMessage_eventsOfLines, tokenize_eq hvalid]

/-- An empty line between two others is reported without tokens, and the empty line at the end. -/
theorem trace_messages_remarks :
    (Tokenizer.mk Rules.remarks).Obtained ∧
      ((Tokenizer.mk Rules.remarks).run "2go\n\r\nrem \"1\"\r").messages .trace =
        ["Scanning line 0: \"2go\"", "Token: 0:0..1 number [static]",
          "Token: 0:1..3 identifier [declaration]", "Scanning line 1: \"\"",
          "Scanning line 2: \"rem \\\"1\\\"\"", "Token: 2:0..7 comment [documentation]",
          "Scanning line 3: \"\""] :=
  ⟨remarks_obtained, (Obtained.trace_messages remarks_obtained _).1.trans (by decide +kernel)⟩

end Tokenizer

end LineLexer
