import LineLexer.Event
import LineLexer.Scanner

/-!
# Streams of tokens

A stream hands out the tokens of a text one by one and reads no further than it has to. It holds
the scan of the line that it is in, if it has entered one, and the lines that it has not entered.
The last line stays the current one after its end.
-/

namespace LineLexer

/-- A text of which some tokens have been handed out. -/
structure TokenStream where
  nextLine : Nat
  pending : List (List Char)
  current : Option Scanner
  deriving DecidableEq, Repr, Inhabited

/-- The outcome of asking a stream for tokens: what was found, the stream after it and what was
done on the way. -/
structure Pull (Found : Type) where
  found : Found
  after : TokenStream
  events : List Event
  deriving DecidableEq, Repr

namespace TokenStream

/-- The stream of a text of which nothing has been read. -/
def ofText (text : String) : TokenStream :=
  ⟨0, Text.lines text.toList, none⟩

/-- The index of the line that the stream is in. -/
def currentLine? (s : TokenStream) : Option Nat :=
  s.current.map Scanner.lineIndex

/-- Enter lines until one of them has a token. -/
def enter (rules : Rules) (nextLine : Nat) (current : Option Scanner) :
    List (List Char) → Pull (Option Token)
  | [] => ⟨none, ⟨nextLine, [], current⟩, []⟩
  | line :: more =>
    match (Scanner.start nextLine line).next rules with
    | (some t, scanner) =>
      ⟨some t, ⟨nextLine + 1, more, some scanner⟩, [.scanning nextLine line, .token t]⟩
    | (none, scanner) =>
      let pull := enter rules (nextLine + 1) (some scanner) more
      ⟨pull.found, pull.after, .scanning nextLine line :: pull.events⟩

/-- Ask for the next token. -/
def next (rules : Rules) (s : TokenStream) : Pull (Option Token) :=
  match s.current with
  | none => enter rules s.nextLine none s.pending
  | some scanner =>
    match scanner.next rules with
    | (some t, scanner) => ⟨some t, ⟨s.nextLine, s.pending, some scanner⟩, [.token t]⟩
    | (none, scanner) => enter rules s.nextLine (some scanner) s.pending

/-- The number of characters of some lines, every line counting as one more. -/
def extent : List (List Char) → Nat
  | [] => 0
  | line :: more => line.length + 1 + extent more

/-- The number of characters that are not read, every line that is not entered counting as one
more. -/
def unread (s : TokenStream) : Nat :=
  (s.current.map (·.rest.length)).getD 0 + extent s.pending

/-- Entering lines up to a token reads a part of them. -/
theorem unread_enter_lt {rules : Rules} {nextLine : Nat} {current : Option Scanner}
    {pending : List (List Char)} {t : Token}
    (found : (enter rules nextLine current pending).found = some t) :
    (enter rules nextLine current pending).after.unread < extent pending := by
  induction pending generalizing nextLine current with
  | nil => simp [enter] at found
  | cons line more ih =>
    unfold enter at found ⊢
    split
    next scanner heq =>
      have := Scanner.scan_rest_lt heq
      simp only [Scanner.start] at this
      simp only [unread, Option.map_some, Option.getD_some, extent]
      omega
    next scanner heq =>
      rw [heq] at found
      have := ih found
      simp only [extent]
      omega

/-- Asking for a token and getting one leaves less to read. -/
theorem unread_next_lt {rules : Rules} {s : TokenStream} {t : Token}
    (found : (s.next rules).found = some t) : (s.next rules).after.unread < s.unread := by
  unfold next at found ⊢
  split
  next heq =>
    rw [heq] at found
    have := unread_enter_lt found
    simp only [unread, heq] at this ⊢
    simpa using this
  next scanner heq =>
    rw [heq] at found
    dsimp only at found
    split
    next later hnext =>
      have := Scanner.scan_rest_lt hnext
      simp only [unread, heq, Option.map_some, Option.getD_some]
      omega
    next hnext =>
      rw [hnext] at found
      have := unread_enter_lt found
      simp only [unread, heq] at this ⊢
      omega

/-- Ask for tokens until there are no more. -/
def drain (rules : Rules) (s : TokenStream) : Pull (List Token) :=
  let pull := s.next rules
  match _found : pull.found with
  | none => ⟨[], pull.after, pull.events⟩
  | some t =>
    let later := pull.after.drain rules
    ⟨t :: later.found, later.after, pull.events ++ later.events⟩
termination_by s.unread
decreasing_by exact unread_next_lt _found

/-- Ask for a number of tokens, and for no more if one is missing. -/
def take (rules : Rules) : Nat → TokenStream → Pull (List Token)
  | 0, s => ⟨[], s, []⟩
  | n + 1, s =>
    let pull := s.next rules
    match pull.found with
    | none => ⟨[], pull.after, pull.events⟩
    | some t =>
      let later := take rules n pull.after
      ⟨t :: later.found, later.after, pull.events ++ later.events⟩

/-- Pass over a number of tokens and ask for the one after them. -/
def nth (rules : Rules) : Nat → TokenStream → Pull (Option Token)
  | 0, s => s.next rules
  | n + 1, s =>
    let pull := s.next rules
    match pull.found with
    | none => pull
    | some _ =>
      let later := nth rules n pull.after
      ⟨later.found, later.after, pull.events ++ later.events⟩

/-- Use up a stream and count its tokens. -/
def count (rules : Rules) (s : TokenStream) : Pull Nat :=
  let pull := s.drain rules
  ⟨pull.found.length, pull.after, pull.events⟩

/-- The scan of a stream, shown with the names of its parts. -/
def inspectScan (s : TokenStream) : String :=
  match s.current with
  | none => "None"
  | some scanner => "Some(" ++ scanner.inspect ++ ")"

end TokenStream

end LineLexer
