import LineLexer.Proofs.Json.Numerals

/-!
# Passing over values

Every value of the grammar is passed over, to any depth of nesting. The loop that does so keeps the
open brackets in a list, so a value inside brackets does not return to a caller. What is proved of
a value is therefore said with what comes after it: if the loop goes on well behind the value, then
it goes on well in front of it.
-/

namespace LineLexer.Json

/-- The character that opens a bracket. -/
def Bracket.openingChar : Bracket → Char
  | list => '['
  | object => '\x7b'

/-- The character that closes a bracket. -/
def Bracket.closingChar : Bracket → Char
  | list => ']'
  | object => '\x7d'

/-- The closing character has the closing byte, it is solid and may stand behind a value. -/
theorem Bracket.closingChar_spec (b : Bracket) :
    ascii b.closingChar = b.closing ∧ Decoder.IsSolid b.closingChar ∧
      b.closingChar ∈ [',', ']', '\x7d'] := by
  cases b <;> decide

/-- No value starts with a closing character. -/
theorem Bracket.closing_ne {c : Char} (hc : c ∈ startChars) (b : Bracket) :
    ascii c ≠ b.closing := by
  have each : ∀ c ∈ startChars, ascii c ≠ Bracket.list.closing ∧
      ascii c ≠ Bracket.object.closing := by decide
  cases b
  · exact (each c hc).1
  · exact (each c hc).2

namespace Decoder

variable {ending : Ending} {text middle rest tail before : List Char} {brackets : List Bracket}

/-- From a place in front of `text` on, passing over values ends in front of `tail`. -/
def Continues (ending : Ending) (tail : List Char) : Nesting ⊕ Unit → List Char → Prop
  | .inr _, text => text = tail
  | .inl nesting, text => (loop ignoreNext nesting).Gives ending text (.ok ()) tail

/-- One more round of the loop in front. -/
theorem Continues.step {nesting : Nesting} {place : Nesting ⊕ Unit}
    (h : (ignoreNext nesting).Gives ending text (.ok place) middle) (shorter : Shorter middle text)
    (later : Continues ending tail place middle) : Continues ending tail (.inl nesting) text := by
  cases place with
  | inl next => exact .loop_again h shorter later
  | inr _ =>
    cases later
    exact .loop_stop h

/-- The decoder starts on a value. If the loop goes on well behind the value, at the place
`behind`, then it goes on well where the decoder stops. -/
structure Passes (d : Decoder (Nesting ⊕ Unit)) (text : List Char) (behind : Nesting ⊕ Unit) :
    Prop where
  starts : StartsValue text
  goesOn {ending : Ending} {before rest tail : List Char} (hbefore : Blank before)
    (hrest : Ends ending rest) (later : Continues ending tail behind rest) :
    ∃ place middle, d.Gives ending (before ++ (text ++ rest)) (.ok place) middle ∧
      Shorter middle (before ++ (text ++ rest)) ∧ Continues ending tail place middle

/-- A decoder that takes the whole value passes over it. -/
theorem Passes.of_gives {d : Decoder (Nesting ⊕ Unit)} {behind : Nesting ⊕ Unit}
    (hstart : StartsValue text)
    (h : ∀ {ending : Ending} {before rest : List Char}, Blank before → Ends ending rest →
      d.Gives ending (before ++ (text ++ rest)) (.ok behind) rest) : Passes d text behind := by
  refine ⟨hstart, fun {ending before rest tail} hbefore hrest later => ?_⟩
  have nonempty : text ≠ [] := by
    cases hstart
    exact List.cons_ne_nil _ _
  exact ⟨behind, rest, h hbefore hrest, (Shorter.of_ne_nil nonempty rest).append_left before,
    later⟩

/-! ## Values without brackets -/

/-- A word is passed over. -/
theorem passes_word (h : text ∈ words) :
    Passes (ignoreStart brackets) text (Nesting.behindValue brackets) := by
  refine .of_gives (IsValue.word h).startsValue fun {ending before rest} hbefore _ => ?_
  simp only [words, List.mem_cons, List.not_mem_nil, or_false] at h
  obtain rfl | rfl | rfl := h
  all_goals
    refine .bind (.significant hbefore) ?_
    repeat rw [if_neg (by decide)]
    rw [if_pos (by decide)]
    exact .bind .word (.pure _)

/-- A numeral is passed over. -/
theorem passes_numeral (h : IsNumeral text) :
    Passes (ignoreStart brackets) text (Nesting.behindValue brackets) := by
  refine .of_gives (IsValue.numeral h).startsValue fun {ending before rest} hbefore hrest => ?_
  obtain ⟨result, taken⟩ := exists_numeral .shape h
  obtain ⟨value, rfl⟩ := taken.total rfl
  have read := taken.gives hrest
  obtain ⟨c, more, rfl, hc⟩ := h.exists_cons
  have first : ∀ c ∈ '-' :: digitChars, IsSolid c ∧ ascii c ≠ ascii '[' ∧
      ascii c ≠ ascii '\x7b' ∧ ascii c ≠ ascii '"' ∧ startsNumeral (ascii c) = true := by decide
  obtain ⟨solid, noList, noObject, noQuote, starts⟩ := first c hc
  refine .bind (.significant hbefore solid) ?_
  rw [if_neg noList, if_neg noObject, if_neg noQuote, if_pos starts]
  exact .bind read (.pure _)

/-- A literal is passed over. -/
theorem passes_literal {body : List Char} (h : IsBody body) :
    Passes (ignoreStart brackets) (literal body) (Nesting.behindValue brackets) := by
  refine .of_gives (IsValue.literal h).startsValue fun {ending before rest} hbefore _ => ?_
  rw [literal_append]
  refine .bind (.significant hbefore) ?_
  rw [if_neg (by decide), if_neg (by decide), if_pos rfl]
  exact .bind .skip (.bind (.skipLiteral h) (.pure _))

/-! ## Values in brackets -/

/-- Passes over an item inside a bracket: a value, with its key in front inside an object. -/
def ignoreItem (bracket : Bracket) (outer : List Bracket) : Decoder (Nesting ⊕ Unit) :=
  match bracket with
  | .list => ignoreStart (.list :: outer)
  | .object => do
    ignoreKey
    ignoreStart (.object :: outer)

/-- The closing bracket ends the innermost brackets. -/
theorem Gives.ignoreNext_close (n : Nesting) (hbefore : Blank before) :
    (ignoreNext n).Gives ending (before ++ n.innermost.closingChar :: rest)
      (.ok (Nesting.behindValue n.outer)) rest := by
  obtain ⟨same, solid, _⟩ := n.innermost.closingChar_spec
  refine .bind (.significant hbefore solid) ?_
  rw [if_pos same]
  exact .bind (.skip solid.1) (.pure _)

/-- Passing over the next thing inside brackets is passing over an item. Only behind a comma the
blanks in front of the item are still there. -/
theorem Gives.ignoreNext_item {n : Nesting} {behind item : List Char}
    {result : Except Fault (Nesting ⊕ Unit)} (hbefore : Blank before) (hbehind : Blank behind)
    (hitem : StartsValue item)
    (h : (ignoreItem n.innermost n.outer).Gives ending
      ((if n.isFresh then [] else behind) ++ item) result rest) :
    (ignoreNext n).Gives ending (before ++ (lead n.isFresh ++ (behind ++ item))) result rest := by
  obtain ⟨innermost, outer, isFresh⟩ := n
  cases isFresh with
  | true =>
    cases hitem with | @cons c more hc
    show (ignoreNext _).Gives ending (before ++ (behind ++ c :: more)) result rest
    rw [← List.append_assoc]
    refine .bind (.significant (hbefore.append hbehind) (isSolid_of_mem_startChars hc)) ?_
    rw [if_neg (innermost.closing_ne hc)]
    cases innermost <;> exact h
  | false =>
    have noClosing : ascii ',' ≠ innermost.closing := by cases innermost <;> decide
    refine .bind (.significant hbefore) ?_
    rw [if_neg noClosing]
    refine .bind (.punctuation .nil) ?_
    cases innermost <;> exact h

/-- The loop goes on well at the closing bracket if it goes on well behind it. -/
theorem Continues.close {n : Nesting} (hbefore : Blank before)
    (later : Continues ending tail (Nesting.behindValue n.outer) rest) :
    Continues ending tail (.inl n) (before ++ n.innermost.closingChar :: rest) :=
  .step (.ignoreNext_close n hbefore)
    ((Shorter.of_ne_nil (List.cons_ne_nil n.innermost.closingChar []) rest).append_left before)
    later

/-- The loop goes on well in front of an item if it does so behind it. -/
theorem Continues.item {n : Nesting} {behind item : List Char}
    (passes : Passes (ignoreItem n.innermost n.outer) item (.inl ⟨n.innermost, n.outer, false⟩))
    (hbefore : Blank before) (hbehind : Blank behind) (hrest : Ends ending rest)
    (later : Continues ending tail (.inl ⟨n.innermost, n.outer, false⟩) rest) :
    Continues ending tail (.inl n) (before ++ (lead n.isFresh ++ (behind ++ (item ++ rest)))) := by
  have hkept : Blank (if n.isFresh then [] else behind) := by
    split
    · exact .nil
    · exact hbehind
  obtain ⟨place, middle, gives, shorter, goesOn⟩ := passes.goesOn hkept hrest later
  refine .step (.ignoreNext_item hbefore hbehind (passes.starts.append rest) gives) ?_ goesOn
  refine .append_left (.append_left ?_ _) _
  cases hfresh : n.isFresh with
  | true =>
    rw [hfresh] at shorter
    exact .append_left shorter behind
  | false =>
    rw [hfresh] at shorter
    exact shorter

/-- The loop goes on well in front of items if it passes over each of them and goes on well behind
the closing bracket. The induction is on the items; behind each of them there is a comma or the
closing bracket, where the next round starts. -/
theorem Continues.items {bracket : Bracket} {outer : List Bracket} {inner : List Char}
    {items : List (List Char)} {isFresh : Bool} (h : Separated inner items)
    (each : ∀ item ∈ items,
      Passes (ignoreItem bracket outer) item (.inl ⟨bracket, outer, false⟩))
    (hbefore : Blank before) (later : Continues ending tail (Nesting.behindValue outer) rest) :
    Continues ending tail (.inl ⟨bracket, outer, isFresh⟩)
      (before ++ (lead isFresh ++ (inner ++ bracket.closingChar :: rest))) := by
  induction h generalizing before isFresh with
  | @one behind item after hbehind hafter =>
    have close : Continues ending tail (.inl ⟨bracket, outer, false⟩)
        (after ++ bracket.closingChar :: rest) := .close hafter later
    simp only [List.append_assoc]
    exact .item (each item (by simp)) hbefore hbehind
      (.blank_cons hafter bracket.closingChar_spec.2.2) close
  | @cons behind item after more items hbehind hafter hmore ih =>
    have others : Continues ending tail (.inl ⟨bracket, outer, false⟩)
        (after ++ ',' :: (more ++ bracket.closingChar :: rest)) :=
      ih (fun item hitem => each item (by simp [hitem])) hafter
    simp only [List.append_assoc, List.cons_append]
    exact .item (each item (by simp)) hbefore hbehind (.blank_cons hafter) others

/-- The loop goes on well in front of a bracketed text, behind the opening bracket. -/
theorem Continues.bracketed {bracket : Bracket} {outer : List Bracket} {opening : Char}
    {items : List (List Char)} (h : Bracketed opening bracket.closingChar text items)
    (each : ∀ item ∈ items,
      Passes (ignoreItem bracket outer) item (.inl ⟨bracket, outer, false⟩))
    (later : Continues ending tail (Nesting.behindValue outer) rest) :
    ∃ inner, text = opening :: inner ∧
      Continues ending tail (.inl ⟨bracket, outer, true⟩) (inner ++ rest) := by
  cases h with
  | @none between hbetween =>
    refine ⟨_, rfl, ?_⟩
    rw [List.append_assoc]
    exact .close hbetween later
  | @some inner _ h =>
    refine ⟨_, rfl, ?_⟩
    rw [List.append_assoc]
    exact Continues.items h each .nil later

/-- Behind an opening bracket the loop takes over. -/
theorem Gives.ignoreStart_open (bracket : Bracket) (hbefore : Blank before) :
    (ignoreStart brackets).Gives ending (before ++ bracket.openingChar :: rest)
      (.ok (.inl ⟨bracket, brackets, true⟩)) rest := by
  cases bracket with
  | list =>
    refine .bind (.significant hbefore) ?_
    rw [if_pos (by decide)]
    exact .bind .skip (.pure _)
  | object =>
    refine .bind (.significant hbefore) ?_
    rw [if_neg (by decide), if_pos (by decide)]
    exact .bind .skip (.pure _)

/-- A bracketed text is passed over if all its items are. -/
theorem passes_bracketed {bracket : Bracket} {items : List (List Char)}
    (h : Bracketed bracket.openingChar bracket.closingChar text items)
    (each : ∀ item ∈ items,
      Passes (ignoreItem bracket brackets) item (.inl ⟨bracket, brackets, false⟩)) :
    Passes (ignoreStart brackets) text (Nesting.behindValue brackets) where
  starts := by
    have opens : bracket.openingChar ∈ startChars := by cases bracket <;> decide
    cases h <;> exact .cons _ opens
  goesOn {ending before rest tail} hbefore hrest later := by
    obtain ⟨inner, rfl, goesOn⟩ := Continues.bracketed h each later
    exact ⟨_, inner ++ rest, .ignoreStart_open bracket hbefore,
      (Shorter.of_ne_nil (List.cons_ne_nil _ []) _).append_left before, goesOn⟩

/-- A member of an object is passed over if its value is. -/
theorem passes_member {outer : List Bracket} {behind : Nesting ⊕ Unit} {item key value : List Char}
    (h : IsMember item (key, value)) (hkey : IsBody key)
    (hvalue : Passes (ignoreStart (.object :: outer)) value behind) :
    Passes (ignoreItem .object outer) item behind := by
  cases h with | @parts _ front back _ hfront hback
  refine ⟨.cons _ (by decide), fun {ending before rest tail} hbefore hrest later => ?_⟩
  obtain ⟨place, middle, gives, shorter, goesOn⟩ := hvalue.goesOn hback hrest later
  have text : literal key ++ (front ++ ':' :: (back ++ value)) ++ rest =
      '"' :: (key ++ '"' :: (front ++ ':' :: (back ++ (value ++ rest)))) := by
    simp [literal]
  rw [text]
  refine ⟨place, middle, .bind (.bind (.punctuation hbefore) (.bind (.skipLiteral hkey)
    (.punctuation hfront))) gives, ?_, goesOn⟩
  have longer := (((shorter.append_left [':']).append_left front).append_left ['"']).append_left key
  exact (longer.append_left ['"']).append_left before

/-- Every value is passed over. -/
theorem passes_value (h : IsValue text) (brackets : List Bracket) :
    Passes (ignoreStart brackets) text (Nesting.behindValue brackets) := by
  induction h generalizing brackets with
  | word h => exact passes_word h
  | numeral h => exact passes_numeral h
  | literal h => exact passes_literal h
  | @list text items h _ ih =>
    have list : Bracketed Bracket.list.openingChar Bracket.list.closingChar text items := h
    exact passes_bracketed list fun item hitem => ih item hitem (.list :: brackets)
  | @object text members h keys _ ih =>
    obtain ⟨items, h, hmembers⟩ := h
    have object : Bracketed Bracket.object.openingChar Bracket.object.closingChar text items := h
    refine passes_bracketed object fun item hitem => ?_
    obtain ⟨⟨key, value⟩, hmember, same⟩ := exists_isMember hmembers hitem
    exact passes_member same (keys _ hmember) (ih _ hmember (.object :: brackets))

/-- A value that nobody asks for is passed over. -/
theorem Reads.ignored (h : IsValue text) : ignored.Reads text (.ok ()) where
  starts := h.startsValue
  gives {ending before rest} hbefore hrest := by
    have passes : Passes (ignoreStart []) text (.inr ()) := passes_value h []
    obtain ⟨place, middle, gives, _, goesOn⟩ := passes.goesOn hbefore hrest rfl
    refine .bind gives ?_
    cases place with
    | inl nesting => exact goesOn
    | inr _ =>
      cases goesOn
      exact .pure ()

end Decoder

end LineLexer.Json
