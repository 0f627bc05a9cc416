import LineLexer.Error
import LineLexer.Proofs.Separators
import LineLexer.Text.PrefixCode

/-!
# Messages in printable ASCII

The errors about a comment marker and about a blank character show it in printable ASCII, and so
that it can be known from the message. A character is shown in one of three ways, `Text.Escapes`,
and which of them it is shows in its first two characters; the digits of a number end at the brace
behind them. So the escapes are a prefix code, `Text.isPrefixCode_escape`. The main statement is
`Error.message_escaped`.
-/

namespace LineLexer

namespace Text

variable {c d : Char} {shown : List Char}

/-! ## Escapes -/

/-- A character from `U+0020` to `U+007E`. -/
def IsPrintable (c : Char) : Prop :=
  0x20 ≤ c.toNat ∧ c.toNat ≤ 0x7E

/-- Whether a character is printable is a comparison of numbers. -/
instance (c : Char) : Decidable (IsPrintable c) :=
  inferInstanceAs (Decidable (_ ∧ _))

/-- The characters that are shown by a backslash and another character. -/
def shortEscapes : List (Char × Char) :=
  [('t', '\t'), ('r', '\r'), ('n', '\n'), ('\'', '\''), ('"', '"'), ('\\', '\\')]

/-- The ways in which a character is shown. -/
inductive Escapes (c : Char) : List Char → Prop where
  | plain (printable : IsPrintable c) (other : c ≠ '\\') : Escapes c [c]
  | short {mark : Char} (h : (mark, c) ∈ shortEscapes) : Escapes c ['\\', mark]
  | byNumber : Escapes c (numbered c)

theorem escapes_escape (c : Char) : Escapes c (escape c) := by
  unfold escape
  split_ifs with tab carriage line apostrophe quote backslash printable
  · subst tab
    exact .short (by decide)
  · subst carriage
    exact .short (by decide)
  · subst line
    exact .short (by decide)
  · subst apostrophe
    exact .short (by decide)
  · subst quote
    exact .short (by decide)
  · subst backslash
    exact .short (by decide)
  · exact .plain printable backslash
  · exact .byNumber

theorem Escapes.ne_nil (h : Escapes c shown) : shown ≠ [] := by
  cases h <;> exact List.cons_ne_nil _ _

/-! ## Printable characters -/

/-- Whether some characters are printable is decided along their list, not for all characters that
there are. -/
theorem forall_isPrintable {chars : List Char} (h : chars.all (IsPrintable ·) = true) :
    ∀ d ∈ chars, IsPrintable d :=
  fun d hd => of_decide_eq_true (List.all_eq_true.mp h d hd)

/-- The digits of a number are printable, and none of them is a brace. -/
theorem isPrintable_of_mem_hexDigits {n : Nat} (h : d ∈ hexDigits n) :
    IsPrintable d ∧ d ≠ '\x7d' := by
  obtain ⟨digit, small, rfl⟩ := mem_toDigits (by decide) h
  have each : ∀ digit < 16, IsPrintable (Nat.digitChar digit) ∧ Nat.digitChar digit ≠ '\x7d' := by
    decide
  exact each digit small

/-- A character is shown in printable characters. -/
theorem Escapes.isPrintable (h : Escapes c shown) (hd : d ∈ shown) : IsPrintable d := by
  cases h with
  | plain printable _ =>
      obtain rfl := List.mem_singleton.mp hd
      exact printable
  | @short mark h =>
      have marks : ∀ entry ∈ shortEscapes, IsPrintable entry.1 := by decide
      rcases List.mem_pair.mp hd with rfl | rfl
      · decide
      · exact marks (d, c) h
  | byNumber =>
      have braces : ∀ d ∈ ['\\', 'u', '\x7b', '\x7d'], IsPrintable d :=
        forall_isPrintable (by decide)
      simp only [numbered, List.mem_append] at hd
      rcases hd with (hd | hd) | hd
      · exact braces d (List.mem_append_left ['\x7d'] hd)
      · exact (isPrintable_of_mem_hexDigits hd).1
      · exact braces d (List.mem_append_right ['\\', 'u', '\x7b'] hd)

/-! ## Reading escapes -/

/-- No character is shown by a backslash and the mark of a number. -/
theorem mark_ne_of_mem {mark : Char} (h : (mark, c) ∈ shortEscapes) : mark ≠ 'u' := by
  have each : ∀ entry ∈ shortEscapes, entry.1 ≠ 'u' := by decide
  exact each (mark, c) h

/-- A mark behind a backslash shows which character it is. -/
theorem shortEscapes_inj {mark : Char} (hc : (mark, c) ∈ shortEscapes)
    (hd : (mark, d) ∈ shortEscapes) : c = d := by
  have each : ∀ first ∈ shortEscapes, ∀ second ∈ shortEscapes,
      first.1 = second.1 → first.2 = second.2 := by decide
  exact each (mark, c) hc (mark, d) hd rfl

/-- A number between braces shows which character it is. -/
theorem numbered_append_inj {left right : List Char}
    (h : numbered c ++ left = numbered d ++ right) : c = d ∧ left = right := by
  have brace (c : Char) : '\x7d' ∉ hexDigits c.toNat :=
    fun hmem => (isPrintable_of_mem_hexDigits hmem).2 rfl
  simp only [numbered, List.append_assoc] at h
  obtain ⟨digits, behind⟩ := cut_cons_inj (brace c) (brace d) (List.append_cancel_left h)
  exact ⟨Char.toNat_inj.mp (toDigits_inj (by decide) (by decide) digits), behind⟩

/-- Whatever stands behind it, an escape shows its character. -/
theorem Escapes.append_inj {other left right : List Char} (hc : Escapes c shown)
    (hd : Escapes d other) (h : shown ++ left = other ++ right) : c = d ∧ left = right := by
  cases hc with
  | plain _ hplain =>
      cases hd with
      | plain => exact List.cons.inj h
      | short => exact absurd (List.cons.inj h).1 hplain
      | byNumber => exact absurd (List.cons.inj h).1 hplain
  | @short mark hmark =>
      cases hd with
      | plain _ hplain => exact absurd (List.cons.inj h).1.symm hplain
      | @short mark' hmark' =>
          obtain ⟨same, behind⟩ := List.cons.inj (List.cons.inj h).2
          subst same
          exact ⟨shortEscapes_inj hmark hmark', behind⟩
      | byNumber => exact absurd (List.cons.inj (List.cons.inj h).2).1 (mark_ne_of_mem hmark)
  | byNumber =>
      cases hd with
      | plain _ hplain => exact absurd (List.cons.inj h).1.symm hplain
      | short hmark =>
          exact absurd (List.cons.inj (List.cons.inj h).2).1.symm (mark_ne_of_mem hmark)
      | byNumber => exact numbered_append_inj h

theorem isPrefixCode_escape : IsPrefixCode escape where
  ne_nil c := (escapes_escape c).ne_nil
  append_inj {c d} _ _ h := (escapes_escape c).append_inj (escapes_escape d) h

/-- A text is shown in printable characters. -/
theorem isPrintable_of_mem_flatMap_escape {text : List Char} (hd : d ∈ text.flatMap escape) :
    IsPrintable d := by
  obtain ⟨c, -, hd⟩ := List.mem_flatMap.mp hd
  exact (escapes_escape c).isPrintable hd

end Text

/-! ## Messages -/

namespace Error

variable {e : Error}

/-- An error shows the text at fault in escapes. -/
inductive ShowsEscaped : Error → Prop where
  | marker (marker : String) : ShowsEscaped (.invalidCommentMarker marker)
  | blank (c : Char) : ShowsEscaped (.invalidWhitespace c)

/-- The characters of a message that ends with quoted ones. -/
theorem toList_append_quote (opening : String) (shown : List Char) :
    (opening ++ String.ofList shown ++ "'").toList = opening.toList ++ (shown ++ ['\'']) := by
  simp

theorem toList_message_marker (marker : String) :
    (invalidCommentMarker marker).message.toList =
      "Invalid line comment marker '".toList ++ (marker.toList.flatMap Text.escape ++ ['\'']) :=
  toList_append_quote "Invalid line comment marker '" (marker.toList.flatMap Text.escape)

theorem toList_message_blank (c : Char) :
    (invalidWhitespace c).message.toList =
      "Invalid whitespace character '".toList ++ ([c].flatMap Text.escape ++ ['\'']) := by
  rw [List.flatMap_singleton]
  exact toList_append_quote "Invalid whitespace character '" (Text.escape c)

/-- A message in printable characters that shows a text in escapes is all printable. -/
theorem isPrintable_of_mem_append {opening text : List Char} {d : Char}
    (hopening : ∀ d ∈ opening, Text.IsPrintable d)
    (hd : d ∈ opening ++ (text.flatMap Text.escape ++ ['\''])) : Text.IsPrintable d := by
  rcases List.mem_append.mp hd with hd | hd
  · exact hopening d hd
  · rcases List.mem_append.mp hd with hd | hd
    · exact Text.isPrintable_of_mem_flatMap_escape hd
    · obtain rfl := List.mem_singleton.mp hd
      decide

/-- A message shows nothing but printable characters. -/
theorem ShowsEscaped.isPrintable (h : ShowsEscaped e) {d : Char} (hd : d ∈ e.message.toList) :
    Text.IsPrintable d := by
  cases h with
  | marker marker =>
      rw [toList_message_marker] at hd
      exact isPrintable_of_mem_append (Text.forall_isPrintable (by decide)) hd
  | blank c =>
      rw [toList_message_blank] at hd
      exact isPrintable_of_mem_append (Text.forall_isPrintable (by decide)) hd

/-- Behind the same words, different texts are shown differently. -/
theorem text_eq_of_append_eq {opening front back : List Char}
    (h : opening ++ (front.flatMap Text.escape ++ ['\'']) =
      opening ++ (back.flatMap Text.escape ++ ['\''])) : front = back :=
  Text.isPrefixCode_escape.flatMap_inj (List.append_cancel_right (List.append_cancel_left h))

/-- A message about a marker and one about a blank character differ in their second words. -/
theorem message_marker_ne_blank (marker : String) (c : Char) :
    (invalidCommentMarker marker).message ≠ (invalidWhitespace c).message := by
  intro h
  have chars := congrArg (fun message => message.toList.take 9) h
  simp only [toList_message_marker, toList_message_blank] at chars
  rw [List.take_append_of_le_length (by decide), List.take_append_of_le_length (by decide)] at chars
  exact absurd chars (by decide)

/-- An error is known from its message. -/
theorem ShowsEscaped.message_inj {other : Error} (h : ShowsEscaped e) (hother : ShowsEscaped other)
    (same : e.message = other.message) : e = other := by
  have chars := congrArg String.toList same
  cases h with
  | marker marker =>
      cases hother with
      | marker marker' =>
          rw [toList_message_marker, toList_message_marker] at chars
          rw [String.toList_inj.mp (text_eq_of_append_eq chars)]
      | blank c => exact absurd same (message_marker_ne_blank marker c)
  | blank c =>
      cases hother with
      | marker marker => exact absurd same.symm (message_marker_ne_blank marker c)
      | blank c' =>
          rw [toList_message_blank, toList_message_blank] at chars
          rw [List.head_eq_of_cons_eq (text_eq_of_append_eq chars)]

/-- The messages about markers and blank characters are in printable ASCII, and each shows which of
the two it is about, and which marker or character that is. -/
theorem message_escaped :
    (∀ e, ShowsEscaped e → ∀ c ∈ e.message.toList, Text.IsPrintable c) ∧
      ∀ e other, ShowsEscaped e → ShowsEscaped other → e.message = other.message → e = other :=
  ⟨fun _ h _ hc => h.isPrintable hc, fun _ _ h hother same => h.message_inj hother same⟩

/-- A line feed is shown otherwise than its escape typed out, and the message about the Greek letter
is still in printable characters. -/
theorem message_escaped_typed_out :
    (invalidCommentMarker "\n").message ≠ (invalidCommentMarker "\\n").message ∧
      ∀ c ∈ (invalidWhitespace (Char.ofNat 0x3BB)).message.toList, Text.IsPrintable c := by
  obtain ⟨printable, known⟩ := message_escaped
  refine ⟨fun same => ?_, printable _ (.blank _)⟩
  exact absurd (known _ _ (.marker "\n") (.marker "\\n") same) (by decide)

end Error

end LineLexer
