import LineLexer.Proofs.TokenText

/-!
# Columns in sixteen-bit code units

A host that stores a line in sixteen-bit code units finds the text of a token between the columns
that `Token.utf16Columns?` gives. These count the units before the first character of the token and
those before the character behind it, `Token.utf16Columns?_of_le`, so that they keep the order of
the columns that count characters. The text and the columns are found in different ways, and for the
same lines: this is the main statement, `Token.text?_and_utf16Columns?`.
-/

namespace LineLexer

namespace Text

/-- The more characters of a line are taken, the more units there are. -/
theorem units_take_lt {chars : List Char} {j k : Nat} (hlt : j < k) (hle : k ≤ chars.length) :
    units (chars.take j) < units (chars.take k) := by
  have hj : j < chars.length := Nat.lt_of_lt_of_le hlt hle
  obtain ⟨behind, hbehind⟩ : chars.take (j + 1) <+: chars.take k :=
    List.take_prefix_take_left hlt
  rw [← hbehind, List.take_add_one, List.getElem?_eq_getElem hj, units_append, units_append]
  have hpos := unitWidth_pos chars[j]
  simp only [Option.toList_some, units]
  omega

theorem units_take_le {chars : List Char} {j k : Nat} (hle : j ≤ k) (hlength : k ≤ chars.length) :
    units (chars.take j) ≤ units (chars.take k) := by
  rcases Nat.eq_or_lt_of_le hle with rfl | hlt
  · exact Nat.le_refl _
  · exact Nat.le_of_lt (units_take_lt hlt hlength)

end Text

namespace Token

variable {t : Token} {line : String}

/-- The columns of a token are the units before its first character and the units before the
character behind it. -/
theorem utf16Columns?_of_le (hend : t.endColumn ≤ line.length) :
    t.utf16Columns? line =
      some (Text.units (line.toList.take t.startColumn),
        Text.units (line.toList.take t.endColumn)) := by
  rw [utf16Columns?, if_pos hend, endColumn, List.take_add, Text.units_append]

theorem utf16Columns?_of_lt (hend : line.length < t.endColumn) : t.utf16Columns? line = none := by
  rw [utf16Columns?, if_neg (Nat.not_le_of_lt hend)]

/-- A token and another one behind it have units of their own, in the same order. -/
theorem exists_utf16Columns?_before {later : Token} (hpos : 0 < t.length) (hpos' : 0 < later.length)
    (hbefore : t.endColumn ≤ later.startColumn) (hend : later.endColumn ≤ line.length) :
    ∃ first last first' last', t.utf16Columns? line = some (first, last) ∧
      later.utf16Columns? line = some (first', last') ∧
      first < last ∧ last ≤ first' ∧ first' < last' := by
  have hlt : t.startColumn < t.endColumn := Nat.lt_add_of_pos_right hpos
  have hlt' : later.startColumn < later.endColumn := Nat.lt_add_of_pos_right hpos'
  have hstart : later.startColumn ≤ line.length := Nat.le_trans (Nat.le_of_lt hlt') hend
  have hearlier : t.endColumn ≤ line.length := Nat.le_trans hbefore hstart
  have hchars := line.length_toList
  refine ⟨_, _, _, _, utf16Columns?_of_le hearlier, utf16Columns?_of_le hend, ?_, ?_, ?_⟩
  · exact Text.units_take_lt hlt (hchars ▸ hearlier)
  · exact Text.units_take_le hbefore (hchars ▸ hstart)
  · exact Text.units_take_lt hlt' (hchars ▸ hend)

/-- The units of a line between the columns of a token are those of the characters that the token
marks. -/
theorem Marks.codeUnits_eq {covered : List Char} {first last : Nat}
    (h : t.Marks line.toList covered) (hcolumns : t.utf16Columns? line = some (first, last)) :
    last = first + (Text.codeUnits covered).length ∧
      ((Text.codeUnits line.toList).drop first).take (last - first) = Text.codeUnits covered := by
  have hend : t.endColumn ≤ line.length := String.length_toList ▸ (marks_iff.mp h).1
  obtain ⟨before, behind, hline, hstart, hstop⟩ := h
  rw [utf16Columns?_of_le hend, hline, ← hstart, ← hstop, List.take_left, List.append_assoc,
    List.take_left, Option.some.injEq, Prod.mk.injEq] at hcolumns
  obtain ⟨rfl, rfl⟩ := hcolumns
  rw [Text.units_append, ← Text.length_codeUnits before, ← Text.length_codeUnits covered]
  refine ⟨rfl, ?_⟩
  rw [hline, Text.codeUnits_append, Text.codeUnits_append, List.append_assoc, List.drop_left,
    Nat.add_sub_cancel_left, List.take_left]

/-- A line is long enough for a token to have a text and columns in sixteen-bit code units, or the
token has neither. The text consists of the characters from the first column of the token up to its
last one. The columns are the number of units before it and the number of units up to its end, so
that the units of the line between them are those of the text. A token and another one behind it in
the same line have units of their own, in the same order. -/
theorem text?_and_utf16Columns? {t : Token} (hpos : 0 < t.length) (line : String) :
    (line.length < t.endColumn → t.text? line = none ∧ t.utf16Columns? line = none) ∧
      (t.endColumn ≤ line.length → ∃ s first last,
        t.text? line = some s ∧ t.utf16Columns? line = some (first, last) ∧
          s.toList = (line.toList.drop t.startColumn).take t.length ∧
          first = (Text.codeUnits (line.toList.take t.startColumn)).length ∧
          last = first + (Text.codeUnits s.toList).length ∧
          ((Text.codeUnits line.toList).drop first).take (last - first) =
            Text.codeUnits s.toList) ∧
      ∀ later : Token, 0 < later.length → t.endColumn ≤ later.startColumn →
        later.endColumn ≤ line.length → ∃ first last first' last',
          t.utf16Columns? line = some (first, last) ∧
            later.utf16Columns? line = some (first', last') ∧
            first < last ∧ last ≤ first' ∧ first' < last' := by
  refine ⟨fun hlt => ?_, fun hend => ?_, fun later hpos' => exists_utf16Columns?_before hpos hpos'⟩
  · exact ⟨text?_of_not_fitsIn fun hfits => Nat.not_le_of_lt hlt hfits.2, utf16Columns?_of_lt hlt⟩
  · have htext := text?_of_fitsIn ⟨hpos, hend⟩
    have hcolumns := utf16Columns?_of_le hend
    obtain ⟨hlast, hunits⟩ := (text?_eq_some_iff.mp htext).2.codeUnits_eq hcolumns
    exact ⟨_, _, _, htext, hcolumns, String.toList_ofList, (Text.length_codeUnits _).symm, hlast,
      hunits⟩

/-- The crab `U+1F980` takes two units, so that the word behind it starts at the third one. A line
without the crab is too short for the word. -/
theorem text?_and_utf16Columns?_crab :
    let line := String.ofList (Char.ofNat 0x1F980 :: " crab42".toList)
    let crab : Token := ⟨0, 0, 1, .identifier, .singleton .declaration⟩
    let word : Token := ⟨0, 2, 6, .identifier, .singleton .declaration⟩
    crab.utf16Columns? line = some (0, 2) ∧ word.utf16Columns? line = some (3, 9) ∧
      word.text? line = some "crab42" ∧
      ((Text.codeUnits line.toList).drop 3).take 6 = Text.codeUnits "crab42".toList ∧
      word.text? " crab42" = none ∧ word.utf16Columns? " crab42" = none := by
  intro line crab word
  have hcrab : crab.utf16Columns? line = some (0, 2) := by decide +kernel
  have hword : word.utf16Columns? line = some (3, 9) := by decide +kernel
  obtain ⟨-, hcovered, -⟩ := text?_and_utf16Columns? (t := word) (by decide) line
  obtain ⟨s, first, last, htext, hcolumns, hs, -, -, hunits⟩ := hcovered (by decide)
  have hchars : s.toList = "crab42".toList := hs.trans (by decide)
  obtain ⟨rfl, rfl⟩ := Prod.mk.inj (Option.some.inj (hword.symm.trans hcolumns))
  obtain ⟨hmissing, -⟩ := text?_and_utf16Columns? (t := word) (by decide) " crab42"
  obtain ⟨hnoText, hnoColumns⟩ := hmissing (by decide)
  rw [String.toList_inj.mp hchars] at htext hunits
  exact ⟨hcrab, hword, htext, hunits, hnoText, hnoColumns⟩

end Token

end LineLexer
