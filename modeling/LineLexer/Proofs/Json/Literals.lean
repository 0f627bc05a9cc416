import LineLexer.Proofs.Json.Reading

/-!
# Reading string literals

A literal that denotes a text is read as that text, whichever way its characters are spelled, and a
literal that only has the right shape is passed over. Both follow the pieces of the literal one by
one.
-/

namespace LineLexer.Json

/-! ## Hexadecimal digits -/

/-- A hexadecimal digit is one byte, from which its value is read. -/
theorem IsHexDigit.hexValue?_eq {c : Char} {value : Nat} (h : IsHexDigit c value) :
    IsAscii c ∧ hexValue? (ascii c) = some value := by
  have small : ∀ value < 16, IsAscii (Nat.digitChar value) ∧
      hexValue? (ascii (Nat.digitChar value)) = some value := by decide
  have capital : ∀ value < 16, IsAscii (Nat.digitChar value).toUpper ∧
      hexValue? (ascii (Nat.digitChar value).toUpper) = some value := by decide
  obtain ⟨less, rfl | rfl⟩ := h
  · exact small value less
  · exact capital value less

/-- A value has one hexadecimal digit. -/
theorem IsHexDigit.lt {c : Char} {value : Nat} (h : IsHexDigit c value) : value < 16 :=
  h.1

/-- A code unit has sixteen bits. -/
theorem SpellsUnit.lt {digits : List Char} {unit : Nat} (h : SpellsUnit digits unit) :
    unit < 0x10000 := by
  cases h with
  | digits ha hb hc hd =>
    have := ha.lt
    have := hb.lt
    have := hc.lt
    have := hd.lt
    omega

/-- The number of a character is not one of half a pair, and has at most 21 bits. -/
theorem toNat_valid (c : Char) : c.toNat < 0xD800 ∨ 0xDFFF < c.toNat ∧ c.toNat < 0x110000 :=
  c.valid

/-- The number of a character does not open a pair of units. -/
theorem isHighUnit_toNat (c : Char) : isHighUnit c.toNat = false := by
  have valid := toNat_valid c
  simp only [isHighUnit, Bool.and_eq_false_iff, decide_eq_false_iff_not]
  omega

/-- The number of a character does not close a pair of units. -/
theorem isLowUnit_toNat (c : Char) : isLowUnit c.toNat = false := by
  have valid := toNat_valid c
  simp only [isLowUnit, Bool.and_eq_false_iff, decide_eq_false_iff_not]
  omega

/-- A unit that opens a pair does not close one. -/
theorem isLowUnit_of_isHighUnit {unit : Nat} (h : isHighUnit unit = true) :
    isLowUnit unit = false := by
  simp only [isHighUnit, isLowUnit, Bool.and_eq_true, decide_eq_true_eq, Bool.and_eq_false_iff,
    decide_eq_false_iff_not] at *
  omega

/-- The two units of a large character. -/
theorem pairChar_eq {c : Char} (large : 0x10000 ≤ c.toNat) :
    isHighUnit (0xD800 + (c.toNat - 0x10000) / 0x400) = true ∧
      isLowUnit (0xDC00 + (c.toNat - 0x10000) % 0x400) = true ∧
      pairChar (0xD800 + (c.toNat - 0x10000) / 0x400) (0xDC00 + (c.toNat - 0x10000) % 0x400) =
        c := by
  have valid := toNat_valid c
  refine ⟨?_, ?_, ?_⟩
  · simp only [isHighUnit, Bool.and_eq_true, decide_eq_true_eq]
    omega
  · simp only [isLowUnit, Bool.and_eq_true, decide_eq_true_eq]
    omega
  · have number : (0xD800 + (c.toNat - 0x10000) / 0x400 - 0xD800) * 0x400 +
        (0xDC00 + (c.toNat - 0x10000) % 0x400 - 0xDC00) + 0x10000 = c.toNat := by omega
    rw [pairChar, number, Char.ofNat_toNat]

namespace Decoder

variable {ending : Ending} {rest : List Char}

/-- Four digits are read as their code unit. -/
theorem Gives.codeUnit {digits : List Char} {unit : Nat} (h : SpellsUnit digits unit) :
    codeUnit.Gives ending (digits ++ rest) (.ok unit) rest := by
  cases h with
  | digits ha hb hc hd =>
    obtain ⟨asciiA, valueA⟩ := ha.hexValue?_eq
    obtain ⟨asciiB, valueB⟩ := hb.hexValue?_eq
    obtain ⟨asciiC, valueC⟩ := hc.hexValue?_eq
    obtain ⟨asciiD, valueD⟩ := hd.hexValue?_eq
    refine .bind (.take asciiA) (.bind (.take asciiB) (.bind (.take asciiC)
      (.bind (.take asciiD) ?_)))
    simp only [codeUnit?, valueA, valueB, valueC, valueD]
    exact .pure _

/-- The unit of a character that is no half of a pair. -/
theorem Gives.numberedChar_unit {digits : List Char} {c : Char}
    (h : SpellsUnit digits c.toNat) :
    numberedChar.Gives ending (digits ++ rest) (.ok c) rest := by
  refine .bind (.codeUnit h) ?_
  simp only [isLowUnit_toNat, isHighUnit_toNat, Bool.false_eq_true, if_false, Char.ofNat_toNat]
  exact .pure c

/-- The two units of a large character. -/
theorem Gives.numberedChar_pair {high low : List Char} {c : Char} (large : 0x10000 ≤ c.toNat)
    (hhigh : SpellsUnit high (0xD800 + (c.toNat - 0x10000) / 0x400))
    (hlow : SpellsUnit low (0xDC00 + (c.toNat - 0x10000) % 0x400)) :
    numberedChar.Gives ending (high ++ '\\' :: 'u' :: (low ++ rest)) (.ok c) rest := by
  obtain ⟨opens, closes, same⟩ := pairChar_eq large
  have mark : (Decoder.word ['\\', 'u']).Gives ending (['\\', 'u'] ++ (low ++ rest)) (.ok ())
      (low ++ rest) := .word
  refine .bind (.codeUnit hhigh) ?_
  simp only [isLowUnit_of_isHighUnit opens, opens, Bool.false_eq_true, if_false, if_true]
  refine .bind mark (.bind (.codeUnit hlow) ?_)
  simp only [closes, if_true, same]
  exact .pure c

/-- The character of a short escape. -/
theorem escapedChar?_of_mem {mark c : Char} (h : (mark, c) ∈ shortEscapes) :
    IsAscii mark ∧ ascii mark ≠ ascii 'u' ∧ escapedChar? (ascii mark) = some c := by
  have each : ∀ entry ∈ shortEscapes, IsAscii entry.1 ∧ ascii entry.1 ≠ ascii 'u' ∧
      escapedChar? (ascii entry.1) = some entry.2 := by decide
  exact each (mark, c) h

/-- A short escape is read as its character, whether or not its meaning matters. -/
theorem Gives.escape_short {care : Care} {mark c : Char} (h : (mark, c) ∈ shortEscapes) :
    (escape care).Gives ending (mark :: rest) (.ok (String.utf8EncodeChar c)) rest := by
  obtain ⟨hmark, other, meant⟩ := escapedChar?_of_mem h
  refine .bind (.take hmark) ?_
  unfold escapeFrom
  rw [if_neg other, meant]
  exact .pure _

/-- An escape by number whose meaning matters. -/
theorem Gives.escape_numbered {text : List Char} {c : Char}
    (h : numberedChar.Gives ending text (.ok c) rest) :
    (Decoder.escape .meaning).Gives ending ('u' :: text) (.ok (String.utf8EncodeChar c)) rest := by
  refine .bind .take ?_
  unfold escapeFrom
  rw [if_pos rfl]
  exact .bind h (.pure _)

/-- An escape by number whose shape matters only. -/
theorem Gives.escape_unit {digits : List Char} {unit : Nat} (h : SpellsUnit digits unit) :
    (Decoder.escape .shape).Gives ending ('u' :: (digits ++ rest)) (.ok []) rest := by
  refine .bind .take ?_
  unfold escapeFrom
  rw [if_pos rfl]
  exact .bind (.codeUnit h) (.pure _)

/-! ## The bytes of a literal -/

section Bytes

variable {care : Care} {meant : List UInt8}

/-- The closing quote ends a literal. -/
theorem literalBytes_quote (rest : List UInt8) :
    literalBytes care ending meant (ascii '"' :: rest) = .ok (meant.reverse, rest) := by
  rw [literalBytes, if_pos rfl]

/-- An escape in a literal counts for the bytes that it denotes. -/
theorem literalBytes_escape {bytes later unescaped : List UInt8}
    (h : escape care ending bytes = .ok (unescaped, later)) :
    literalBytes care ending meant (ascii '\\' :: bytes) =
      literalBytes care ending (unescaped.reverse ++ meant) later := by
  rw [literalBytes, if_neg (by decide), if_pos rfl]
  split
  next fault stopped => cases h.symm.trans stopped
  next found left taken =>
    cases h.symm.trans taken
    rfl

/-- A fault of an escape is the fault of its literal. -/
theorem literalBytes_fault {bytes : List UInt8} {fault : Fault}
    (h : escape care ending bytes = .error fault) :
    literalBytes care ending meant (ascii '\\' :: bytes) = .error fault := by
  rw [literalBytes, if_neg (by decide), if_pos rfl]
  split
  next found stopped => exact stopped.symm.trans h
  next found left taken => cases h.symm.trans taken

/-- A byte that stands for itself in a literal. -/
def IsPlainByte (b : UInt8) : Prop :=
  b ≠ ascii '"' ∧ b ≠ ascii '\\' ∧ ¬b < ascii ' '

/-- Bytes that stand for themselves are passed over. -/
theorem literalBytes_plain {run : List UInt8} (h : ∀ b ∈ run, IsPlainByte b)
    (rest : List UInt8) :
    literalBytes care ending meant (run ++ rest) =
      literalBytes care ending (run.reverse ++ meant) rest := by
  induction run generalizing meant with
  | nil => rfl
  | cons b run ih =>
    obtain ⟨noQuote, noEscape, noControl⟩ := h b (by simp)
    rw [List.cons_append, literalBytes, if_neg noQuote, if_neg noEscape, if_neg noControl,
      ih fun d hd => h d (by simp [hd]), List.reverse_cons, List.append_assoc]
    rfl

/-- A byte stands for itself if it is none of the ASCII characters that do not. -/
theorem isPlainByte_ofNat {n : Nat} (lower : 32 ≤ n) (upper : n < 256) (noQuote : n ≠ 34)
    (noEscape : n ≠ 92) : IsPlainByte (UInt8.ofNat n) := by
  have value : (UInt8.ofNat n).toNat = n := Nat.mod_eq_of_lt upper
  refine ⟨fun same => ?_, fun same => ?_, fun less => ?_⟩
  · exact noQuote (by rw [← value, same]; rfl)
  · exact noEscape (by rw [← value, same]; rfl)
  · rw [UInt8.lt_iff_toNat_lt, value] at less
    exact absurd less (Nat.not_lt.mpr lower)

/-- The bytes of a plain character stand for themselves: it is one byte, or all its bytes lie
outside ASCII. -/
theorem isPlainByte_of_isPlain {c : Char} (h : IsPlain c) :
    ∀ b ∈ String.utf8EncodeChar c, IsPlainByte b := by
  obtain ⟨lower, noQuote, noEscape⟩ := h
  have least : 32 ≤ c.val.toNat := lower
  have quote : c.val.toNat ≠ 34 := fun same => noQuote (Char.toNat_inj.mp same)
  have backslash : c.val.toNat ≠ 92 := fun same => noEscape (Char.toNat_inj.mp same)
  intro b hb
  unfold String.utf8EncodeChar at hb
  dsimp only at hb
  split_ifs at hb <;> simp only [List.mem_cons, List.not_mem_nil, or_false] at hb
  · subst hb
    exact isPlainByte_ofNat least (by omega) quote backslash
  · obtain rfl | rfl := hb <;> exact isPlainByte_ofNat (by omega) (by omega) (by omega) (by omega)
  · obtain rfl | rfl | rfl := hb <;>
      exact isPlainByte_ofNat (by omega) (by omega) (by omega) (by omega)
  · obtain rfl | rfl | rfl | rfl := hb <;>
      exact isPlainByte_ofNat (by omega) (by omega) (by omega) (by omega)

/-- A character in a literal counts for its bytes, however it is spelled. -/
theorem literalBytes_spelling {spelling : List Char} {c : Char} (h : SpellsChar spelling c)
    (rest : List Char) :
    literalBytes .meaning ending meant (utf8 (spelling ++ rest)) =
      literalBytes .meaning ending ((String.utf8EncodeChar c).reverse ++ meant) (utf8 rest) := by
  -- Every escape starts with a backslash and goes on as `escape` reads it.
  have escaped {text : List Char}
      (taken : (escape .meaning).Gives ending text (.ok (String.utf8EncodeChar c)) rest) :
      literalBytes .meaning ending meant (utf8 ('\\' :: text)) =
        literalBytes .meaning ending ((String.utf8EncodeChar c).reverse ++ meant)
          (utf8 rest) := by
    have hback : IsAscii '\\' := by decide
    rw [hback.utf8_cons]
    exact literalBytes_escape taken
  cases h with
  | plain h =>
    rw [List.singleton_append, utf8_cons]
    exact literalBytes_plain (isPlainByte_of_isPlain h) (utf8 rest)
  | short h => exact escaped (.escape_short h)
  | unit h => exact escaped (.escape_numbered (.numberedChar_unit h))
  | pair large hhigh hlow =>
    simp only [List.cons_append, List.append_assoc]
    exact escaped (.escape_numbered (.numberedChar_pair large hhigh hlow))

/-- A literal that denotes a text is read as the bytes of that text. -/
theorem literalBytes_denotes {body text : List Char} (h : Denotes body text) (rest : List Char) :
    literalBytes .meaning ending meant (utf8 (body ++ '"' :: rest)) =
      .ok (meant.reverse ++ utf8 text, utf8 rest) := by
  induction h generalizing meant with
  | nil =>
    have hquote : IsAscii '"' := by decide
    rw [List.nil_append, hquote.utf8_cons, literalBytes_quote, utf8_nil, List.append_nil]
  | cons head tail ih =>
    rw [List.append_assoc, literalBytes_spelling head, ih, utf8_cons, List.reverse_append,
      List.reverse_reverse, List.append_assoc]

/-- A piece of a literal is passed over. -/
theorem literalBytes_piece {piece : List Char} (h : IsPiece piece) (rest : List Char) :
    ∃ found, literalBytes .shape ending meant (utf8 (piece ++ rest)) =
      literalBytes .shape ending found (utf8 rest) := by
  have hback : IsAscii '\\' := by decide
  cases h with
  | plain h =>
    rw [List.singleton_append, utf8_cons]
    exact ⟨_, literalBytes_plain (isPlainByte_of_isPlain h) (utf8 rest)⟩
  | @short mark c h =>
    show ∃ found, literalBytes .shape ending meant (utf8 ('\\' :: mark :: rest)) = _
    rw [hback.utf8_cons]
    exact ⟨_, literalBytes_escape (Gives.escape_short h)⟩
  | @unit digits unit h =>
    show ∃ found, literalBytes .shape ending meant (utf8 ('\\' :: 'u' :: (digits ++ rest))) = _
    rw [hback.utf8_cons]
    exact ⟨_, literalBytes_escape (Gives.escape_unit h)⟩

/-- A literal of the right shape is passed over. -/
theorem literalBytes_body {body : List Char} (h : IsBody body) (rest : List Char) :
    ∃ found, literalBytes .shape ending meant (utf8 (body ++ '"' :: rest)) =
      .ok (found, utf8 rest) := by
  induction h generalizing meant with
  | nil =>
    have hquote : IsAscii '"' := by decide
    refine ⟨meant.reverse, ?_⟩
    rw [List.nil_append, hquote.utf8_cons, literalBytes_quote]
  | @cons piece body head tail ih =>
    rw [List.append_assoc]
    obtain ⟨between, step⟩ := literalBytes_piece head (body ++ '"' :: rest)
    rw [step]
    exact ih

end Bytes

/-! ## Literals -/

/-- The bytes of a text are those of a string. -/
theorem fromUTF8?_utf8 (text : List Char) :
    String.fromUTF8? (utf8 text).toByteArray = some (String.ofList text) :=
  dif_pos ByteArray.isValidUTF8_utf8Encode

/-- A literal is read as the text that it denotes. -/
theorem Gives.literalText {body : List Char} {text : String} (h : Denotes body text.toList) :
    literalText.Gives ending (body ++ '"' :: rest) (.ok text) rest := by
  have bytes : Gives (fun ending => literalBytes .meaning ending []) ending (body ++ '"' :: rest)
      (.ok (utf8 text.toList)) rest := literalBytes_denotes h rest
  refine .bind bytes ?_
  simp only [fromUTF8?_utf8, String.ofList_toList]
  exact .pure _

/-- A literal of the right shape is passed over. -/
theorem Gives.skipLiteral {body : List Char} (h : IsBody body) :
    skipLiteral.Gives ending (body ++ '"' :: rest) (.ok ()) rest := by
  obtain ⟨found, passed⟩ := literalBytes_body h rest
  have bytes : Gives (fun ending => literalBytes .shape ending []) ending (body ++ '"' :: rest)
      (.ok found) rest := passed
  exact .bind bytes (.pure ())

end Decoder

end LineLexer.Json
