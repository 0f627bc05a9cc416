import LineLexer.Proofs.Json.Reading
import LineLexer.Text.Offsets

/-!
# Words and numbers in bytes

The length of a word or a number may be measured on the bytes of the line, without taking them
together to characters. It is the same length, `wordLength_utf8` and `digitsLength_utf8`: letters and
digits have one byte each, and no byte of any other character is that of a letter or a digit.
-/

namespace LineLexer

open Json (ascii utf8 IsAscii)

/-! ## Classes of bytes -/

namespace Text

/-- A byte is that of a letter. -/
def isLetterByte (b : UInt8) : Bool :=
  (ascii 'A' ≤ b && b ≤ ascii 'Z') || (ascii 'a' ≤ b && b ≤ ascii 'z')

/-- A byte is that of a digit. -/
def isDigitByte (b : UInt8) : Bool :=
  ascii '0' ≤ b && b ≤ ascii '9'

/-- The number of bytes of the word that some bytes start with, or zero. -/
def wordLength : List UInt8 → Nat
  | [] => 0
  | b :: rest =>
    if isLetterByte b then 1 + (rest.takeWhile fun d => isLetterByte d || isDigitByte d).length
    else 0

/-- The number of bytes of the digits that some bytes start with. -/
def digitsLength (bytes : List UInt8) : Nat :=
  (bytes.takeWhile isDigitByte).length

/-- A class of bytes holds the bytes of a class of ASCII characters and no others. -/
structure IsByteClass (p : Char → Bool) (q : UInt8 → Bool) : Prop where
  isAscii {c : Char} (h : p c = true) : IsAscii c
  apply_ascii {c : Char} (h : IsAscii c) : q (ascii c) = p c
  lt_of_mem {b : UInt8} (h : q b = true) : b.toNat < 128

theorem toNat_ascii {c : Char} (h : IsAscii c) : (ascii c).toNat = c.toNat := by
  have hlt : c.toNat < 128 := h
  show c.toNat % 256 = c.toNat
  omega

theorem IsByteClass.range {first last : Char} (hfirst : IsAscii first) (hlast : IsAscii last) :
    IsByteClass (fun c => first ≤ c && c ≤ last) fun b => ascii first ≤ b && b ≤ ascii last where
  isAscii {c} h := by
    simp only [Bool.and_eq_true, decide_eq_true_eq] at h
    have hle : c.toNat ≤ last.toNat := h.2
    exact Nat.lt_of_le_of_lt hle hlast
  apply_ascii {c} h := by
    have hlower : ascii first ≤ ascii c ↔ first ≤ c := by
      rw [UInt8.le_iff_toNat_le, toNat_ascii hfirst, toNat_ascii h]
      rfl
    have hupper : ascii c ≤ ascii last ↔ c ≤ last := by
      rw [UInt8.le_iff_toNat_le, toNat_ascii hlast, toNat_ascii h]
      rfl
    simp only [hlower, hupper]
  lt_of_mem {b} h := by
    simp only [Bool.and_eq_true, decide_eq_true_eq, UInt8.le_iff_toNat_le,
      toNat_ascii hlast] at h
    exact Nat.lt_of_le_of_lt h.2 hlast

theorem IsByteClass.or {p p' : Char → Bool} {q q' : UInt8 → Bool} (h : IsByteClass p q)
    (h' : IsByteClass p' q') : IsByteClass (fun c => p c || p' c) fun b => q b || q' b where
  isAscii hc := (Bool.or_eq_true_iff.mp hc).elim h.isAscii h'.isAscii
  apply_ascii hc := by rw [h.apply_ascii hc, h'.apply_ascii hc]
  lt_of_mem hb := (Bool.or_eq_true_iff.mp hb).elim h.lt_of_mem h'.lt_of_mem

theorem isByteClass_letter : IsByteClass Char.isAlpha isLetterByte := by
  have hupper : Char.isUpper = fun c => decide ('A' ≤ c) && decide (c ≤ 'Z') := by
    funext c
    show decide ('A' ≤ c ∧ c ≤ 'Z') = _
    exact Bool.decide_and _ _
  have upper := IsByteClass.range (show IsAscii 'A' by decide) (show IsAscii 'Z' by decide)
  rw [← hupper] at upper
  exact upper.or (.range (show IsAscii 'a' by decide) (show IsAscii 'z' by decide))

theorem isByteClass_digit : IsByteClass Char.isDigit isDigitByte :=
  .range (show IsAscii '0' by decide) (show IsAscii '9' by decide)

theorem isByteClass_alphanum :
    IsByteClass Char.isAlphanum fun b => isLetterByte b || isDigitByte b :=
  isByteClass_letter.or isByteClass_digit

/-- The size of some characters is the number of their bytes. -/
theorem length_utf8 (chars : List Char) : (utf8 chars).length = bytes chars := by
  induction chars with
  | nil => rfl
  | cons c rest ih =>
      rw [Json.utf8_cons, List.length_append, String.length_utf8EncodeChar, ih, bytes]

/-- A character outside ASCII starts with a byte outside ASCII. -/
theorem exists_encode_of_not_isAscii {c : Char} (h : ¬ IsAscii c) :
    ∃ b more, String.utf8EncodeChar c = b :: more ∧ 128 ≤ b.toNat := by
  have hlarge : ¬ c.val.toNat < 128 := h
  unfold String.utf8EncodeChar
  dsimp only
  split_ifs
  · omega
  all_goals
    refine ⟨_, _, rfl, ?_⟩
    rw [UInt8.toNat_ofNat']
    omega

section Runs

variable {p : Char → Bool} {q : UInt8 → Bool}

/-- The first byte of some characters is in a class of bytes if the first character is in the class
of characters. -/
theorem IsByteClass.exists_head (h : IsByteClass p q) (c : Char) (rest : List Char) :
    ∃ b more, utf8 (c :: rest) = b :: more ∧ q b = p c ∧ (IsAscii c → more = utf8 rest) := by
  by_cases hc : IsAscii c
  · exact ⟨ascii c, utf8 rest, hc.utf8_cons rest, h.apply_ascii hc, fun _ => rfl⟩
  · obtain ⟨b, more, hencode, hlarge⟩ := exists_encode_of_not_isAscii hc
    have hbyte : q b = false := by
      rw [← Bool.not_eq_true]
      exact fun hb => Nat.not_lt.mpr hlarge (h.lt_of_mem hb)
    have hchar : p c = false := by
      rw [← Bool.not_eq_true]
      exact fun hp => hc (h.isAscii hp)
    refine ⟨b, more ++ utf8 rest, ?_, hbyte.trans hchar.symm, fun hascii => absurd hascii hc⟩
    rw [Json.utf8_cons, hencode]
    rfl

/-- A run of bytes of a class is as long as the run of characters. -/
theorem IsByteClass.length_takeWhile (h : IsByteClass p q) (chars : List Char) :
    ((utf8 chars).takeWhile q).length = (chars.takeWhile p).length := by
  induction chars with
  | nil => rfl
  | cons c rest ih =>
      obtain ⟨b, more, hbytes, hhead, hmore⟩ := h.exists_head c rest
      rw [hbytes]
      cases hp : p c with
      | false =>
          rw [List.takeWhile_cons_of_neg (by simp [hhead, hp]),
            List.takeWhile_cons_of_neg (by simp [hp])]
          rfl
      | true =>
          rw [List.takeWhile_cons_of_pos (by rw [hhead, hp]), List.takeWhile_cons_of_pos hp,
            hmore (h.isAscii hp), List.length_cons, List.length_cons, ih]

/-- A run of characters of a class takes one byte for each of them. -/
theorem IsByteClass.bytes_takeWhile (h : IsByteClass p q) (chars : List Char) :
    bytes (chars.takeWhile p) = (chars.takeWhile p).length := by
  have hrun : ∀ c ∈ chars.takeWhile p, IsAscii c := fun c hc =>
    h.isAscii (List.all_eq_true.mp List.all_takeWhile c hc)
  rw [← length_utf8, Json.utf8_eq_map hrun, List.length_map]

end Runs

/-- The length of a word in bytes is its length in characters. -/
theorem wordLength_utf8 (c : Char) (rest : List Char) :
    wordLength (utf8 (c :: rest)) =
      if c.isAlpha then (c :: rest.takeWhile Char.isAlphanum).length else 0 := by
  obtain ⟨b, more, hbytes, hhead, hmore⟩ := isByteClass_letter.exists_head c rest
  rw [hbytes, wordLength, hhead]
  by_cases halpha : c.isAlpha = true
  · rw [if_pos halpha, if_pos halpha, hmore (isByteClass_letter.isAscii halpha),
      isByteClass_alphanum.length_takeWhile, List.length_cons, Nat.add_comm]
  · rw [if_neg halpha, if_neg halpha]

/-- A word has as many bytes as characters. -/
theorem bytes_word {c : Char} (halpha : c.isAlpha = true) (rest : List Char) :
    bytes (c :: rest.takeWhile Char.isAlphanum) = (c :: rest.takeWhile Char.isAlphanum).length := by
  have halphanum : c.isAlphanum = true := by simp [Char.isAlphanum, halpha]
  have hrun := isByteClass_alphanum.bytes_takeWhile (c :: rest)
  rwa [List.takeWhile_cons_of_pos halphanum] at hrun

/-- A word can be cut off behind its length in bytes. -/
theorem cut?_wordLength {c : Char} (halpha : c.isAlpha = true) (rest : List Char) :
    cut? (wordLength (utf8 (c :: rest))) (c :: rest) =
      some (c :: rest.takeWhile Char.isAlphanum, rest.dropWhile Char.isAlphanum) := by
  have hcut := cut?_bytes (c :: rest.takeWhile Char.isAlphanum) (rest.dropWhile Char.isAlphanum)
  rw [bytes_word halpha, List.cons_append, List.takeWhile_append_dropWhile] at hcut
  rwa [wordLength_utf8, if_pos halpha]

/-- The length of a number in bytes is its length in characters. -/
theorem digitsLength_utf8 (c : Char) (rest : List Char) :
    digitsLength (utf8 (c :: rest)) =
      if c.isDigit then (c :: rest.takeWhile Char.isDigit).length else 0 := by
  rw [digitsLength, isByteClass_digit.length_takeWhile, List.takeWhile_cons]
  split <;> rfl

/-- A number has as many bytes as characters. -/
theorem bytes_number {c : Char} (hdigit : c.isDigit = true) (rest : List Char) :
    bytes (c :: rest.takeWhile Char.isDigit) = (c :: rest.takeWhile Char.isDigit).length := by
  have hrun := isByteClass_digit.bytes_takeWhile (c :: rest)
  rwa [List.takeWhile_cons_of_pos hdigit] at hrun

end Text

end LineLexer
