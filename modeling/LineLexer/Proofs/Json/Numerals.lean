import LineLexer.Proofs.Json.Literals

/-!
# Reading numerals

A numeral is followed through its parts: sign, whole part, fraction and exponent. Whether it is
taken depends on the numeral alone, not on what stands behind it. A natural number of 64 bits in
decimal digits is read as that number.
-/

namespace LineLexer.Json.Decoder

variable {α β : Type} {ending : Ending} {text rest run : List Char} {c : Char}

/-- Looking ahead for one of more characters. -/
theorem Ahead.mono {chars more : List Char} (h : Ahead chars ending rest)
    (sub : ∀ c ∈ chars, c ∈ more) : Ahead more ending rest := by
  cases h with
  | nil => exact .nil
  | cons rest h => exact .cons rest (sub _ h)

/-- Looking ahead at a run of characters that is not empty. -/
theorem Ahead.append {chars front : List Char} (h : ∀ c ∈ front.head?, c ∈ chars)
    (later : front = [] → Ahead chars ending rest) : Ahead chars ending (front ++ rest) := by
  cases front with
  | nil => exact later rfl
  | cons c front => exact .cons _ (h c rfl)

/-- A value is changed behind a decoder. -/
theorem Gives.map {d : Decoder α} {value : α} (f : α → β)
    (h : d.Gives ending text (.ok value) rest) : (f <$> d).Gives ending text (.ok (f value)) rest :=
  .bind h (.pure _)

/-- Two ways to read a part go on in the same way. -/
theorem ite_bind (p : Prop) [Decidable p] (first other : Decoder α) (second : α → Decoder β) :
    (if p then first >>= second else other >>= second) =
      ((if p then first else other) >>= second) := by
  split <;> rfl

/-! ## Runs of digits -/

/-- The value of a decimal digit. -/
def digitValue (c : Char) : Nat :=
  c.toNat - '0'.toNat

/-- A decimal digit is one byte, from which its value is read. -/
theorem isDigit_ascii (h : c.isDigit = true) :
    IsAscii c ∧ isDigit (ascii c) = true ∧ (ascii c).toNat - '0'.toNat = digitValue c := by
  have each : ∀ c ∈ digitChars, IsAscii c ∧ isDigit (ascii c) = true ∧
      (ascii c).toNat - '0'.toNat = digitValue c := by decide
  exact each c (mem_digitChars h)

/-- The characters that may stand behind a run of digits. -/
def behindDigits : List Char :=
  ['.', 'e', 'E'] ++ endChars

/-- No digit stands behind a run of digits. -/
theorem head_behindDigits (h : Ahead behindDigits ending rest) :
    ∀ c ∈ rest.head?, IsAscii c ∧ isDigit (ascii c) = false := by
  have each : ∀ c ∈ behindDigits, IsAscii c ∧ isDigit (ascii c) = false := by decide
  cases h with
  | nil => simp
  | cons rest h => simpa using each _ h

/-- A run of digits is taken as the values of the digits. -/
theorem Gives.digits (hrun : ∀ c ∈ run, c.isDigit = true) (hrest : Ahead behindDigits ending rest) :
    digits.Gives ending (run ++ rest) (.ok (run.map digitValue)) rest := by
  have taken : (Decoder.takeWhile isDigit).Gives ending (run ++ rest) (.ok (run.map ascii)) rest :=
    .takeWhile (fun c hc => ⟨(isDigit_ascii (hrun c hc)).1, (isDigit_ascii (hrun c hc)).2.1⟩)
      (head_behindDigits hrest)
  have values : (run.map ascii).map (fun b => b.toNat - '0'.toNat) = run.map digitValue := by
    rw [List.map_map]
    exact List.map_congr_left fun c hc => (isDigit_ascii (hrun c hc)).2.2
  rw [← values]
  exact .bind taken (.pure _)

/-- A run of at least one digit is taken. -/
theorem Gives.someDigits {cut : Fault} (hrun : IsDigits run)
    (hrest : Ahead behindDigits ending rest) :
    (someDigits cut).Gives ending (run ++ rest) (.ok (run.map digitValue)) rest := by
  obtain ⟨nonempty, each⟩ := hrun
  cases run with
  | nil => exact absurd rfl nonempty
  | cons c run =>
    obtain ⟨hc, digit, _⟩ := isDigit_ascii (each c (by simp))
    refine .bind (.peek hc) ?_
    simp only [digit, if_true]
    exact .digits each hrest

/-- The whole part of a numeral is taken. -/
theorem Gives.wholePart {cut : Fault} (hrun : IsWhole run)
    (hrest : Ahead behindDigits ending rest) :
    (wholePart cut).Gives ending (run ++ rest) (.ok (run.map digitValue)) rest := by
  obtain ⟨⟨nonempty, each⟩, noZero⟩ := hrun
  cases run with
  | nil => exact absurd rfl nonempty
  | cons c run =>
    obtain ⟨hc, digit, _⟩ := isDigit_ascii (each c (by simp))
    refine .bind (.peek hc) ?_
    by_cases zero : c = '0'
    · subst zero
      obtain rfl : run = [] := List.cons.inj (noZero rfl) |>.2
      dsimp only
      rw [if_pos rfl]
      refine .bind (.skip hc) ?_
      have behind := head_behindDigits hrest
      cases hrest with
      | nil => exact .bind .peek_nil (.pure _)
      | @cons _ d tail _ =>
        obtain ⟨hd, other⟩ := behind d rfl
        refine .bind (.peek hd) ?_
        simp only [other, Bool.false_eq_true, if_false]
        exact .pure _
    · have zeroByte : ∀ c ∈ digitChars, ascii c = ascii '0' → c = '0' := by decide
      have noZeroByte : ascii c ≠ ascii '0' := fun same =>
        zero (zeroByte c (mem_digitChars (each c (by simp))) same)
      dsimp only
      rw [if_neg noZeroByte, if_pos digit]
      exact .digits each hrest

/-! ## Marks -/

/-- One of the wanted characters is taken. -/
theorem Gives.takeOneOf_some {chars : List Char} (hc : IsAscii c) (wanted : c ∈ chars) :
    (takeOneOf chars).Gives ending (c :: rest) (.ok (some (ascii c))) rest := by
  have found : chars.any (ascii · == ascii c) = true :=
    List.any_eq_true.mpr ⟨c, wanted, beq_self_eq_true _⟩
  refine .bind (.peek hc) ?_
  simp only [found, if_true]
  exact .bind (.skip hc) (.pure _)

/-- Another character is left. -/
theorem Gives.takeOneOf_none {chars ahead : List Char} (h : Ahead ahead ending rest)
    (others : ∀ c ∈ ahead, IsAscii c ∧ chars.any (ascii · == ascii c) = false) :
    (Decoder.takeOneOf chars).Gives ending rest (.ok none) rest := by
  cases h with
  | nil => exact .bind .peek_nil (.pure _)
  | cons rest h =>
    obtain ⟨hc, other⟩ := others _ h
    refine .bind (.peek hc) ?_
    simp only [other, Bool.false_eq_true, if_false]
    exact .pure _

/-- A sign that may be missing is taken. -/
theorem Gives.takeOneOf {chars ahead sign : List Char} (hsign : sign = [] ∨ ∃ c ∈ chars, sign = [c])
    (hchars : ∀ c ∈ chars, IsAscii c) (hrest : Ahead ahead ending rest)
    (others : ∀ c ∈ ahead, IsAscii c ∧ chars.any (ascii · == ascii c) = false) :
    (Decoder.takeOneOf chars).Gives ending (sign ++ rest) (.ok (sign.head?.map ascii)) rest := by
  obtain rfl | ⟨c, wanted, rfl⟩ := hsign
  · exact .takeOneOf_none hrest others
  · exact .takeOneOf_some (hchars c wanted) wanted

/-- One can look at what stands behind a numeral. -/
theorem Ends.peek (h : Ends ending rest) : ∃ found, peek.Gives ending rest (.ok found) rest := by
  have each : ∀ c ∈ endChars, IsAscii c := by decide
  cases h with
  | nil => exact ⟨_, .peek_nil⟩
  | cons rest h => exact ⟨_, .peek (each _ h)⟩

/-- Digits stand behind a sign. -/
theorem ahead_digits (h : IsDigits run) : Ahead digitChars ending (run ++ rest) :=
  .append (fun c hc => mem_digitChars (h.2 c (List.mem_of_head? hc))) fun empty => absurd empty h.1

/-! ## Numerals -/

/-- The decoder takes the text of a numeral, and does so in the same way whatever stands behind it.
If no meaning is asked for it takes it without a fault. -/
structure TakesNumeral (care : Care) (d : Decoder α) (text : List Char) (result : Except Fault α) :
    Prop where
  gives {ending : Ending} {rest : List Char} (hrest : Ends ending rest) :
    d.Gives ending (text ++ rest) result rest
  total : care = .shape → ∃ value, result = .ok value

/-- The exponent of a numeral is taken behind its mark. -/
theorem exists_exponentPart (care : Care) (isZero : Bool) {sign : List Char}
    (hsign : sign ∈ [[], ['+'], ['-']]) (hrun : IsDigits run) :
    ∃ result, ∀ cut, TakesNumeral care (exponentPart care cut isZero) (sign ++ run) result := by
  have signed : sign = [] ∨ ∃ c ∈ ['+', '-'], sign = [c] := by
    simpa [eq_comm] using hsign
  have parts {cut : Fault} {ending : Ending} {rest : List Char} (hrest : Ends ending rest) :
      (Decoder.takeOneOf ['+', '-']).Gives ending (sign ++ (run ++ rest))
          (.ok (sign.head?.map ascii)) (run ++ rest) ∧
        (someDigits cut).Gives ending (run ++ rest) (.ok (run.map digitValue)) rest :=
    ⟨.takeOneOf signed (by decide) (ahead_digits hrun) (by decide),
      .someDigits hrun (hrest.mono fun c hc => List.mem_append_right _ hc)⟩
  set magnitude := (run.map digitValue).foldl (fun number digit => number * 10 + digit) 0
    with hmagnitude
  by_cases tooGreat : care = .meaning ∧ greatestExponent < magnitude ∧
      (sign.head?.map ascii == some (ascii '-')) = false ∧ isZero = false
  · refine ⟨.error .malformed, fun cut => ⟨fun {ending rest} hrest => ?_, fun shape => ?_⟩⟩
    · obtain ⟨first, second⟩ := parts hrest
      rw [List.append_assoc]
      refine .bind first (.bind second ?_)
      rw [← hmagnitude, if_pos tooGreat]
      exact .fail
    · rw [shape] at tooGreat
      cases tooGreat.1
  · refine ⟨.ok (if sign.head?.map ascii == some (ascii '-') then -(magnitude : Int)
      else magnitude), fun cut => ⟨fun {ending rest} hrest => ?_, fun _ => ⟨_, rfl⟩⟩⟩
    obtain ⟨first, second⟩ := parts hrest
    obtain ⟨found, behind⟩ := hrest.peek
    rw [List.append_assoc]
    refine .bind first (.bind second ?_)
    rw [← hmagnitude, if_neg tooGreat]
    exact .bind behind (.pure _)

/-- The characters that may stand behind a fraction. -/
def behindFraction : List Char :=
  ['e', 'E'] ++ endChars

/-- A fraction that is there starts with its point. -/
theorem head_fraction (h : IsFraction text) : ∀ c ∈ text.head?, c ∈ behindDigits := by
  cases h with
  | none => simp
  | digits h => simp [behindDigits]

/-- An exponent that is there starts with its mark. -/
theorem head_exponent (h : IsExponent text) : ∀ c ∈ text.head?, c ∈ behindFraction := by
  cases h with
  | none => simp
  | digits hmark _ h =>
    intro c hc
    obtain rfl : _ = c := Option.some.inj hc
    exact List.mem_append_left _ hmark

/-- A fraction, which may be missing, is taken. -/
theorem exists_fraction (h : IsFraction text) :
    ∃ point fraction, ∀ {cut : Fault} {ending : Ending} {rest : List Char},
      Ahead behindFraction ending rest →
      ∃ middle, (takeOneOf ['.']).Gives ending (text ++ rest) (.ok point) middle ∧
        Gives (if point.isSome then some <$> someDigits cut else pure none) ending middle
          (.ok fraction) rest := by
  cases h with
  | none => exact ⟨none, none, fun hrest => ⟨_, .takeOneOf_none hrest (by decide), .pure none⟩⟩
  | @digits run h =>
    refine ⟨some (ascii '.'), some (run.map digitValue), fun {cut ending rest} hrest =>
      ⟨run ++ rest, ?_, ?_⟩⟩
    · exact .takeOneOf_some (by decide) (by decide)
    · exact .map some (.someDigits h (hrest.mono fun c hc => List.mem_append_right ['.'] hc))

/-- An exponent, which may be missing, is taken. -/
theorem exists_exponent (care : Care) (isZero : Bool) (h : IsExponent text) :
    ∃ mark result, (care = .shape → ∃ value, result = .ok value) ∧
      ∀ {cut : Fault} {ending : Ending} {rest : List Char}, Ends ending rest →
        ∃ middle, (takeOneOf ['e', 'E']).Gives ending (text ++ rest) (.ok mark) middle ∧
          Gives (if mark.isSome then some <$> exponentPart care cut isZero else pure none) ending
            middle result rest := by
  cases h with
  | none =>
    exact ⟨none, .ok none, fun _ => ⟨_, rfl⟩, fun hrest =>
      ⟨_, .takeOneOf_none hrest (by decide), .pure none⟩⟩
  | @digits mark sign run hmark hsign h =>
    have hascii : ∀ c ∈ ['e', 'E'], IsAscii c := by decide
    obtain ⟨result, taken⟩ := exists_exponentPart care isZero hsign h
    refine ⟨some (ascii mark), result.map some, fun shape => ?_, fun {cut ending rest} hrest =>
      ⟨sign ++ run ++ rest, ?_, ?_⟩⟩
    · obtain ⟨value, rfl⟩ := (taken .malformed).total shape
      exact ⟨_, rfl⟩
    · exact .takeOneOf_some (hascii mark hmark) hmark
    · have part := (taken cut).gives hrest
      cases result with
      | ok value => exact .map some part
      | error fault => exact .stop part

/-- A numeral is taken. -/
theorem exists_numeral (care : Care) (h : IsNumeral text) :
    ∃ result, TakesNumeral care (numeral care) text result := by
  cases h with | @parts sign whole fraction exponent hsign hwhole hfraction hexponent
  have signed : sign = [] ∨ ∃ c ∈ ['-'], sign = [c] := by
    simpa [eq_comm] using hsign
  obtain ⟨point, digits, takesFraction⟩ := exists_fraction hfraction
  set isZero := (whole.map digitValue).all (· == 0) && (digits.getD []).all (· == 0) with hzero
  obtain ⟨mark, result, total, takesExponent⟩ := exists_exponent care isZero hexponent
  refine ⟨result.map fun exponent =>
    ⟨(sign.head?.map ascii).isSome, whole.map digitValue, digits, exponent⟩, ?_, ?_⟩
  · intro ending rest hrest
    have aheadExponent : Ahead behindFraction ending (exponent ++ rest) :=
      .append (head_exponent hexponent) fun _ => hrest.mono fun c hc => List.mem_append_right _ hc
    have aheadFraction : Ahead behindDigits ending (fraction ++ (exponent ++ rest)) :=
      .append (head_fraction hfraction) fun _ => aheadExponent.mono fun c hc =>
        List.mem_append_right ['.'] hc
    obtain ⟨behindPoint, hpoint, hdigits⟩ := takesFraction aheadExponent
    obtain ⟨behindMark, hmark, hresult⟩ := takesExponent hrest
    simp only [List.append_assoc]
    refine .bind (.takeOneOf signed (by decide) (ahead_digits hwhole.1) (by decide))
      (.bind (.wholePart hwhole aheadFraction) (.bind hpoint ?_))
    simp only [ite_bind]
    refine .bind hdigits (.bind hmark ?_)
    cases result with
    | ok value => exact .bind hresult (.pure _)
    | error fault => exact .stop hresult
  · intro shape
    obtain ⟨value, rfl⟩ := total shape
    exact ⟨_, rfl⟩

/-- A numeral of digits only is taken as its digits. -/
theorem Gives.numeral_digits {care : Care} (h : IsWhole run) (hrest : Ends ending rest) :
    (numeral care).Gives ending (run ++ rest) (.ok ⟨false, run.map digitValue, none, none⟩)
      rest := by
  have behind : Ahead behindDigits ending rest :=
    hrest.mono fun c hc => List.mem_append_right _ hc
  refine .bind (.takeOneOf_none (ahead_digits h.1) (by decide)) (.bind (.wholePart h behind)
    (.bind (.takeOneOf_none hrest (by decide)) ?_))
  simp only [ite_bind]
  exact .bind (.pure none) (.bind (.takeOneOf_none hrest (by decide)) (.pure _))

/-- What a numeral denotes depends on the numeral alone. -/
theorem exists_number (h : IsNumeral text) :
    ∃ result, TakesNumeral .meaning number text result := by
  obtain ⟨result, taken⟩ := exists_numeral .meaning h
  cases result with
  | error fault => exact ⟨.error fault, fun hrest => .stop (taken.gives hrest), nofun⟩
  | ok n =>
    cases found : n.number? with
    | none =>
      refine ⟨.error .malformed, fun hrest => .bind (taken.gives hrest) ?_, nofun⟩
      simp only [found]
      exact .fail
    | some value =>
      refine ⟨.ok value, fun hrest => .bind (taken.gives hrest) ?_, nofun⟩
      simp only [found]
      exact .pure value

/-! ## Natural numbers -/

/-- Digits behind a number do not make it smaller. -/
theorem le_ofDigitChars (run : List Char) (number : Nat) :
    number ≤ Nat.ofDigitChars 10 run number := by
  rw [Nat.ofDigitChars_eq_ofDigitChars_zero]
  have positive : 1 ≤ 10 ^ run.length := Nat.one_le_pow _ _ (by decide)
  calc number = 1 * number := (Nat.one_mul number).symm
    _ ≤ 10 ^ run.length * number := Nat.mul_le_mul_right number positive
    _ ≤ _ := Nat.le_add_right _ _

/-- All digits of a number that fits into 64 bits are kept. -/
theorem absorb_eq {number : Nat} (h : Nat.ofDigitChars 10 run number ≤ greatestWord) :
    absorb number (run.map digitValue) = (Nat.ofDigitChars 10 run number, []) := by
  induction run generalizing number with
  | nil => rfl
  | cons c run ih =>
    rw [Nat.ofDigitChars_cons, Nat.mul_comm 10 number] at h ⊢
    have fits : number * 10 + digitValue c ≤ greatestWord := Nat.le_trans (le_ofDigitChars run _) h
    rw [List.map_cons, absorb, if_pos fits]
    exact ih h

/-- The decimal digits of a number have no needless zero in front. -/
theorem isWhole_toDigits (n : Nat) : IsWhole (Nat.toDigits 10 n) := by
  have each {n : Nat} : ∀ c ∈ Nat.toDigits 10 n, c.isDigit = true :=
    fun c hc => Nat.isDigit_of_mem_toDigits (by decide) (by decide) hc
  induction n using Nat.strongRecOn with
  | _ n ih =>
    refine ⟨⟨Nat.toDigits_ne_nil, each⟩, fun zero => ?_⟩
    by_cases small : n < 10
    · rw [Nat.toDigits_of_lt_base small] at zero ⊢
      exact congrArg (fun c => [c]) (Option.some.inj zero)
    · -- The digit in front is that of the quotient, which would be zero.
      have large : 10 ≤ n := Nat.le_of_not_lt small
      have quotient : Nat.toDigits 10 (n / 10) = ['0'] := by
        rw [Nat.toDigits_of_base_le (by decide) large,
          List.head?_append_of_ne_nil _ Nat.toDigits_ne_nil] at zero
        exact (ih (n / 10) (by omega)).2 zero
      have value := Nat.ofDigitChars_ten_toDigits (n := n / 10)
      rw [quotient] at value
      have none : n / 10 = 0 := value.symm
      omega

/-- The decimal digits of a number that fits into 64 bits are read as that number. -/
theorem Gives.number_toDigits {n : Nat} (h : n ≤ greatestWord) (hrest : Ends ending rest) :
    number.Gives ending (Nat.toDigits 10 n ++ rest) (.ok (.natural n)) rest := by
  have value : Nat.ofDigitChars 10 (Nat.toDigits 10 n) 0 = n := Nat.ofDigitChars_ten_toDigits
  have kept : absorb 0 ((Nat.toDigits 10 n).map digitValue) = (n, []) := by
    rw [absorb_eq (by rwa [value]), value]
  refine .bind (.numeral_digits (isWhole_toDigits n) hrest) ?_
  have found : Numeral.number? ⟨false, (Nat.toDigits 10 n).map digitValue, none, none⟩ =
      some (.natural n) := by
    simp [Numeral.number?, Numeral.isLong, Numeral.significand, kept, absorb]
  simp only [found]
  exact .pure _

end LineLexer.Json.Decoder
