import Mathlib.Data.List.Forall2

/-!
# The grammar of documents

Which texts are values of a document, without regard to any decoder. A value is a word, a numeral,
a string literal, a list or an object. Blanks may stand around every value and every punctuation
mark, and nowhere else. Texts are lists of characters.
-/

namespace LineLexer.Json

/-- Whether all characters of a list have a property is seen from each of them, not from all
characters that there are. -/
scoped instance (priority := high) decidableForallMem {p : Char → Prop} [DecidablePred p]
    (chars : List Char) : Decidable (∀ c ∈ chars, p c) :=
  List.decidableBAll p chars

/-! ## Blanks -/

/-- The characters that may stand between the parts of a document. -/
def blankChars : List Char :=
  [' ', '\n', '\t', '\r']

/-- A run of blanks. -/
def Blank (text : List Char) : Prop :=
  ∀ c ∈ text, c ∈ blankChars

/-- No character at all is a run of blanks. -/
theorem Blank.nil : Blank [] := by
  simp [Blank]

/-- Two runs of blanks make one. -/
theorem Blank.append {front back : List Char} (hfront : Blank front) (hback : Blank back) :
    Blank (front ++ back) := by
  intro c hc
  rcases List.mem_append.mp hc with h | h
  · exact hfront c h
  · exact hback c h

/-! ## String literals -/

/-- A hexadecimal digit, small or capital, and its value. -/
def IsHexDigit (c : Char) (value : Nat) : Prop :=
  value < 16 ∧ (c = Nat.digitChar value ∨ c = (Nat.digitChar value).toUpper)

/-- Four hexadecimal digits and the sixteen-bit code unit that they write. -/
inductive SpellsUnit : List Char → Nat → Prop where
  | digits {a b c d : Char} {i j k l : Nat} (ha : IsHexDigit a i) (hb : IsHexDigit b j)
      (hc : IsHexDigit c k) (hd : IsHexDigit d l) :
      SpellsUnit [a, b, c, d] (((i * 16 + j) * 16 + k) * 16 + l)

/-- The characters behind a backslash that stand for a character by themselves. -/
def shortEscapes : List (Char × Char) :=
  [('"', '"'), ('\\', '\\'), ('/', '/'), ('b', '\x08'), ('f', '\x0c'), ('n', '\n'), ('r', '\r'),
    ('t', '\t')]

/-- A character that may stand in a literal as itself. -/
def IsPlain (c : Char) : Prop :=
  ' ' ≤ c ∧ c ≠ '"' ∧ c ≠ '\\'

/-- The ways to write a character in a literal: as itself, by a short escape, or by its one or two
code units. -/
inductive SpellsChar : List Char → Char → Prop where
  | plain {c : Char} (h : IsPlain c) : SpellsChar [c] c
  | short {mark c : Char} (h : (mark, c) ∈ shortEscapes) : SpellsChar ['\\', mark] c
  | unit {digits : List Char} {c : Char} (h : SpellsUnit digits c.toNat) :
      SpellsChar ('\\' :: 'u' :: digits) c
  | pair {high low : List Char} {c : Char} (large : 0x10000 ≤ c.toNat)
      (hhigh : SpellsUnit high (0xD800 + (c.toNat - 0x10000) / 0x400))
      (hlow : SpellsUnit low (0xDC00 + (c.toNat - 0x10000) % 0x400)) :
      SpellsChar ('\\' :: 'u' :: (high ++ '\\' :: 'u' :: low)) c

/-- What stands between the quotes of a literal, and the text that it denotes. -/
inductive Denotes : List Char → List Char → Prop where
  | nil : Denotes [] []
  | cons {spelling body text : List Char} {c : Char} (head : SpellsChar spelling c)
      (tail : Denotes body text) : Denotes (spelling ++ body) (c :: text)

/-- A piece of a literal that has the right shape. An escape may write any code unit, also one that
is not a character. -/
inductive IsPiece : List Char → Prop where
  | plain {c : Char} (h : IsPlain c) : IsPiece [c]
  | short {mark c : Char} (h : (mark, c) ∈ shortEscapes) : IsPiece ['\\', mark]
  | unit {digits : List Char} {unit : Nat} (h : SpellsUnit digits unit) :
      IsPiece ('\\' :: 'u' :: digits)

/-- What may stand between the quotes of a literal, whether or not it denotes a text. -/
inductive IsBody : List Char → Prop where
  | nil : IsBody []
  | cons {piece body : List Char} (head : IsPiece piece) (tail : IsBody body) :
      IsBody (piece ++ body)

/-- What stands between the quotes, in its quotes. -/
def literal (body : List Char) : List Char :=
  '"' :: (body ++ ['"'])

/-- A literal and what stands behind it. -/
theorem literal_append (body rest : List Char) :
    literal body ++ rest = '"' :: (body ++ '"' :: rest) := by
  simp [literal]

/-- Two bodies of literals make one. -/
theorem IsBody.append {front back : List Char} (hfront : IsBody front) (hback : IsBody back) :
    IsBody (front ++ back) := by
  induction hfront with
  | nil => exact hback
  | cons head _ ih =>
    rw [List.append_assoc]
    exact .cons head ih

/-- A spelling of a character has the shape of a body. -/
theorem SpellsChar.isBody {spelling : List Char} {c : Char} (h : SpellsChar spelling c) :
    IsBody spelling := by
  have single {piece : List Char} (hp : IsPiece piece) : IsBody piece := by
    simpa using IsBody.cons hp .nil
  cases h with
  | plain h => exact single (.plain h)
  | short h => exact single (.short h)
  | unit h => exact single (.unit h)
  | pair _ hhigh hlow => exact (single (.unit hhigh)).append (single (.unit hlow))

/-- What denotes a text has the shape of a body. -/
theorem Denotes.isBody {body text : List Char} (h : Denotes body text) : IsBody body := by
  induction h with
  | nil => exact .nil
  | cons head _ ih => exact head.isBody.append ih

/-! ## Numerals -/

/-- The decimal digits. -/
def digitChars : List Char :=
  ['0', '1', '2', '3', '4', '5', '6', '7', '8', '9']

/-- A decimal digit is one of ten characters. -/
theorem mem_digitChars {c : Char} (h : c.isDigit = true) : c ∈ digitChars := by
  have small : ∀ n < 58, 48 ≤ n → Char.ofNat n ∈ digitChars := by decide
  simp only [Char.isDigit, Bool.and_eq_true, decide_eq_true_eq, ge_iff_le,
    UInt32.le_iff_toNat_le] at h
  have lower : 48 ≤ c.toNat := h.1
  have upper : c.toNat ≤ 57 := h.2
  have same := small c.toNat (Nat.lt_succ_of_le upper) lower
  rwa [Char.ofNat_toNat] at same

/-- A run of at least one decimal digit. -/
def IsDigits (run : List Char) : Prop :=
  run ≠ [] ∧ ∀ c ∈ run, c.isDigit = true

/-- The whole part of a numeral: digits without a needless zero in front. -/
def IsWhole (run : List Char) : Prop :=
  IsDigits run ∧ (run.head? = some '0' → run = ['0'])

/-- The fraction of a numeral, which may be missing. -/
inductive IsFraction : List Char → Prop where
  | none : IsFraction []
  | digits {run : List Char} (h : IsDigits run) : IsFraction ('.' :: run)

/-- The exponent of a numeral, which may be missing. -/
inductive IsExponent : List Char → Prop where
  | none : IsExponent []
  | digits {mark : Char} {sign run : List Char} (hmark : mark ∈ ['e', 'E'])
      (hsign : sign ∈ [[], ['+'], ['-']]) (h : IsDigits run) : IsExponent (mark :: (sign ++ run))

/-- A numeral: a sign that may be missing, a whole part, a fraction and an exponent. -/
inductive IsNumeral : List Char → Prop where
  | parts {sign whole fraction exponent : List Char} (hsign : sign ∈ [[], ['-']])
      (hwhole : IsWhole whole) (hfraction : IsFraction fraction)
      (hexponent : IsExponent exponent) :
      IsNumeral (sign ++ (whole ++ (fraction ++ exponent)))

/-- A whole part alone is a numeral. -/
theorem IsWhole.isNumeral {run : List Char} (h : IsWhole run) : IsNumeral run := by
  have noSign : [] ∈ [[], ['-']] := List.mem_cons_self
  simpa using IsNumeral.parts noSign h .none .none

/-! ## Lists and objects -/

/-- At least one item, with a comma between any two and blanks around each. -/
inductive Separated : List Char → List (List Char) → Prop where
  | one {before item after : List Char} (hbefore : Blank before) (hafter : Blank after) :
      Separated (before ++ (item ++ after)) [item]
  | cons {before item after more : List Char} {items : List (List Char)} (hbefore : Blank before)
      (hafter : Blank after) (tail : Separated more items) :
      Separated (before ++ (item ++ (after ++ ',' :: more))) (item :: items)

/-- Items between two brackets. -/
inductive Bracketed (opening closing : Char) : List Char → List (List Char) → Prop where
  | none {between : List Char} (h : Blank between) :
      Bracketed opening closing (opening :: (between ++ [closing])) []
  | some {inner : List Char} {items : List (List Char)} (h : Separated inner items) :
      Bracketed opening closing (opening :: (inner ++ [closing])) items

/-- The items of a list. -/
def IsList : List Char → List (List Char) → Prop :=
  Bracketed '[' ']'

/-- A member of an object: what stands between the quotes of its key, and its value. -/
inductive IsMember : List Char → List Char × List Char → Prop where
  | parts {key before after value : List Char} (hbefore : Blank before) (hafter : Blank after) :
      IsMember (literal key ++ (before ++ ':' :: (after ++ value))) (key, value)

/-- The members of an object. -/
def IsObject (text : List Char) (members : List (List Char × List Char)) : Prop :=
  ∃ items, Bracketed '\x7b' '\x7d' text items ∧ List.Forall₂ IsMember items members

/-- There is always an item. -/
theorem Separated.ne_nil {inner : List Char} {items : List (List Char)}
    (h : Separated inner items) : items ≠ [] := by
  cases h <;> exact List.cons_ne_nil _ _

/-- A single item between two brackets. -/
theorem Bracketed.exists_single {opening closing : Char} {text item : List Char}
    (h : Bracketed opening closing text [item]) :
    ∃ before after, Blank before ∧ Blank after ∧
      text = opening :: (before ++ (item ++ (after ++ [closing]))) := by
  cases h with | some h
  cases h with
  | one hbefore hafter => exact ⟨_, _, hbefore, hafter, by simp⟩
  | cons _ _ tail => exact absurd rfl tail.ne_nil

/-- Behind an opening bracket there is the closing one, or an item and then the closing one or a
comma. -/
theorem Bracketed.first {opening closing : Char} {text : List Char} {items : List (List Char)}
    (h : Bracketed opening closing text items) :
    (∃ between, Blank between ∧ text = opening :: (between ++ [closing])) ∨
      ∃ before item after next tail, Blank before ∧ Blank after ∧ item ∈ items ∧
        text = opening :: (before ++ (item ++ (after ++ next :: tail))) ∧
        (next = closing ∧ tail = [] ∨ next = ',') := by
  cases h with
  | none h => exact .inl ⟨_, h, rfl⟩
  | some h =>
    cases h with
    | @one before item after hbefore hafter =>
      exact .inr ⟨before, item, after, closing, [], hbefore, hafter, List.mem_cons_self, by simp,
        .inl ⟨rfl, rfl⟩⟩
    | @cons before item after more _ hbefore hafter _ =>
      exact .inr ⟨before, item, after, ',', more ++ [closing], hbefore, hafter,
        List.mem_cons_self, by simp, .inr rfl⟩

/-- Each item between the braces of an object is the text of one of its members. -/
theorem exists_isMember {items : List (List Char)} {members : List (List Char × List Char)}
    (h : List.Forall₂ IsMember items members) {item : List Char} (hitem : item ∈ items) :
    ∃ member ∈ members, IsMember item member := by
  induction h with
  | nil => cases hitem
  | @cons first member items members same _ ih =>
    obtain rfl | hitem := List.mem_cons.mp hitem
    · exact ⟨member, List.mem_cons_self, same⟩
    · obtain ⟨found, hfound, same⟩ := ih hitem
      exact ⟨found, List.mem_cons_of_mem _ hfound, same⟩

/-! ## Values -/

/-- The words of documents. -/
def words : List (List Char) :=
  [['n', 'u', 'l', 'l'], ['t', 'r', 'u', 'e'], ['f', 'a', 'l', 's', 'e']]

/-- A text is a value, without blanks around it. -/
inductive IsValue : List Char → Prop where
  | word {text : List Char} (h : text ∈ words) : IsValue text
  | numeral {text : List Char} (h : IsNumeral text) : IsValue text
  | literal {body : List Char} (h : IsBody body) : IsValue (literal body)
  | list {text : List Char} {items : List (List Char)} (h : IsList text items)
      (each : ∀ item ∈ items, IsValue item) : IsValue text
  | object {text : List Char} {members : List (List Char × List Char)}
      (h : IsObject text members) (keys : ∀ member ∈ members, IsBody member.1)
      (values : ∀ member ∈ members, IsValue member.2) : IsValue text

/-- The characters that a value may start with. -/
def startChars : List Char :=
  ['"', '[', '\x7b', '-', 'n', 't', 'f'] ++ digitChars

/-- A text starts like a value. -/
inductive StartsValue : List Char → Prop where
  | cons {c : Char} (text : List Char) (h : c ∈ startChars) : StartsValue (c :: text)

/-- A text that starts like a value does so whatever follows. -/
theorem StartsValue.append {text : List Char} (h : StartsValue text) (more : List Char) :
    StartsValue (text ++ more) := by
  cases h with
  | cons rest h => exact .cons _ h

/-- A numeral starts with a minus sign or a digit. -/
theorem IsNumeral.exists_cons {text : List Char} (h : IsNumeral text) :
    ∃ c more, text = c :: more ∧ c ∈ '-' :: digitChars := by
  cases h with | @parts sign whole fraction exponent hsign hwhole _ _
  obtain ⟨⟨nonempty, each⟩, _⟩ := hwhole
  simp only [List.mem_cons, List.not_mem_nil, or_false] at hsign
  obtain rfl | rfl := hsign
  · cases whole with
    | nil => exact absurd rfl nonempty
    | cons c whole =>
      exact ⟨c, _, rfl, List.mem_cons_of_mem _ (mem_digitChars (each c (by simp)))⟩
  · exact ⟨'-', _, rfl, List.mem_cons_self⟩

/-- Every value starts like one. -/
theorem IsValue.startsValue {text : List Char} (h : IsValue text) : StartsValue text := by
  cases h with
  | word h =>
    simp only [words, List.mem_cons, List.not_mem_nil, or_false] at h
    obtain rfl | rfl | rfl := h <;> exact .cons _ (by decide)
  | numeral h =>
    obtain ⟨c, more, rfl, hc⟩ := h.exists_cons
    have sub : ∀ c ∈ '-' :: digitChars, c ∈ startChars := by decide
    exact .cons more (sub c hc)
  | literal h => exact .cons _ (by decide)
  | list h _ => cases h <;> exact .cons _ (by decide)
  | object h _ _ =>
    obtain ⟨items, h, _⟩ := h
    cases h <;> exact .cons _ (by decide)

/-- The first character of a value shows its kind. -/
theorem IsValue.kinds {text : List Char} (h : IsValue text) :
    ∃ c more, text = c :: more ∧
      ((c ∈ ['n', 't', 'f'] ∧ text ∈ words) ∨ (c ∈ '-' :: digitChars ∧ IsNumeral text) ∨
        (c = '"' ∧ ∃ body, IsBody body ∧ text = Json.literal body) ∨
        (c = '[' ∧ ∃ items, IsList text items ∧ ∀ item ∈ items, IsValue item) ∨
        (c = '\x7b' ∧ ∃ members, IsObject text members ∧ (∀ member ∈ members, IsBody member.1) ∧
          ∀ member ∈ members, IsValue member.2)) := by
  cases h with
  | word h =>
    have heads : ∀ text ∈ words, ∃ c ∈ ['n', 't', 'f'], ∃ more, text = c :: more := by
      simp [words]
    obtain ⟨c, hc, more, rfl⟩ := heads text h
    exact ⟨c, more, rfl, .inl ⟨hc, h⟩⟩
  | numeral h =>
    obtain ⟨c, more, rfl, hc⟩ := h.exists_cons
    exact ⟨c, more, rfl, .inr (.inl ⟨hc, h⟩)⟩
  | @literal body h => exact ⟨'"', _, rfl, .inr (.inr (.inl ⟨rfl, body, h, rfl⟩))⟩
  | @list text items h each =>
    have start : ∃ more, text = '[' :: more := by cases h <;> exact ⟨_, rfl⟩
    obtain ⟨more, same⟩ := start
    exact ⟨'[', more, same, .inr (.inr (.inr (.inl ⟨rfl, items, h, each⟩)))⟩
  | @object text members h keys values =>
    have start : ∃ more, text = '\x7b' :: more := by
      obtain ⟨items, h, _⟩ := h
      cases h <;> exact ⟨_, rfl⟩
    obtain ⟨more, same⟩ := start
    exact ⟨'\x7b', more, same, .inr (.inr (.inr (.inr ⟨rfl, members, h, keys, values⟩)))⟩

end LineLexer.Json
