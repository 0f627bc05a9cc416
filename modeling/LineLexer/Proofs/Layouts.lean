import LineLexer.Proofs.Breaks

/-!
# Lines and the breaks between them

A text is made of its lines and of the breaks between them. Any lines that have no break inside are
a `Layout` together with any breaks between them, unless a carriage return and a line feed have
nothing but an empty line between them: those two would be read as one break. `interleave` writes a
layout down. The main statement is `lines_eq_iff`: the lines of a text are those of a layout that it
is made of. What lies behind it is that a break cuts a text in two, `lines_append_break`, unless it
`Merges` with a character next to it.
-/

namespace LineLexer.Text

/-- The ways to write a line break. -/
inductive Break where
  | lineFeed
  | carriageReturn
  | pair
  deriving DecidableEq, Repr

/-- The characters of a line break. -/
def Break.chars : Break → List Char
  | lineFeed => ['\n']
  | carriageReturn => ['\r']
  | pair => ['\r', '\n']

/-- A break forms a pair with a character of the texts that it stands between: with a carriage
return in front of it or with a line feed behind it. -/
def Merges (front : List Char) (b : Break) (back : List Char) : Prop :=
  b = .lineFeed ∧ front.getLast? = some '\r' ∨ b = .carriageReturn ∧ back.head? = some '\n'

instance (front : List Char) (b : Break) (back : List Char) : Decidable (Merges front b back) :=
  inferInstanceAs (Decidable (_ ∨ _))

/-- There is no line break among some characters. -/
def Unbroken (chars : List Char) : Prop :=
  ∀ c ∈ chars, isLineBreak c = false

instance (chars : List Char) : Decidable (Unbroken chars) :=
  List.decidableBAll _ chars

/-- Lines that breaks can stand between: there is one line more than there are breaks, no line has a
break inside, and no two breaks with an empty line between them form a pair. -/
structure Layout (lines : List (List Char)) (breaks : List Break) : Prop where
  length_eq : lines.length = breaks.length + 1
  unbroken : ∀ line ∈ lines, Unbroken line
  separate : ∀ i, ¬ (breaks[i]? = some .carriageReturn ∧ lines[i + 1]? = some [] ∧
    breaks[i + 1]? = some .lineFeed)

/-- The text that consists of some lines with breaks between them. -/
def interleave : List (List Char) → List Break → List Char
  | [], _ => []
  | line :: _, [] => line
  | line :: more, b :: breaks => line ++ b.chars ++ interleave more breaks

theorem merges_lineFeed_iff {front back : List Char} :
    Merges front .lineFeed back ↔ front.getLast? = some '\r' := by
  simp [Merges]

theorem merges_carriageReturn_iff {front back : List Char} :
    Merges front .carriageReturn back ↔ back.head? = some '\n' := by
  simp [Merges]

theorem not_merges_pair {front back : List Char} : ¬ Merges front .pair back := by
  simp [Merges]

/-! ## One character -/

/-- A character that is not the first one of a pair ends a line or belongs to the first line. -/
theorem lines_cons {c : Char} {rest : List Char} (h : c = '\r' → rest.head? ≠ some '\n') :
    lines (c :: rest) = if isLineBreak c then [] :: lines rest else consFirst c (lines rest) := by
  rw [lines]
  intro more hc hrest
  subst hrest
  exact h hc rfl

theorem lines_cons_of_unbroken {c : Char} {rest : List Char} (h : isLineBreak c = false) :
    lines (c :: rest) = consFirst c (lines rest) := by
  have hc : c ≠ '\r' := by
    intro hc
    rw [isLineBreak_iff.mpr (.inr hc)] at h
    cases h
  rw [lines_cons fun heq => absurd heq hc, h, if_neg Bool.false_ne_true]

theorem lines_cons_lineFeed (rest : List Char) : lines ('\n' :: rest) = [] :: lines rest := by
  rw [lines_cons fun hc => absurd hc (by decide)]
  rfl

theorem consFirst_append {lines : List (List Char)} (c : Char) (hne : lines ≠ [])
    (more : List (List Char)) : consFirst c (lines ++ more) = consFirst c lines ++ more := by
  obtain ⟨line, later, rfl⟩ := List.exists_cons_of_ne_nil hne
  rfl

/-! ## One break -/

/-- A break merges with the end of a text no matter what the text starts with. -/
theorem Merges.cons {front : List Char} {b : Break} {back : List Char} (h : Merges front b back)
    (c : Char) : Merges (c :: front) b back := by
  rcases h with ⟨hb, hlast⟩ | hback
  · exact .inl ⟨hb, by rw [List.getLast?_cons, hlast]; rfl⟩
  · exact .inr hback

/-- A break at the start of a text has an empty line in front of it. -/
theorem lines_break_append {b : Break} {back : List Char} (h : ¬ Merges [] b back) :
    lines (b.chars ++ back) = [] :: lines back := by
  cases b with
  | lineFeed => exact lines_cons_lineFeed back
  | carriageReturn =>
      rw [merges_carriageReturn_iff] at h
      show lines ('\r' :: back) = [] :: lines back
      rw [lines_cons fun _ => h]
      rfl
  | pair => rfl

/-- A break that does not merge makes no pair of the character before it. -/
theorem head?_append_break {c : Char} {rest : List Char} {b : Break} {back : List Char}
    (h : ¬ Merges (c :: rest) b back) (hc : c = '\r') (hrest : rest.head? ≠ some '\n') :
    (rest ++ b.chars ++ back).head? ≠ some '\n' := by
  subst hc
  cases rest with
  | nil =>
      cases b with
      | lineFeed => exact absurd (merges_lineFeed_iff.mpr rfl) h
      | carriageReturn | pair => show some '\r' ≠ some '\n'; decide
  | cons d rest => exact hrest

/-- A break that does not merge cuts the lines of the texts apart that it stands between. -/
theorem lines_append_break {front : List Char} {b : Break} {back : List Char}
    (h : ¬ Merges front b back) :
    lines (front ++ b.chars ++ back) = lines front ++ lines back := by
  fun_induction lines front with
  | case1 => exact lines_break_append h
  | case2 rest ih =>
      show [] :: lines (rest ++ b.chars ++ back) = _
      rw [ih fun hrest => h ((hrest.cons _).cons _)]
      rfl
  -- The character ends a line also in the longer text: no line feed comes to stand behind it.
  | case3 c rest hpair hbreak ih =>
      have hhead : c = '\r' → (rest ++ b.chars ++ back).head? ≠ some '\n' := fun hc =>
        head?_append_break h hc (head?_ne_of_not_pair hpair hc)
      show lines (c :: (rest ++ b.chars ++ back)) = _
      rw [lines_cons hhead, if_pos hbreak, ih fun hrest => h (hrest.cons c)]
      rfl
  | case4 c rest hpair hbreak ih =>
      have hinside : isLineBreak c = false := Bool.eq_false_iff.mpr hbreak
      show lines (c :: (rest ++ b.chars ++ back)) = _
      rw [lines_cons_of_unbroken hinside, ih fun hrest => h (hrest.cons c),
        consFirst_append c (lines_ne_nil rest)]

/-! ## Lines without breaks -/

theorem Unbroken.cons_iff {c : Char} {rest : List Char} :
    Unbroken (c :: rest) ↔ isLineBreak c = false ∧ Unbroken rest :=
  List.forall_mem_cons

/-- Characters without a break among them are one line. -/
theorem lines_of_unbroken {line : List Char} (h : Unbroken line) : lines line = [line] := by
  induction line with
  | nil => rfl
  | cons c rest ih =>
      obtain ⟨hc, hrest⟩ := Unbroken.cons_iff.mp h
      rw [lines_cons_of_unbroken hc, ih hrest]
      rfl

/-- A break does not merge with a line in front of it. -/
theorem Unbroken.merges_iff {line : List Char} (h : Unbroken line) {b : Break} {back : List Char} :
    Merges line b back ↔ b = .carriageReturn ∧ back.head? = some '\n' := by
  refine or_iff_right ?_
  intro hfront
  have hbreak : isLineBreak '\r' = false := h _ (List.mem_of_getLast? hfront.2)
  cases hbreak

/-! ## Layouts -/

theorem unbroken_nil : Unbroken [] := by
  intro c hc
  cases hc

namespace Layout

variable {line : List Char} {lines : List (List Char)} {b : Break} {breaks : List Break}

theorem single (h : Unbroken line) : Layout [line] [] := by
  refine ⟨rfl, ?_, ?_⟩
  · intro line' hline
    rw [List.mem_singleton.mp hline]
    exact h
  · intro i hi
    cases hi.1

/-- The text of a layout starts with a line feed if an empty line and this break come first, and
only then: no line has the line feed inside. -/
theorem head?_interleave_iff (h : Layout lines breaks) :
    (interleave lines breaks).head? = some '\n' ↔
      lines[0]? = some [] ∧ breaks[0]? = some .lineFeed := by
  obtain ⟨first, more, rfl⟩ := List.exists_cons_of_length_eq_add_one h.length_eq
  cases first with
  | nil =>
      cases breaks with
      | nil => simp [interleave]
      | cons b later => cases b <;> simp [interleave, Break.chars]
  | cons c first =>
      have hc : isLineBreak c = false := h.unbroken (c :: first) (by simp) c (by simp)
      have hne : c ≠ '\n' := by
        intro heq
        rw [isLineBreak_iff.mpr (.inl heq)] at hc
        cases hc
      cases breaks <;> simp [interleave, hne]

/-- A line and a break can come before a layout unless the break merges with the text of that. -/
theorem cons_iff :
    Layout (line :: lines) (b :: breaks) ↔
      Unbroken line ∧ Layout lines breaks ∧ ¬ Merges line b (interleave lines breaks) := by
  constructor
  · intro h
    obtain ⟨hline, hunbroken⟩ := List.forall_mem_cons.mp h.unbroken
    have hmore : Layout lines breaks :=
      ⟨Nat.succ.inj h.length_eq, hunbroken, fun i => h.separate (i + 1)⟩
    refine ⟨hline, hmore, ?_⟩
    rw [hline.merges_iff, hmore.head?_interleave_iff]
    rintro ⟨rfl, hfirst⟩
    exact h.separate 0 ⟨rfl, hfirst⟩
  · rintro ⟨hline, hmore, hmerges⟩
    rw [hline.merges_iff, hmore.head?_interleave_iff] at hmerges
    refine ⟨congrArg Nat.succ hmore.length_eq,
      List.forall_mem_cons.mpr ⟨hline, hmore.unbroken⟩, ?_⟩
    intro i
    cases i with
    | zero => exact fun hfirst => hmerges ⟨Option.some.inj hfirst.1, hfirst.2⟩
    | succ i => exact hmore.separate i

/-- A character that is no break can come before the first line of a layout. -/
theorem interleave_consFirst {c : Char} (hc : isLineBreak c = false) (h : Layout lines breaks) :
    Layout (Text.consFirst c lines) breaks ∧
      interleave (Text.consFirst c lines) breaks = c :: interleave lines breaks := by
  obtain ⟨first, more, rfl⟩ := List.exists_cons_of_length_eq_add_one h.length_eq
  obtain ⟨hfirst, hmore⟩ := List.forall_mem_cons.mp h.unbroken
  have hcons : Unbroken (c :: first) := Unbroken.cons_iff.mpr ⟨hc, hfirst⟩
  refine ⟨⟨h.length_eq, List.forall_mem_cons.mpr ⟨hcons, hmore⟩, h.separate⟩, ?_⟩
  cases breaks <;> rfl

/-- The lines of a layout are read back from its text. -/
theorem lines_interleave (h : Layout lines breaks) :
    Text.lines (interleave lines breaks) = lines := by
  induction breaks generalizing lines with
  | nil =>
      obtain ⟨line, rfl⟩ := List.length_eq_one_iff.mp h.length_eq
      exact lines_of_unbroken (h.unbroken line (by simp))
  | cons b later ih =>
      obtain ⟨line, more, rfl⟩ := List.exists_cons_of_length_eq_add_one h.length_eq
      obtain ⟨hline, hmore, hmerges⟩ := cons_iff.mp h
      show Text.lines (line ++ b.chars ++ interleave more later) = line :: more
      rw [lines_append_break hmerges, lines_of_unbroken hline, ih hmore]
      rfl

end Layout

/-- A text that starts with a break is laid out if what follows the break is. -/
theorem exists_layout_break (b : Break) {rest : List Char} {lines : List (List Char)}
    (hb : ¬ Merges [] b rest) (h : ∃ breaks, Layout lines breaks ∧ interleave lines breaks = rest) :
    ∃ breaks, Layout ([] :: lines) breaks ∧ interleave ([] :: lines) breaks = b.chars ++ rest := by
  obtain ⟨breaks, hlayout, rfl⟩ := h
  exact ⟨b :: breaks, Layout.cons_iff.mpr ⟨unbroken_nil, hlayout, hb⟩, rfl⟩

/-- Every text is laid out in its lines. -/
theorem exists_layout_lines (text : List Char) :
    ∃ breaks, Layout (lines text) breaks ∧ interleave (lines text) breaks = text := by
  fun_induction lines text with
  | case1 => exact ⟨[], .single unbroken_nil, rfl⟩
  | case2 rest ih => exact exists_layout_break .pair not_merges_pair ih
  | case3 c rest hpair hbreak ih =>
      rcases isLineBreak_iff.mp hbreak with rfl | rfl
      · have hmerges : ¬ Merges [] .lineFeed rest := by
          rw [merges_lineFeed_iff]
          intro hlast
          cases hlast
        exact exists_layout_break .lineFeed hmerges ih
      · have hmerges : ¬ Merges [] .carriageReturn rest := by
          rw [merges_carriageReturn_iff]
          exact head?_ne_of_not_pair hpair rfl
        exact exists_layout_break .carriageReturn hmerges ih
  | case4 c rest hpair hbreak ih =>
      obtain ⟨breaks, hlayout, htext⟩ := ih
      obtain ⟨hlayout', htext'⟩ := hlayout.interleave_consFirst (Bool.eq_false_iff.mpr hbreak)
      exact ⟨breaks, hlayout', by rw [htext', htext]⟩

/-- No line has a break inside. -/
theorem unbroken_of_mem_lines {text line : List Char} (h : line ∈ lines text) : Unbroken line := by
  obtain ⟨breaks, hlayout, -⟩ := exists_layout_lines text
  exact hlayout.unbroken line h

/-- The lines of a text are those that it consists of, with breaks between them, in the one way in
which no two breaks form a pair: a text is laid out in its lines, and no layout has other lines than
its text. -/
theorem lines_eq_iff {text : List Char} {ls : List (List Char)} :
    lines text = ls ↔ ∃ breaks, Layout ls breaks ∧ interleave ls breaks = text := by
  constructor
  · rintro rfl
    exact exists_layout_lines text
  · rintro ⟨breaks, hlayout, rfl⟩
    exact hlayout.lines_interleave

/-- An empty line between a carriage return and a line feed would get lost. -/
example : interleave [['a'], [], ['b']] [.carriageReturn, .lineFeed] =
    interleave [['a'], ['b']] [.pair] :=
  rfl

end LineLexer.Text
