import LineLexer.Text.Line

/-!
# Breaks and lines

The number of lines of a text is one more than its number of breaks, `length_lines`, where a break
is counted at its last character and no line is cut.
-/

namespace LineLexer.Text

/-- The number of line breaks of a text: of its line feeds, and of the carriage returns that no line
feed follows. -/
def breakCount : List Char → Nat
  | [] => 0
  | c :: rest =>
    (if c = '\n' ∨ c = '\r' ∧ rest.head? ≠ some '\n' then 1 else 0) + breakCount rest

theorem isLineBreak_iff {c : Char} : isLineBreak c = true ↔ c = '\n' ∨ c = '\r' := by
  simp [isLineBreak]

/-- A carriage return that is no part of a pair has no line feed behind it. -/
theorem head?_ne_of_not_pair {c : Char} {rest : List Char}
    (hpair : ∀ more, c = '\r' → rest = '\n' :: more → False) (hc : c = '\r') :
    rest.head? ≠ some '\n' := by
  intro hhead
  obtain ⟨more, rfl⟩ := List.head?_eq_some_iff.mp hhead
  exact hpair more hc rfl

@[simp] theorem length_consFirst {lines : List (List Char)} (c : Char) (hne : lines ≠ []) :
    (consFirst c lines).length = lines.length := by
  obtain ⟨line, more, rfl⟩ := List.exists_cons_of_ne_nil hne
  rfl

/-- A text with `n` breaks has `n + 1` lines. -/
theorem length_lines (text : List Char) : (lines text).length = breakCount text + 1 := by
  fun_induction lines text with
  | case1 => rfl
  | case2 rest ih =>
      simp [breakCount, ih]
      omega
  | case3 c rest hpair hbreak ih =>
      have hends : c = '\n' ∨ c = '\r' ∧ rest.head? ≠ some '\n' := by
        rcases isLineBreak_iff.mp hbreak with hc | hc
        · exact .inl hc
        · exact .inr ⟨hc, head?_ne_of_not_pair hpair hc⟩
      rw [List.length_cons, ih, breakCount, if_pos hends]
      omega
  | case4 c rest hpair hbreak ih =>
      have hinside : ¬ (c = '\n' ∨ c = '\r' ∧ rest.head? ≠ some '\n') := by
        rintro (rfl | ⟨rfl, -⟩) <;> simp [isLineBreak] at hbreak
      rw [length_consFirst c (lines_ne_nil rest), ih, breakCount, if_neg hinside]
      omega

end LineLexer.Text
