import LineLexer.Proofs.LabelDocuments
import LineLexer.Proofs.Separators
import Mathlib.Data.List.Nodup

/-!
# Tokens and their texts for readers

The text of a token is put together of three numbers, a label and a list of labels. Each part is
followed by a character that it does not contain, so that the parts can be told from the text; the
length of the token is told from its two columns. The main statement is
`Token.render_eq_render_iff`.
-/

namespace LineLexer

/-! ## Labels -/

theorem Category.toLabel_inj {c d : Category} (h : c.toLabel = d.toLabel) : c = d :=
  List.inj_on_of_nodup_map nodup_labels (mem_all c) (mem_all d) h

theorem Category.space_notMem_toLabel (c : Category) : ' ' ∉ c.toLabel.toList := by
  cases c <;> decide

theorem Modifier.toLabel_inj {m n : Modifier} (h : m.toLabel = n.toLabel) : m = n :=
  List.inj_on_of_nodup_map nodup_labels (mem_all m) (mem_all n) h

theorem Modifier.isPart_toLabel (m : Modifier) : Text.IsPart ',' m.toLabel.toList := by
  cases m <;> exact ⟨by decide, by decide⟩

/-! ## Sets of modifiers -/

namespace ModifierSet

variable {s t : ModifierSet}

/-- The text of a set is the list of its labels between brackets. -/
theorem toList_render (s : ModifierSet) :
    s.render.toList =
      '[' :: ([',', ' '].intercalate (s.toList.map fun m => m.toLabel.toList) ++ [']']) := by
  simp [render, String.toList_intercalate, Function.comp_def]

/-- A set is known from the list of its members. -/
theorem toList_inj (h : s.toList = t.toList) : s = t :=
  ext_contains fun m => by rw [Bool.eq_iff_iff, ← mem_toList, ← mem_toList, h]

/-- A set is known from its text. -/
theorem render_inj (h : s.render = t.render) : s = t := by
  have chars := congrArg String.toList h
  rw [toList_render, toList_render] at chars
  have inside := List.append_cancel_right (List.tail_eq_of_cons_eq chars)
  have parts (s : ModifierSet) :
      ∀ part ∈ s.toList.map fun m => m.toLabel.toList, Text.IsPart ',' part := by
    intro part hpart
    obtain ⟨m, -, rfl⟩ := List.mem_map.mp hpart
    exact m.isPart_toLabel
  have labels := Text.intercalate_inj (parts s) (parts t) inside
  have distinct : Function.Injective fun m : Modifier => m.toLabel.toList :=
    fun _ _ same => Modifier.toLabel_inj (String.toList_inj.mp same)
  exact toList_inj (distinct.list_map labels)

end ModifierSet

/-! ## Tokens -/

namespace Token

variable {t u : Token}

/-- The parts of the text of a token, each with what stands behind it. -/
theorem toList_render (t : Token) :
    t.render.toList =
      Nat.toDigits 10 t.line ++ ':' :: (Nat.toDigits 10 t.startColumn ++ '.' :: '.' ::
        (Nat.toDigits 10 t.endColumn ++ ' ' ::
          (t.category.toLabel.toList ++ ' ' :: t.modifiers.render.toList))) := by
  show (toString t.line ++ ":" ++ toString t.startColumn ++ ".." ++ toString t.endColumn ++ " " ++
    t.category.toLabel ++ " " ++ t.modifiers.render).toList = _
  simp

/-- No separator is a digit. -/
theorem notMem_toDigits {c : Char} (hc : c.isDigit = false) (n : Nat) : c ∉ Nat.toDigits 10 n := by
  intro h
  rw [Nat.isDigit_of_mem_toDigits (by decide) (by decide) h] at hc
  cases hc

/-- A number in front of a character that is no digit is known. -/
theorem digits_inj {c : Char} (hc : c.isDigit = false) {m n : Nat} {back right : List Char}
    (h : Nat.toDigits 10 m ++ c :: back = Nat.toDigits 10 n ++ c :: right) :
    m = n ∧ back = right := by
  obtain ⟨digits, behind⟩ :=
    Text.cut_cons_inj (notMem_toDigits hc m) (notMem_toDigits hc n) h
  exact ⟨Text.toDigits_inj (by decide) (by decide) digits, behind⟩

/-- Tokens that look the same to readers are the same. -/
theorem render_eq_render_iff : t.render = u.render ↔ t = u := by
  refine ⟨fun h => ?_, congrArg render⟩
  have chars := congrArg String.toList h
  rw [toList_render, toList_render] at chars
  obtain ⟨line, chars⟩ := digits_inj (by decide) chars
  obtain ⟨startColumn, chars⟩ := digits_inj (by decide) chars
  obtain ⟨endColumn, chars⟩ := digits_inj (by decide) (List.tail_eq_of_cons_eq chars)
  obtain ⟨category, modifiers⟩ := Text.cut_cons_inj t.category.space_notMem_toLabel
    u.category.space_notMem_toLabel chars
  have category := Category.toLabel_inj (String.toList_inj.mp category)
  have modifiers := ModifierSet.render_inj (String.toList_inj.mp modifiers)
  obtain ⟨tLine, tStart, tLength, tCategory, tModifiers⟩ := t
  obtain ⟨uLine, uStart, uLength, uCategory, uModifiers⟩ := u
  obtain rfl : tStart = uStart := startColumn
  -- The start and the end of a token tell its length.
  obtain rfl : tLength = uLength := Nat.add_left_cancel endColumn
  obtain rfl : tLine = uLine := line
  obtain rfl : tCategory = uCategory := category
  obtain rfl : tModifiers = uModifiers := modifiers
  rfl

end Token

end LineLexer
