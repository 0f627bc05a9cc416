import LineLexer.Error
import LineLexer.ModifierSet
import LineLexer.Position
import LineLexer.Text.CodeUnits
import LineLexer.Text.Offsets

/-!
# Tokens

A token marks a run of characters of one line and says what they are. Columns and lengths count
characters; `utf16Columns?` gives the same run in sixteen-bit code units.
-/

namespace LineLexer

/-- A classified run of characters of a line. -/
structure Token where
  line : Nat
  startColumn : Nat
  length : Nat
  category : Category
  modifiers : ModifierSet
  deriving DecidableEq, Repr, Inhabited

namespace Token

/-- The token of the given parts; a token covers at least one character. -/
def ofParts (line startColumn length : Nat) (category : Category) (modifiers : ModifierSet) :
    Except Error Token :=
  if length = 0 then .error (.emptyToken line startColumn)
  else .ok ⟨line, startColumn, length, category, modifiers⟩

/-- The column after the last character of a token. -/
def endColumn (t : Token) : Nat :=
  t.startColumn + t.length

/-- The position of the first character of a token. -/
def position (t : Token) : Position :=
  ⟨t.line, t.startColumn⟩

/-- The characters of a line that a token covers, or `none` if the line is too short. They are taken
out of the line at the offset of the first one and at the offset behind the last one. -/
def text? (t : Token) (line : String) : Option String :=
  match (Text.boundaries 0 line.toList).drop t.startColumn, t.length with
  | start :: later, n + 1 => do
    let stop ← later[n]?
    let covered ← Text.slice? start stop line.toList
    return String.ofList covered
  | _, _ => none

/-- The first and the last column of a token in sixteen-bit code units of its line, or `none` if
the line is too short. The last column is not part of the token. -/
def utf16Columns? (t : Token) (line : String) : Option (Nat × Nat) :=
  if t.endColumn ≤ line.length then
    let before := Text.units (line.toList.take t.startColumn)
    some (before, before + Text.units ((line.toList.drop t.startColumn).take t.length))
  else none

/-- The text of a token for readers. -/
def render (t : Token) : String :=
  s!"{t.line}:{t.startColumn}..{t.endColumn} " ++ t.category.toLabel ++ " " ++ t.modifiers.render

/-- A token shown with the names of its parts. -/
def inspect (t : Token) : String :=
  "Token \x7b line: " ++ toString t.line ++ ", start_column: " ++ toString t.startColumn ++
    ", length: " ++ toString t.length ++ ", category: " ++ t.category.name ++
    ", modifiers: " ++ t.modifiers.inspect ++ " \x7d"

/-! ## Fitting into a line -/

/-- A line is long enough to hold a token. -/
def FitsIn (t : Token) (line : String) : Prop :=
  0 < t.length ∧ t.endColumn ≤ line.length

/-- Whether a token fits into a line is a comparison of lengths. -/
instance (t : Token) (line : String) : Decidable (t.FitsIn line) :=
  inferInstanceAs (Decidable (_ ∧ _))

/-- A token takes the characters of its columns out of every line that it fits into. -/
theorem text?_of_fitsIn {t : Token} {line : String} (h : t.FitsIn line) :
    t.text? line = some (String.ofList ((line.toList.drop t.startColumn).take t.length)) := by
  obtain ⟨lineIndex, start, length, category, modifiers⟩ := t
  obtain ⟨hpos, hend⟩ := h
  simp only [endColumn, ← String.length_toList] at hpos hend
  obtain ⟨n, rfl⟩ := Nat.exists_eq_succ_of_ne_zero (Nat.ne_of_gt hpos)
  have hstart : (Text.boundaries 0 line.toList)[start]? =
      some (Text.bytes (line.toList.take start)) := by
    rw [Text.getElem?_boundaries, if_pos (by omega), Nat.zero_add]
  have hstop : ((Text.boundaries 0 line.toList).drop (start + 1))[n]? =
      some (Text.bytes (line.toList.take start ++ (line.toList.drop start).take (n + 1))) := by
    rw [List.getElem?_drop, Text.getElem?_boundaries, if_pos (by omega), Nat.zero_add,
      ← List.take_add, Nat.add_assoc, Nat.add_comm 1 n]
  have hslice := Text.slice?_bytes (line.toList.take start)
    ((line.toList.drop start).take (n + 1)) ((line.toList.drop start).drop (n + 1))
  rw [List.append_assoc, List.take_append_drop, List.take_append_drop] at hslice
  obtain ⟨hlt, hget⟩ := List.getElem?_eq_some_iff.mp hstart
  simp only [text?, List.drop_eq_getElem_cons hlt, hget, hstop, Option.bind_eq_bind,
    Option.bind_some, hslice]
  rfl

/-- A token takes nothing out of a line that it does not fit into. -/
theorem text?_of_not_fitsIn {t : Token} {line : String} (h : ¬ t.FitsIn line) :
    t.text? line = none := by
  rw [text?]
  split
  · next start later n hdrop hlength =>
    -- The offset where the token starts is there, so that the one where it ends is missing.
    have hlater : later[n]? = (Text.boundaries 0 line.toList)[t.startColumn + t.length]? := by
      rw [hlength, ← List.getElem?_drop, hdrop, List.getElem?_cons_succ]
    have hend : ¬ t.startColumn + t.length ≤ line.toList.length := by
      intro hle
      rw [String.length_toList] at hle
      exact h ⟨by omega, hle⟩
    rw [hlater, Text.getElem?_boundaries, if_neg hend]
    rfl
  · rfl

/-- Only runs of at least one character make a token. -/
theorem ofParts_eq_ok_iff {line startColumn length : Nat} {category : Category}
    {modifiers : ModifierSet} {t : Token} :
    ofParts line startColumn length category modifiers = .ok t ↔
      0 < length ∧ t = ⟨line, startColumn, length, category, modifiers⟩ := by
  unfold ofParts
  split <;> simp_all [eq_comm, Nat.pos_iff_ne_zero]

end Token

end LineLexer
