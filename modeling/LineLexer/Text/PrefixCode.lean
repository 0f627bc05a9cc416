/-!
# Prefix codes

A text is written by writing its characters one after another. It can be read again if each
character shows in front of whatever is written behind it, as is the case for the words of a prefix
code: then different texts are written differently, `IsPrefixCode.flatMap_inj`.
-/

namespace LineLexer.Text

variable {Letter Mark : Type} {code : Letter → List Mark}

/-- The word of a letter shows which letter it is and where it ends, whatever stands behind it. -/
structure IsPrefixCode (code : Letter → List Mark) : Prop where
  ne_nil (c : Letter) : code c ≠ []
  append_inj {c d : Letter} {left right : List Mark} (h : code c ++ left = code d ++ right) :
    c = d ∧ left = right

/-- Nothing is written only of nothing. -/
theorem IsPrefixCode.flatMap_eq_nil (h : IsPrefixCode code) {text : List Letter}
    (hnil : text.flatMap code = []) : text = [] := by
  cases text with
  | nil => rfl
  | cons c text =>
    rw [List.flatMap_cons, List.append_eq_nil_iff] at hnil
    exact absurd hnil.1 (h.ne_nil c)

/-- Different texts are written differently. -/
theorem IsPrefixCode.flatMap_inj (h : IsPrefixCode code) {front back : List Letter}
    (same : front.flatMap code = back.flatMap code) : front = back := by
  induction front generalizing back with
  | nil => exact (h.flatMap_eq_nil same.symm).symm
  | cons c front ih =>
    cases back with
    | nil => exact h.flatMap_eq_nil same
    | cons d back =>
      rw [List.flatMap_cons, List.flatMap_cons] at same
      obtain ⟨rfl, rest⟩ := h.append_inj same
      rw [ih rest]

end LineLexer.Text
