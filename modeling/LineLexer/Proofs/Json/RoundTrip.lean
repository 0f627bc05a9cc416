import LineLexer.Proofs.Json.Records
import LineLexer.Proofs.Json.Written

/-!
# Reading what has been written

The members of a written object are the values of their fields under their names, so a record is
read back if each of its fields is. Texts and characters are read back as they are.
-/

namespace LineLexer.Json

open Decoder

variable {α σ : Type} {r : Record σ α} {write : Value → String}

/-! ## Single values -/

/-- A text between quotes is read back. -/
theorem reads_quoted (text : String) : string.Reads (quoted text).toList (.ok text) := by
  rw [toList_quoted]
  exact .string (denotes_body text)

/-- A character between quotes is read back. -/
theorem reads_quoted_singleton (c : Char) :
    char.Reads (quoted (String.singleton c)).toList (.ok c) := by
  have denotes := denotes_body (String.singleton c)
  rw [String.toList_singleton] at denotes
  rw [toList_quoted]
  exact .char denotes

/-! ## Records -/

/-- The text of the value under a name among the members of an object. -/
def valueOf (write : Value → String) (members : List (String × Value)) (name : String) :
    List Char :=
  ((members.lookup name).map fun value => (write value).toList).getD []

/-- Different names have their own values. -/
theorem valueOf_of_mem {members : List (String × Value)}
    (distinct : (members.map Prod.fst).Nodup) {member : String × Value} (h : member ∈ members) :
    valueOf write members member.1 = (write member.2).toList := by
  induction members with
  | nil => cases h
  | cons first members ih =>
    obtain ⟨key, value⟩ := first
    obtain ⟨absent, distinct⟩ := List.nodup_cons.mp distinct
    obtain rfl | h := List.mem_cons.mp h
    · simp [valueOf]
    · have other : (member.1 == key) = false :=
        beq_false_of_ne fun same => absent (List.mem_map.mpr ⟨member, h, same⟩)
      have skipped : List.lookup member.1 ((key, value) :: members) = members.lookup member.1 := by
        rw [List.lookup_cons, other]
      unfold valueOf at ih ⊢
      rw [skipped]
      exact ih distinct h

/-- The members of a written object are the values of fields, or values of unknown keys. -/
theorem forall₂_isEntry {members : List (String × Value)} {given : List String}
    (distinct : (members.map Prod.fst).Nodup)
    (h : ∀ member ∈ members, member.1 ∈ given ∨
      (∀ field ∈ r.fields, field.name ≠ member.1) ∧ IsValue (write member.2).toList) :
    List.Forall₂ (IsEntry r given (valueOf write members))
      (members.map fun member => (body member.1, (write member.2).toList))
      (members.map Prod.fst) := by
  rw [List.forall₂_map_left_iff, List.forall₂_map_right_iff, List.forall₂_same]
  intro member hmember
  obtain hgiven | ⟨unknown, hvalue⟩ := h member hmember
  · exact .field (denotes_body member.1) hgiven (valueOf_of_mem distinct hmember).symm
  · exact .other (denotes_body member.1) unknown hvalue

/-- A written record is made of what its fields give. -/
theorem Decoder.Filling.reads_written {members : List (String × Value)} {text : List Char}
    {states : List String → σ}
    (h : Filling r (members.map Prod.fst) (valueOf write members) (fun _ => none) states)
    (distinct : (members.map Prod.fst).Nodup)
    (hobject : IsObject text
      (members.map fun member => (body member.1, (write member.2).toList))) :
    (record r).Reads text (complete r (states (members.map Prod.fst))) := by
  have all : (members.map Prod.fst).filter (· ∈ members.map Prod.fst) = members.map Prod.fst :=
    List.filter_eq_self.mpr fun name hname => by simpa using hname
  have known : ∀ member ∈ members, member.1 ∈ members.map Prod.fst :=
    fun _ => List.mem_map_of_mem
  have read := h.reads_object hobject
    (forall₂_isEntry distinct fun member hmember => .inl (known member hmember)) (by rwa [all])
  rw [all, fill_none] at read
  exact read

end LineLexer.Json
