import LineLexer.Legend
import LineLexer.Proofs.LabelDocuments
import Mathlib.Data.Finset.Card
import Mathlib.Data.Finset.Dedup

/-!
# Sets of modifiers as finite sets

A set of modifiers is held as a mask, but to those who use it it is the finite set of its members.
`ModifierSet.Represents` ties the two by membership alone, and every change keeps the tie,
`Represents.apply`. Whatever else is asked of the set has then the answer that the finite set gives,
`Represents.answersAs`. The main statement is `ModifierSet.answersAs_applyAll`.
-/

namespace LineLexer

open Json

namespace Modifier

/-- The label of a modifier needs no escapes. -/
theorem compact_toValue (m : Modifier) : m.toValue.compact = "\"" ++ m.toLabel ++ "\"" := by
  cases m <;> decide +kernel

end Modifier

/-- A list names the members of a finite set, each once and in the order of the legend. -/
structure InLegendOrder (listing : List Modifier) (members : Finset Modifier) : Prop where
  mem_iff (m : Modifier) : m ∈ listing ↔ m ∈ members
  nodup : listing.Nodup
  ordered : (listing.map Modifier.toLabel).Sublist Legend.modifiers

namespace ModifierSet

variable {s t : ModifierSet} {members : Finset Modifier}

/-! ## Changes -/

/-- A change of a set of modifiers. An insertion may be told to say whether the set has grown, which
is then called an addition. -/
inductive Edit where
  | clear
  | replace (m : Modifier)
  | insert (m : Modifier)
  | add (m : Modifier)
  | remove (m : Modifier)

namespace Edit

/-- A set after a change. -/
def apply (s : ModifierSet) : Edit → ModifierSet
  | clear => empty
  | replace m => singleton m
  | insert m => s.insert m
  | add m => (s.add m).2
  | remove m => (s.remove m).2

/-- A finite set after a change. -/
def applyTo (members : Finset Modifier) : Edit → Finset Modifier
  | clear => ∅
  | replace m => {m}
  | insert m => Insert.insert m members
  | add m => Insert.insert m members
  | remove m => members.erase m

/-- The only modifier that a change is about, if it is not about the whole set. -/
def modifier? : Edit → Option Modifier
  | clear => none
  | replace _ => none
  | insert m => some m
  | add m => some m
  | remove m => some m

end Edit

/-- The set that a sequence of changes makes of the empty one. -/
def applyAll (edits : List Edit) : ModifierSet :=
  edits.foldl Edit.apply empty

/-- The finite set that a sequence of changes makes of the empty one. -/
def membersAfter (edits : List Edit) : Finset Modifier :=
  edits.foldl Edit.applyTo ∅

/-! ## Members -/

/-- The members of a set of modifiers are those of a finite set. -/
def Represents (s : ModifierSet) (members : Finset Modifier) : Prop :=
  ∀ m, s.contains m = true ↔ m ∈ members

theorem represents_empty : Represents empty ∅ := by
  intro m
  simp [contains_empty]

theorem Represents.insert (h : Represents s members) (m : Modifier) :
    Represents (s.insert m) (Insert.insert m members) := by
  intro n
  rw [contains_insert, Bool.or_eq_true, decide_eq_true_iff, h n, Finset.mem_insert, or_comm]

theorem Represents.erase (h : Represents s members) (m : Modifier) :
    Represents (s.erase m) (members.erase m) := by
  intro n
  rw [contains_erase, Bool.and_eq_true, h n, Bool.not_eq_true', decide_eq_false_iff_not,
    Finset.mem_erase, and_comm]

/-- A change of a set is the same change of the finite set of its members. -/
theorem Represents.apply (h : Represents s members) (edit : Edit) :
    Represents (edit.apply s) (edit.applyTo members) := by
  cases edit with
  | clear => exact represents_empty
  | replace m => exact represents_empty.insert m
  | insert m => exact h.insert m
  | add m => exact h.insert m
  | remove m => exact h.erase m

/-- A sequence of changes keeps to the finite set of the members. -/
theorem Represents.foldl (h : Represents s members) (edits : List Edit) :
    Represents (edits.foldl Edit.apply s) (edits.foldl Edit.applyTo members) := by
  induction edits generalizing s members with
  | nil => exact h
  | cons edit edits ih => exact ih (h.apply edit)

theorem represents_ofList (labels : List Modifier) :
    Represents (ofList labels) labels.toFinset := by
  intro m
  rw [contains_ofList, decide_eq_true_iff, List.mem_toFinset]

/-- The members of a set tell it from every other one. -/
theorem Represents.unique (hs : Represents s members) (ht : Represents t members) : s = t :=
  ext_contains fun m => Bool.eq_iff_iff.mpr ((hs m).trans (ht m).symm)

/-- A change that is about one modifier says nothing about the others. -/
theorem contains_apply_of_ne {edit : Edit} {m n : Modifier} (h : edit.modifier? = some m)
    (other : n ≠ m) : (edit.apply s).contains n = s.contains n := by
  have inserted : (s.insert m).contains n = s.contains n := by
    rw [contains_insert, decide_eq_false other, Bool.or_false]
  have erased : (s.erase m).contains n = s.contains n := by
    rw [contains_erase, decide_eq_false other, Bool.not_false, Bool.and_true]
  cases edit with
  | clear => cases h
  | replace _ => cases h
  | insert _ => cases h; exact inserted
  | add _ => cases h; exact inserted
  | remove _ => cases h; exact erased

/-! ## Answers -/

/-- The bits of a mask are counted from the lowest one on. -/
theorem cpopNatRec_eq_card {width : Nat} (mask : BitVec width) (n : Nat) :
    mask.cpopNatRec n 0 = ((Finset.range n).filter fun place => mask.getLsbD place).card := by
  induction n with
  | zero => rfl
  | succ n ih =>
      have above : n ∉ (Finset.range n).filter fun place => mask.getLsbD place := by simp
      rw [BitVec.cpopNatRec_succ, BitVec.cpopNatRec_eq, ih, Finset.range_add_one,
        Finset.filter_insert]
      cases mask.getLsbD n with
      | false => simp
      | true =>
          rw [if_pos rfl, Finset.card_insert_of_notMem above]
          rfl

/-- The set bits are the places of the members. -/
theorem Represents.image_index (h : Represents s members) :
    members.image Modifier.index = (Finset.range 8).filter fun place => s.mask.getLsbD place := by
  ext place
  rw [Finset.mem_image, Finset.mem_filter, Finset.mem_range]
  constructor
  · rintro ⟨m, hm, rfl⟩
    rw [← contains_eq_getLsbD]
    exact ⟨m.index_lt, (h m).mpr hm⟩
  · rintro ⟨inside, set⟩
    obtain ⟨m, rfl⟩ := exists_index_eq inside
    rw [← contains_eq_getLsbD] at set
    exact ⟨m, (h m).mp set, rfl⟩

/-- The set bits are as many as the members. -/
theorem Represents.size_eq (h : Represents s members) : s.size = members.card := by
  have places : (members.image Modifier.index).card = members.card :=
    Finset.card_image_of_injective members fun _ _ => Modifier.index_inj
  rw [← places, h.image_index, ← cpopNatRec_eq_card, size, BitVec.toNat_cpop]

/-- Only the empty set has no set bits. -/
theorem isEmpty_iff : s.isEmpty = true ↔ s = empty := by
  obtain ⟨mask⟩ := s
  simp [isEmpty, empty]

/-- A set is written as the labels of its members between brackets. -/
theorem compact_toValue (s : ModifierSet) :
    s.toValue.compact =
      "[" ++ ",".intercalate (s.toList.map fun m => "\"" ++ m.toLabel ++ "\"") ++ "]" := by
  have items : compactItems (s.toList.map Modifier.toValue) =
      s.toList.map fun m => "\"" ++ m.toLabel ++ "\"" := by
    rw [compactItems_eq_map, List.map_map]
    exact List.map_congr_left fun m _ => m.compact_toValue
  rw [toValue, Value.compact, items]
  rfl

/-- A set of modifiers gives the answers of a finite set, and all its texts follow the order of the
legend. -/
structure AnswersAs (s : ModifierSet) (members : Finset Modifier) : Prop where
  contains_iff (m : Modifier) : s.contains m = true ↔ m ∈ members
  add_iff (m : Modifier) : (s.add m).1 = true ↔ m ∉ members
  remove_iff (m : Modifier) : (s.remove m).1 = true ↔ m ∈ members
  size_eq : s.size = members.card
  isEmpty_iff : s.isEmpty = true ↔ members = ∅
  toList_inLegendOrder : InLegendOrder s.toList members
  render_eq : s.render = "[" ++ ", ".intercalate (s.toList.map Modifier.toLabel) ++ "]"
  compact_eq : s.toValue.compact =
    "[" ++ ",".intercalate (s.toList.map fun m => "\"" ++ m.toLabel ++ "\"") ++ "]"

/-- The members are listed in the order of the legend. -/
theorem Represents.inLegendOrder (h : Represents s members) : InLegendOrder s.toList members where
  mem_iff m := mem_toList.trans (h m)
  nodup := List.Nodup.filter _ (List.Nodup.of_map _ Modifier.nodup_labels)
  ordered := by
    rw [Legend.modifiers_eq]
    exact List.filter_sublist.map _

/-- All answers follow from the members. -/
theorem Represents.answersAs (h : Represents s members) : AnswersAs s members where
  contains_iff := h
  add_iff m := by
    show (!s.contains m) = true ↔ m ∉ members
    rw [Bool.not_eq_true', ← Bool.not_eq_true, h m]
  remove_iff := h
  size_eq := h.size_eq
  isEmpty_iff := by
    rw [ModifierSet.isEmpty_iff]
    constructor
    · rintro rfl
      refine Finset.eq_empty_of_forall_notMem fun m hm => ?_
      simpa [contains_empty] using (h m).mpr hm
    · rintro rfl
      exact h.unique represents_empty
  toList_inLegendOrder := h.inLegendOrder
  render_eq := rfl
  compact_eq := s.compact_toValue

/-- After every sequence of changes a set of modifiers gives the answers of the finite set that the
same changes make, and so does the set of a list, whatever the order of the list and however often
it names a modifier; it is also the set that is read from a document with the labels of the list.
The members alone tell sets apart. A change that is about one modifier leaves the other members and
adds none. -/
theorem answersAs_applyAll :
    (∀ edits, AnswersAs (applyAll edits) (membersAfter edits)) ∧
      (∀ labels, AnswersAs (ofList labels) labels.toFinset) ∧
      (∀ labels document, Decoder.IsDocument (SpellsLabels labels) document →
        decoder.read document = .ok (ofList labels)) ∧
      (∀ s t members, AnswersAs s members → AnswersAs t members → s = t) ∧
      ∀ edits edit m n, Edit.modifier? edit = some m → n ≠ m →
        (applyAll (edits ++ [edit])).contains n = (applyAll edits).contains n := by
  refine ⟨fun edits => (represents_empty.foldl edits).answersAs,
    fun labels => (represents_ofList labels).answersAs, ?_, ?_, ?_⟩
  · rintro labels _ ⟨before, text, after, hbefore, spelled, hafter, rfl⟩
    exact (ModifierSet.reads spelled).read hbefore hafter
  · intro s t members hs ht
    exact Represents.unique hs.contains_iff ht.contains_iff
  · intro edits edit m n h other
    rw [applyAll, List.foldl_append]
    exact contains_apply_of_ne h other

/-- Seven changes, of which some change nothing, make the set of a document with the same three
labels in another order. Removing one of them keeps another one. -/
theorem answersAs_applyAll_mixed :
    let edits : List Edit :=
      [.add .static, .replace .async, .insert .declaration, .add .declaration, .remove .static,
        .remove .static, .insert .static]
    membersAfter edits = {.declaration, .static, .async} ∧ (applyAll edits).size = 3 ∧
      (applyAll edits).render = "[declaration, static, async]" ∧
      decoder.read "[\"async\",\"static\",\"async\",\"declaration\"]" = .ok (applyAll edits) ∧
      (applyAll (edits ++ [.remove .async])).contains .static = true := by
  intro edits
  let labels : List Modifier := [.async, .static, .async, .declaration]
  obtain ⟨changed, collected, documents, alone, others⟩ := answersAs_applyAll
  have members : membersAfter edits = {.declaration, .static, .async} := by decide
  have same : labels.toFinset = membersAfter edits := by decide
  have read : decoder.read "[\"async\",\"static\",\"async\",\"declaration\"]" =
      .ok (ofList labels) :=
    documents labels _ ⟨[], _, [], .nil, spellsLabels_compact labels, .nil, by decide +kernel⟩
  refine ⟨members, ?_, ?_, ?_, ?_⟩
  · rw [(changed edits).size_eq, members]
    rfl
  · rw [(changed edits).render_eq]
    decide +kernel
  · rw [read, alone _ _ _ (collected labels) (same ▸ changed edits)]
  · rw [others edits (.remove .async) .async .static rfl (by decide)]
    exact ((changed edits).contains_iff .static).mpr (by decide)

end ModifierSet

end LineLexer
