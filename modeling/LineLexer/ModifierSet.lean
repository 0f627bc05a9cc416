import LineLexer.Modifier

/-!
# Sets of modifiers

A set of modifiers is a mask of eight bits, one for each modifier. `toList` lists the members in
the order of the legend, each once, and every text of a set follows that list.
-/

namespace LineLexer

/-- A set of modifiers, held as one bit for each of them. -/
structure ModifierSet where
  mask : BitVec 8 := 0
  deriving DecidableEq, Repr, Inhabited

namespace ModifierSet

/-- The bit of a modifier. -/
def bit (m : Modifier) : BitVec 8 :=
  1#8 <<< m.index

/-- The set without members. -/
def empty : ModifierSet := {}

/-- The set has a given member. -/
def contains (s : ModifierSet) (m : Modifier) : Bool :=
  s.mask &&& bit m != 0

/-- The set with one more member. -/
def insert (s : ModifierSet) (m : Modifier) : ModifierSet :=
  ⟨s.mask ||| bit m⟩

/-- The set with one member less. -/
def erase (s : ModifierSet) (m : Modifier) : ModifierSet :=
  ⟨s.mask &&& ~~~bit m⟩

/-- Insert a member and say whether the set has grown. -/
def add (s : ModifierSet) (m : Modifier) : Bool × ModifierSet :=
  (!s.contains m, s.insert m)

/-- Erase a member and say whether the set has shrunk. -/
def remove (s : ModifierSet) (m : Modifier) : Bool × ModifierSet :=
  (s.contains m, s.erase m)

/-- The set with a single member. -/
def singleton (m : Modifier) : ModifierSet :=
  empty.insert m

/-- The set of the modifiers in a list. -/
def ofList (modifiers : List Modifier) : ModifierSet :=
  modifiers.foldl insert empty

/-- The members in the order of the legend. -/
def toList (s : ModifierSet) : List Modifier :=
  Modifier.all.filter s.contains

/-- The number of members. -/
def size (s : ModifierSet) : Nat :=
  s.mask.cpop.toNat

/-- The set has no members. -/
def isEmpty (s : ModifierSet) : Bool :=
  s.mask == 0

/-- The labels of the members, in brackets. -/
def render (s : ModifierSet) : String :=
  "[" ++ ", ".intercalate (s.toList.map Modifier.toLabel) ++ "]"

/-- The names of the members, in braces. -/
def inspect (s : ModifierSet) : String :=
  "\x7b" ++ ", ".intercalate (s.toList.map Modifier.name) ++ "\x7d"

/-! ## Membership -/

/-- A member is a set bit. -/
theorem contains_eq_getLsbD (s : ModifierSet) (m : Modifier) :
    s.contains m = s.mask.getLsbD m.index := by
  obtain ⟨mask⟩ := s
  revert mask
  cases m <;> decide

/-- The empty set has no members. -/
theorem contains_empty (m : Modifier) : empty.contains m = false := by
  cases m <;> decide

/-- A bit stands for one modifier. -/
theorem getLsbD_bit (m n : Modifier) : (bit m).getLsbD n.index = decide (n = m) := by
  cases m <;> cases n <;> decide

/-- Inserting a modifier adds that member and no other. -/
theorem contains_insert (s : ModifierSet) (m n : Modifier) :
    (s.insert m).contains n = (s.contains n || decide (n = m)) := by
  simp only [contains_eq_getLsbD, insert, BitVec.getLsbD_or, getLsbD_bit]

/-- Erasing a modifier removes that member and no other. -/
theorem contains_erase (s : ModifierSet) (m n : Modifier) :
    (s.erase m).contains n = (s.contains n && !decide (n = m)) := by
  have inside : decide (n.index < 8) = true := decide_eq_true n.index_lt
  simp only [contains_eq_getLsbD, erase, BitVec.getLsbD_and, BitVec.getLsbD_not, getLsbD_bit,
    inside, Bool.true_and]

/-- The members are listed, and nothing else. -/
theorem mem_toList {s : ModifierSet} {m : Modifier} : m ∈ s.toList ↔ s.contains m = true := by
  simp [toList, Modifier.mem_all]

/-- Every bit of the mask stands for a modifier. -/
theorem exists_index_eq {place : Nat} (inside : place < 8) : ∃ m : Modifier, m.index = place := by
  have listed : ∀ place < 8, ∃ m ∈ Modifier.all, m.index = place := by decide
  obtain ⟨m, _, same⟩ := listed place inside
  exact ⟨m, same⟩

/-- Sets with the same members are the same. -/
theorem ext_contains {s t : ModifierSet} (same : ∀ m, s.contains m = t.contains m) : s = t := by
  obtain ⟨left⟩ := s
  obtain ⟨right⟩ := t
  congr
  apply BitVec.eq_of_getLsbD_eq
  intro place inside
  obtain ⟨m, rfl⟩ := exists_index_eq inside
  simpa only [contains_eq_getLsbD] using same m

end ModifierSet

end LineLexer
