import LineLexer.Proofs.Json.Misfits
import LineLexer.Proofs.Json.RoundTrip
import LineLexer.Token.Json

/-!
# Labels in documents

A category and a modifier are written by their labels. They are read from every literal that
denotes the label, and from an object whose only key it is; a list of modifiers gives the set of
those that it names.
-/

namespace LineLexer

open Json Decoder

variable {text : List Char} {labels : List Modifier}

/-! ## Labels -/

/-- A text gives a label: it is a literal that denotes the label, or an object whose only member is
a null under that key. -/
inductive SpellsLabel (label : String) : List Char → Prop where
  | literal {body : List Char} (h : Denotes body label.toList) : SpellsLabel label (literal body)
  | object {body text : List Char} (h : IsObject text [(body, nullWord)])
      (hbody : Denotes body label.toList) : SpellsLabel label text

/-- A label is read as the value of a table that has it as its key. -/
theorem SpellsLabel.reads {α : Type} {label : String} (table : List (String × α))
    (h : SpellsLabel label text) : (variant table).Reads text (choose table label) := by
  cases h with
  | literal h => exact .variant_literal table h
  | object h hbody => exact .variant_object table h hbody

/-! ## Categories -/

/-- Documents spell a category as its label. -/
theorem Category.key_eq_toLabel (c : Category) : c.key = c.toLabel := by
  cases c <;> decide +kernel

/-- Different categories have different labels. -/
theorem Category.nodup_labels : (all.map toLabel).Nodup := by
  decide

/-- Documents look a category up under its label. -/
theorem Category.table_eq : table = all.map fun c => (c.toLabel, c) := by
  unfold table
  rw [show key = toLabel from funext key_eq_toLabel]

/-- Every category is in the table under its label. -/
theorem Category.choose_table (c : Category) : choose table c.toLabel = .ok c := by
  rw [table_eq]
  exact choose_map nodup_labels (mem_all c)

/-- A category is read from its label. -/
theorem Category.reads {c : Category} (h : SpellsLabel c.toLabel text) :
    decoder.Reads text (.ok c) := by
  have read := h.reads table
  rwa [choose_table] at read

/-- A written category is a label. -/
theorem Category.spellsLabel_toValue (c : Category) :
    SpellsLabel c.toLabel c.toValue.compact.toList := by
  show SpellsLabel c.toLabel (quoted c.key).toList
  rw [toList_quoted, key_eq_toLabel]
  exact .literal (denotes_body _)

/-! ## Modifiers -/

/-- Documents spell a modifier as its label. -/
theorem Modifier.key_eq_toLabel (m : Modifier) : m.key = m.toLabel := by
  cases m <;> decide +kernel

/-- Different modifiers have different labels. -/
theorem Modifier.nodup_labels : (all.map toLabel).Nodup := by
  decide

/-- Documents look a modifier up under its label. -/
theorem Modifier.table_eq : table = all.map fun m => (m.toLabel, m) := by
  unfold table
  rw [show key = toLabel from funext key_eq_toLabel]

/-- Every modifier is in the table under its label. -/
theorem Modifier.choose_table (m : Modifier) : choose table m.toLabel = .ok m := by
  rw [table_eq]
  exact choose_map nodup_labels (mem_all m)

/-- A modifier is read from its label. -/
theorem Modifier.reads {m : Modifier} (h : SpellsLabel m.toLabel text) :
    decoder.Reads text (.ok m) := by
  have read := h.reads table
  rwa [choose_table] at read

/-- A written modifier is a label. -/
theorem Modifier.spellsLabel_toValue (m : Modifier) :
    SpellsLabel m.toLabel m.toValue.compact.toList := by
  show SpellsLabel m.toLabel (quoted m.key).toList
  rw [toList_quoted, key_eq_toLabel]
  exact .literal (denotes_body _)

/-! ## Sets of modifiers -/

/-- A text is a list of the labels of modifiers. -/
def SpellsLabels (labels : List Modifier) (text : List Char) : Prop :=
  ∃ items, IsList text items ∧
    List.Forall₂ (fun item m => SpellsLabel (Modifier.toLabel m) item) items labels

/-- A written list of modifiers is a list of labels. -/
theorem spellsLabels_compact (labels : List Modifier) :
    SpellsLabels labels (Value.list (labels.map Modifier.toValue)).compact.toList := by
  refine ⟨_, isList_compact _, ?_⟩
  rw [List.map_map, List.forall₂_map_left_iff, List.forall₂_same]
  exact fun m _ => m.spellsLabel_toValue

namespace ModifierSet

/-- What has been inserted one by one is in the set, and what has been there before. -/
theorem contains_foldl_insert (s : ModifierSet) (labels : List Modifier) (m : Modifier) :
    (labels.foldl insert s).contains m = (s.contains m || decide (m ∈ labels)) := by
  induction labels generalizing s with
  | nil => simp
  | cons first labels ih =>
    rw [List.foldl_cons, ih, contains_insert]
    simp [Bool.or_assoc]

/-- The set of a list has the members of the list. -/
theorem contains_ofList (labels : List Modifier) (m : Modifier) :
    (ofList labels).contains m = decide (m ∈ labels) := by
  unfold ofList
  rw [contains_foldl_insert, contains_empty, Bool.false_or]

/-- The set is read that has the members of the list. -/
theorem reads (h : SpellsLabels labels text) : decoder.Reads text (.ok (ofList labels)) := by
  obtain ⟨items, hlist, each⟩ := h
  have list : (Decoder.list Modifier.decoder).Reads text (.ok labels) :=
    .list_ok hlist (each.imp fun _ _ label => Modifier.reads label)
  exact list.bind_pure ofList

/-- Something definite is made of every value where a set of modifiers is wanted. -/
theorem settles : Settles decoder := by
  intro text h
  have members : Settles (Decoder.list Modifier.decoder) :=
    Settles.list (settles_variant Modifier.table)
  obtain ⟨result, list⟩ := members h
  exact ⟨result.map ofList, list.bind_pure ofList⟩

end ModifierSet

end LineLexer
