import LineLexer.Json.Value
import LineLexer.Proofs.Json.Grammar

/-!
# Written documents are documents

What is written obeys the grammar: a text becomes a literal that denotes it, a number its decimal
digits, and a list or an object has the written items between its brackets, whether or not each
stands on a line of its own.
-/

namespace LineLexer.Json

/-! ## Strings and numbers -/

/-- The two digits behind `\u00` write a control character. -/
theorem spellsUnit_control {c : Char} (h : c < ' ') :
    SpellsUnit ['0', '0', Nat.digitChar (c.toNat / 16), Nat.digitChar (c.toNat % 16)] c.toNat := by
  have small : c.toNat < 32 := h
  have zero : IsHexDigit '0' 0 := ⟨by decide, .inl rfl⟩
  have digits := SpellsUnit.digits zero zero (c := Nat.digitChar (c.toNat / 16))
    (d := Nat.digitChar (c.toNat % 16)) ⟨by omega, .inl rfl⟩ ⟨by omega, .inl rfl⟩
  have number : ((0 * 16 + 0) * 16 + c.toNat / 16) * 16 + c.toNat % 16 = c.toNat := by omega
  rwa [number] at digits

/-- A character is written as one of its spellings. -/
theorem spellsChar_escape (c : Char) : SpellsChar (escape c) c := by
  unfold escape
  split_ifs with quote backslash backspace feed line carriage tab control
  · subst quote
    exact .short (by decide)
  · subst backslash
    exact .short (by decide)
  · subst backspace
    exact .short (by decide)
  · subst feed
    exact .short (by decide)
  · subst line
    exact .short (by decide)
  · subst carriage
    exact .short (by decide)
  · subst tab
    exact .short (by decide)
  · exact .unit (spellsUnit_control control)
  · exact .plain ⟨Char.not_lt.mp control, quote, backslash⟩

/-- What stands between the quotes of a written text. -/
def body (text : String) : List Char :=
  text.toList.flatMap escape

/-- A text is written as a literal that denotes it. -/
theorem denotes_body (text : String) : Denotes (body text) text.toList := by
  unfold body
  induction text.toList with
  | nil => exact .nil
  | cons c chars ih => exact .cons (spellsChar_escape c) ih

/-- A text is written as a literal. -/
theorem toList_quoted (text : String) : (quoted text).toList = literal (body text) := by
  simp [quoted, literal, body]

/-- A number is written in its decimal digits. -/
theorem toList_number (n : Nat) : (toString n).toList = Nat.toDigits 10 n :=
  Nat.toList_repr

/-! ## Brackets -/

/-- Texts with commas between them, blanks in front of each and blanks behind the last one. -/
theorem separated_intercalate {front back : List Char} (hfront : Blank front) (hback : Blank back)
    (item : List Char) (items : List (List Char)) :
    Separated ([','].intercalate ((item :: items).map (front ++ ·)) ++ back) (item :: items) := by
  induction items generalizing item with
  | nil =>
    have last : Separated (front ++ (item ++ back)) [item] := .one hfront hback
    simpa using last
  | cons next items ih =>
    have more : Separated (front ++ (item ++ ([] ++ ',' :: _))) (item :: next :: items) :=
      .cons hfront .nil (ih next)
    rw [List.map_cons, List.intercalate_cons_of_ne_nil (by simp)]
    simpa using more

variable {opening closing : String} {first last : Char}

/-- The characters of parts between brackets. -/
theorem toList_enclose (hopening : opening.toList = [first]) (parts : List String) :
    (enclose opening closing parts).toList =
      first :: ([','].intercalate (parts.map String.toList) ++ closing.toList) := by
  simp [enclose, hopening]

/-- Parts without blanks between brackets are the items of a bracketed text. -/
theorem bracketed_enclose (hopening : opening.toList = [first]) (hclosing : closing.toList = [last])
    (parts : List String) :
    Bracketed first last (enclose opening closing parts).toList (parts.map String.toList) := by
  rw [toList_enclose hopening, hclosing]
  cases parts with
  | nil => exact .none .nil
  | cons part parts =>
    have separated := separated_intercalate .nil .nil part.toList (parts.map String.toList)
    rw [List.append_nil, show (([] : List Char) ++ ·) = id from rfl, List.map_id] at separated
    exact .some separated

/-- A line break and the indentation behind it are blank. -/
theorem blank_newline (level : Nat) : Blank (newline level).toList := by
  intro c hc
  simp only [newline, String.toList_append, String.toList_ofList, List.mem_append,
    List.mem_replicate] at hc
  obtain hc | ⟨_, rfl⟩ := hc
  · have line : ∀ c ∈ "\n".toList, c ∈ blankChars := by decide
    exact line c hc
  · decide

/-- Parts on lines of their own between brackets are the items of a bracketed text. -/
theorem bracketed_encloseLines (hopening : opening.toList = [first])
    (hclosing : closing.toList = [last]) (level : Nat) (parts : List String) :
    Bracketed first last (encloseLines level opening closing parts).toList
      (parts.map String.toList) := by
  unfold encloseLines
  cases parts with
  | nil =>
    rw [List.isEmpty_nil, if_pos rfl, String.toList_append, hopening, hclosing]
    exact .none .nil
  | cons part parts =>
    have separated := separated_intercalate (blank_newline (level + 1)) (blank_newline level)
      part.toList (parts.map String.toList)
    have texts : ((part :: parts).map (newline (level + 1) ++ ·)).map String.toList =
        ((part :: parts).map String.toList).map ((newline (level + 1)).toList ++ ·) := by
      simp
    rw [List.isEmpty_cons, if_neg Bool.false_ne_true, toList_enclose hopening, texts,
      String.toList_append, hclosing, ← List.append_assoc]
    exact .some separated

/-! ## Lists and objects -/

/-- The items of a list are written one by one. -/
theorem compactItems_eq_map (items : List Value) :
    compactItems items = items.map Value.compact := by
  induction items with
  | nil => rfl
  | cons item items ih => rw [compactItems, ih, List.map_cons]

/-- The members of an object are written one by one. -/
theorem compactMembers_eq_map (members : List (String × Value)) :
    compactMembers members =
      members.map fun member => quoted member.1 ++ ":" ++ member.2.compact := by
  induction members with
  | nil => rfl
  | cons member members ih => rw [compactMembers, ih, List.map_cons]

/-- The items of a list on lines of their own are written one by one. -/
theorem indentedItems_eq_map (level : Nat) (items : List Value) :
    indentedItems level items = items.map (Value.indented level) := by
  induction items with
  | nil => rfl
  | cons item items ih => rw [indentedItems, ih, List.map_cons]

/-- The members of an object on lines of their own are written one by one. -/
theorem indentedMembers_eq_map (level : Nat) (members : List (String × Value)) :
    indentedMembers level members =
      members.map fun member => quoted member.1 ++ ": " ++ member.2.indented level := by
  induction members with
  | nil => rfl
  | cons member members ih => rw [indentedMembers, ih, List.map_cons]

/-- A list without blanks. -/
theorem isList_compact (items : List Value) :
    IsList (Value.list items).compact.toList (items.map fun item => item.compact.toList) := by
  have list : IsList (enclose "[" "]" (items.map Value.compact)).toList
      ((items.map Value.compact).map String.toList) := bracketed_enclose rfl rfl _
  rw [List.map_map] at list
  rw [Value.compact, compactItems_eq_map]
  exact list

/-- A list with its items on lines of their own. -/
theorem isList_indented (level : Nat) (items : List Value) :
    IsList ((Value.list items).indented level).toList
      (items.map fun item => (item.indented (level + 1)).toList) := by
  have list : IsList (encloseLines level "[" "]" (items.map (Value.indented (level + 1)))).toList
      ((items.map (Value.indented (level + 1))).map String.toList) :=
    bracketed_encloseLines rfl rfl level _
  rw [List.map_map] at list
  rw [Value.indented, indentedItems_eq_map]
  exact list

/-- The members of an object that are written with the same text between key and value. -/
theorem forall₂_isMember {colon : String} {blanks : List Char}
    (hcolon : colon.toList = ':' :: blanks) (hblanks : Blank blanks) (write : Value → String)
    (members : List (String × Value)) :
    List.Forall₂ IsMember
      ((members.map fun member => quoted member.1 ++ colon ++ write member.2).map String.toList)
      (members.map fun member => (body member.1, (write member.2).toList)) := by
  induction members with
  | nil => exact .nil
  | cons member members ih =>
    have parts : IsMember
        (literal (body member.1) ++ ([] ++ ':' :: (blanks ++ (write member.2).toList)))
        (body member.1, (write member.2).toList) := .parts .nil hblanks
    refine .cons ?_ ih
    simpa [toList_quoted, hcolon] using parts

/-- An object without blanks. -/
theorem isObject_compact (members : List (String × Value)) :
    IsObject (Value.object members).compact.toList
      (members.map fun member => (body member.1, member.2.compact.toList)) := by
  rw [Value.compact, compactMembers_eq_map]
  exact ⟨_, bracketed_enclose rfl rfl _, forall₂_isMember rfl .nil Value.compact members⟩

/-- An object with its members on lines of their own. -/
theorem isObject_indented (level : Nat) (members : List (String × Value)) :
    IsObject ((Value.object members).indented level).toList
      (members.map fun member => (body member.1, (member.2.indented (level + 1)).toList)) := by
  have blank : Blank [' '] := by
    intro c hc
    obtain rfl := List.mem_singleton.mp hc
    decide
  rw [Value.indented, indentedMembers_eq_map]
  exact ⟨_, bracketed_encloseLines rfl rfl level _,
    forall₂_isMember rfl blank (Value.indented (level + 1)) members⟩

end LineLexer.Json
