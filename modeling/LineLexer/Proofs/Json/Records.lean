import LineLexer.Proofs.Json.Lists

/-!
# Reading records

A record that is written as an object comes down to its members in the order of the text, and one
that is written as a list to its fields in the order of declaration. If each field reads its value
in the same way whatever has been read before, the order makes no difference: this is what a
`Filling` says, from which the members and the fields are followed at once.
-/

namespace LineLexer.Json.Decoder

variable {α σ : Type} {ending : Ending} {text rest before inner item : List Char}
  {items : List (List Char)} {r : Record σ α} {state later : σ} {name : String}
  {key value : List Char} {members : List (List Char × List Char)} {result : Except Fault σ}

/-! ## Objects -/

/-- The value behind a key is read in a state. -/
def TakesValue (r : Record σ α) (state : σ) (name : String) (value : List Char)
    (result : Except Fault σ) : Prop :=
  ∀ {ending : Ending} {before behind rest : List Char}, Blank before → Blank behind →
    Ends ending rest →
    (memberValue r state name).Gives ending (before ++ ':' :: (behind ++ (value ++ rest))) result
      rest

/-- The value of an unknown key is passed over. -/
theorem takesValue_unknown (unknown : r.fields.find? (·.name == name) = none)
    (h : IsValue value) : TakesValue r state name value (.ok state) := by
  intro ending before behind rest hbefore hbehind hrest
  unfold memberValue
  rw [unknown]
  exact .bind (.punctuation hbefore)
    (.bind ((Reads.ignored h).gives hbehind hrest) (.pure state))

/-- The value of a field that has not been read is read. -/
theorem takesValue_field {field : Field σ} (known : r.fields.find? (·.name == name) = some field)
    (unread : field.isRead state = false) (h : (field.decode state).Reads value result) :
    TakesValue r state name value result := by
  intro ending before behind rest hbefore hbehind hrest
  unfold memberValue
  rw [known]
  simp only [unread, Bool.false_eq_true, if_false]
  exact .bind (.punctuation hbefore) (h.gives hbehind hrest)

/-- A field is not read a second time, whatever its value. -/
theorem takesValue_duplicate {field : Field σ}
    (known : r.fields.find? (·.name == name) = some field) (isRead : field.isRead state = true) :
    TakesValue r state name value (.error (.mismatch (.duplicateField field.name))) := by
  intro ending before behind rest _ _ _
  unfold memberValue
  rw [known]
  simp only [isRead, if_true]
  exact .reject

/-- A round of reading an object takes a member. -/
theorem TakesValue.takesItem (h : TakesValue r state name value result)
    (hitem : IsMember item (key, value)) (hkey : Denotes key name.toList) (isFirst : Bool) :
    TakesItem (memberStep r) Prod.fst (isFirst, state) item (result.map (false, ·)) := by
  cases hitem with | @parts _ front back _ hfront hback
  refine ⟨fun {ending before behind rest} hbefore hbehind hrest => ?_, fun same => ?_,
    .cons _ (by decide)⟩
  · have rearranged : literal key ++ (front ++ ':' :: (back ++ value)) ++ rest =
        '"' :: (key ++ '"' :: (front ++ ':' :: (back ++ (value ++ rest)))) := by
      simp [literal]
    have taken : (memberValue r state name).Gives ending
        (front ++ ':' :: (back ++ (value ++ rest))) result rest := h hfront hback hrest
    -- Behind the opening quote the same is done whether or not there is a comma in front.
    have member : Gives (do
        let name ← literalText
        let state ← memberValue r state name
        Pure.pure (.inl (false, state))) ending
        (key ++ '"' :: (front ++ ':' :: (back ++ (value ++ rest))))
        ((result.map (false, ·)).map (Sum.inl : Bool × σ → (Bool × σ) ⊕ σ)) rest := by
      refine .bind (.literalText hkey) ?_
      cases result with
      | error fault => exact .stop taken
      | ok later => exact .bind taken (.pure _)
    rw [rearranged]
    cases isFirst with
    | true =>
      show (memberStep r (true, state)).Gives ending (before ++ (behind ++ _)) _ _
      rw [← List.append_assoc]
      refine .bind (.significant (hbefore.append hbehind)) ?_
      rw [if_neg (by decide)]
      exact .bind (.punctuation .nil) member
    | false =>
      refine .bind (.significant hbefore) ?_
      rw [if_neg (by decide)]
      exact .bind (.punctuation .nil) (.bind (.punctuation hbehind) member)
  · cases result with
    | error fault => cases same
    | ok value =>
      cases same
      rfl

/-- A round of reading an object ends it at the closing brace. -/
theorem closes_members (r : Record σ α) : Closes (memberStep r) '\x7d' Prod.snd := by
  intro state ending before rest hbefore
  refine .bind (.significant hbefore) ?_
  rw [if_pos rfl]
  exact .bind .skip (.pure _)

/-- The members of an object are taken in the order of the text, up to the first one that does not
fit. -/
inductive TakesMembers (r : Record σ α) :
    σ → List (List Char × List Char) → Except Fault σ → Prop where
  | nil {state : σ} : TakesMembers r state [] (.ok state)
  | cons {state later : σ} {name : String} {key value : List Char}
      {members : List (List Char × List Char)} {result : Except Fault σ}
      (hkey : Denotes key name.toList) (head : TakesValue r state name value (.ok later))
      (tail : TakesMembers r later members result) :
      TakesMembers r state ((key, value) :: members) result
  | stop {state : σ} {name : String} {key value : List Char}
      {members : List (List Char × List Char)} {fault : Fault}
      (hkey : Denotes key name.toList) (head : TakesValue r state name value (.error fault)) :
      TakesMembers r state ((key, value) :: members) (.error fault)

/-- Members that fit are followed by the others. -/
theorem TakesMembers.append {others : List (List Char × List Char)}
    (h : TakesMembers r state members (.ok later)) (hothers : TakesMembers r later others result) :
    TakesMembers r state (members ++ others) result := by
  generalize hfound : (Except.ok later : Except Fault σ) = found at h
  induction h with
  | nil =>
    cases hfound
    exact hothers
  | cons hkey head _ ih => exact .cons hkey head (ih hfound)
  | stop => cases hfound

/-- The members of an object are the items between its braces. -/
theorem TakesMembers.takesItems (h : TakesMembers r state members result)
    (hitems : List.Forall₂ IsMember items members) (isFirst : Bool) :
    TakesItems (memberStep r) Prod.fst (isFirst, state) items
      (result.map fun state => (isFirst && members.isEmpty, state)) := by
  induction h generalizing items isFirst with
  | nil =>
    cases hitems
    rw [show (isFirst && List.isEmpty []) = isFirst from Bool.and_true _]
    exact .nil
  | cons hkey head _ ih =>
    cases hitems with | cons hitem hitems
    have others := ih hitems false
    rw [show (isFirst && List.isEmpty (_ :: _)) = false from Bool.and_false _]
    exact .cons (head.takesItem hitem hkey isFirst) others
  | stop hkey head =>
    cases hitems with | cons hitem hitems
    exact .stop (head.takesItem hitem hkey isFirst)

/-- The record made of a state, or the fault of a missing field. -/
def complete (r : Record σ α) (state : σ) : Except Fault α :=
  match r.finish state with
  | .ok value => .ok value
  | .error name => .error (.mismatch (.missingField name))

/-- A record that is written as an object is made of what its members give. -/
theorem TakesMembers.reads (h : TakesMembers r r.start members result)
    (hobject : IsObject text members) : (record r).Reads text (result.bind (complete r)) := by
  obtain ⟨items, hobject, hitems⟩ := hobject
  obtain ⟨inner, rfl, loops⟩ := Gives.loop_bracketed hobject (h.takesItems hitems true) rfl
    (by decide) (closes_members r)
  refine .of_accepted (.cons _ (by decide)) rfl rfl fun {ending rest} _ => ?_
  have states :
      (result.map fun state => (true && members.isEmpty, state)).map Prod.snd = result := by
    cases result <;> rfl
  have read : (loop (memberStep r) (true, r.start)).Gives ending (inner ++ rest) result rest := by
    rw [← states]
    exact loops
  refine .bind .skip ?_
  cases result with
  | error fault => exact .stop read
  | ok state =>
    refine .bind read ?_
    show Gives _ ending rest (complete r state) rest
    unfold complete
    cases r.finish state with
    | error name => exact .reject
    | ok value => exact .pure value

/-! ## Lists of values -/

/-- Values of fields are read in the order of declaration, up to the first one that does not fit.
There may be fewer values than fields. -/
inductive TakesFields : σ → List (Field σ) → List (List Char) → Except Fault σ → Prop where
  | nil {state : σ} {fields : List (Field σ)} : TakesFields state fields [] (.ok state)
  | cons {state later : σ} {field : Field σ} {fields : List (Field σ)} {item : List Char}
      {items : List (List Char)} {result : Except Fault σ}
      (head : (field.decode state).Reads item (.ok later))
      (tail : TakesFields later fields items result) :
      TakesFields state (field :: fields) (item :: items) result
  | stop {state : σ} {field : Field σ} {fields : List (Field σ)} {item : List Char}
      {items : List (List Char)} {fault : Fault}
      (head : (field.decode state).Reads item (.error fault)) :
      TakesFields state (field :: fields) (item :: items) (.error fault)

/-- Behind the last value the closing bracket is left, perhaps behind blanks. -/
theorem TakesFields.nil_gives (fields : List (Field σ)) (count : Nat) (hbefore : Blank before) :
    ∃ after, Blank after ∧ (positional state count fields).Gives ending (before ++ ']' :: rest)
      (.ok (state, count)) (after ++ ']' :: rest) := by
  cases fields with
  | nil => exact ⟨before, hbefore, .pure _⟩
  | cons field fields => exact ⟨[], .nil, .bind (.hasItem_close hbefore) (.pure _)⟩

/-- A value of a field is read behind the one before. -/
theorem Gives.positional_cons {field : Field σ} {fields : List (Field σ)} {count : Nat}
    {behind tail : List Char} {found : Except Fault (σ × Nat)}
    (h : (field.decode state).Reads item (.ok later)) (hbefore : Blank before)
    (hbehind : Blank behind) (hrest : Ends ending rest)
    (others : (positional later (count + 1) fields).Gives ending rest found tail) :
    (positional state count (field :: fields)).Gives ending
      (before ++ (lead (count == 0) ++ (behind ++ (item ++ rest)))) found tail := by
  have value : (field.decode state).Gives ending (item ++ rest) (.ok later) rest :=
    h.gives .nil hrest
  cases h.starts with | @cons c more hc
  exact .bind (.hasItem_item hc hbefore hbehind) (.bind value others)

/-- A value that does not fit ends the reading of fields. -/
theorem Gives.positional_stop {field : Field σ} {fields : List (Field σ)} {count : Nat}
    {behind tail : List Char} {fault : Fault}
    (h : (field.decode state).Reads item (.error fault)) (hbefore : Blank before)
    (hbehind : Blank behind) (hrest : Ends ending rest) :
    (positional state count (field :: fields)).Gives ending
      (before ++ (lead (count == 0) ++ (behind ++ (item ++ rest)))) (.error fault) tail := by
  have value : (field.decode state).Gives ending (item ++ rest) (.error fault) rest :=
    h.gives .nil hrest
  cases h.starts with | @cons c more hc
  exact .bind (.hasItem_item hc hbefore hbehind) (.stop value)

/-- The values of fields are read and counted. -/
theorem TakesFields.gives {fields : List (Field σ)} (count : Nat)
    (h : TakesFields state fields items result) (hinner : Separated inner items)
    (hbefore : Blank before) :
    ∃ after, Blank after ∧ (positional state count fields).Gives ending
      (before ++ (lead (count == 0) ++ (inner ++ ']' :: rest)))
      (result.map (·, count + items.length)) (after ++ ']' :: rest) := by
  induction hinner generalizing state count before fields with
  | @one behind item after hbehind hafter =>
    have hrest : Ends ending (after ++ ']' :: rest) := .blank_cons hafter
    simp only [List.append_assoc]
    cases h with
    | @cons _ later field fields _ _ _ head tail =>
      cases tail
      obtain ⟨left, hleft, close⟩ := TakesFields.nil_gives fields (count + 1) hafter
      exact ⟨left, hleft, .positional_cons head hbefore hbehind hrest close⟩
    | stop head => exact ⟨[], .nil, .positional_stop head hbefore hbehind hrest⟩
  | @cons behind item after more items hbehind hafter hmore ih =>
    have hrest : Ends ending (after ++ ',' :: (more ++ ']' :: rest)) :=
      .blank_cons hafter
    simp only [List.append_assoc, List.cons_append]
    cases h with
    | cons head tail =>
      obtain ⟨left, hleft, others⟩ := ih (count + 1) tail hafter
      rw [Nat.add_assoc, Nat.add_comm 1] at others
      exact ⟨left, hleft, .positional_cons head hbefore hbehind hrest others⟩
    | stop head => exact ⟨[], .nil, .positional_stop head hbefore hbehind hrest⟩

/-- The record made of a state, or the fault of there being too few values. -/
def completeList (r : Record σ α) (count : Nat) (state : σ) : Except Fault α :=
  match r.finish state with
  | .ok value => .ok value
  | .error _ =>
    .error (.mismatch (.tooShort count s!"{r.expected} with {r.fields.length} elements"))

/-- The values of a record that is written as a list are read behind the opening bracket. -/
theorem TakesFields.gives_bracketed {fields : List (Field σ)}
    (h : TakesFields state fields items result) (hlist : IsList text items) :
    ∃ inner, text = '[' :: inner ∧ ∀ {ending : Ending} {rest : List Char},
      ∃ after, Blank after ∧ (positional state 0 fields).Gives ending (inner ++ rest)
        (result.map (·, items.length)) (after ++ ']' :: rest) := by
  cases hlist with
  | none hbetween =>
    refine ⟨_, rfl, fun {ending rest} => ?_⟩
    cases h
    rw [List.append_assoc]
    exact TakesFields.nil_gives fields 0 hbetween
  | @some inner _ hinner =>
    refine ⟨_, rfl, fun {ending rest} => ?_⟩
    have values : ∃ after, Blank after ∧ (positional state 0 fields).Gives ending
        ([] ++ (lead (0 == 0) ++ (inner ++ ']' :: rest))) (result.map (·, 0 + items.length))
        (after ++ ']' :: rest) := h.gives 0 hinner .nil
    rw [Nat.zero_add] at values
    rw [List.append_assoc]
    exact values

/-- A record that is written as a list is made of what its values give. -/
theorem TakesFields.reads (h : TakesFields r.start r.fields items result)
    (hlist : IsList text items) :
    (record r).Reads text (result.bind (completeList r items.length)) := by
  obtain ⟨inner, rfl, values⟩ := h.gives_bracketed hlist
  refine .of_significant (.cons _ (by decide)) rfl fun {ending rest} _ => ?_
  obtain ⟨after, hafter, read⟩ := @values ending rest
  rw [if_neg (by decide), if_pos rfl]
  refine .bind .skip ?_
  cases result with
  | error fault => exact .stop read
  | ok state =>
    refine .bind read ?_
    show Gives _ ending _ (completeList r items.length state) rest
    unfold completeList
    dsimp only
    cases r.finish state with
    | error name => exact .reject
    | ok value => exact .bind (.punctuation hafter) (.pure value)

/-! ## Fillings -/

/-- The next state, or a fault in its place. -/
def reach (fault? : Option Fault) (state : σ) : Except Fault σ :=
  match fault? with
  | some fault => .error fault
  | none => .ok state

/-- A field goes along with values that are given by name: `fault?` tells which of them do not fit,
and `states` what has been collected once the fields of some names have been read. How a field reads
its value does not depend on what has been read before. -/
structure Fits (given : List String) (values : String → List Char)
    (fault? : String → Option Fault) (states : List String → σ) (field : Field σ) : Prop where
  isRead (seen : List String) : field.isRead (states seen) = decide (field.name ∈ seen)
  reads (hgiven : field.name ∈ given) (seen : List String) :
    (field.decode (states seen)).Reads (values field.name)
      (reach (fault? field.name) (states (seen ++ [field.name])))

/-- A field that is read by a decoder of its value goes along with that value. -/
theorem Fits.ofValue {β : Type} {d : Decoder β} {found : β} {name : String} {get : σ → Option β}
    {put : σ → β → σ} {given : List String} {values : String → List Char}
    {fault? : String → Option Fault} {states : List String → σ}
    (hget : ∀ seen, get (states seen) = if name ∈ seen then some found else none)
    (hput : ∀ seen, put (states seen) found = states (seen ++ [name]))
    (h : name ∈ given → d.Reads (values name) (reach (fault? name) found)) :
    Fits given values fault? states (Field.ofValue name get put d) where
  isRead seen := by
    show (get (states seen)).isSome = decide (name ∈ seen)
    rw [hget]
    split <;> simp_all
  reads hgiven seen := by
    have read := (h hgiven).bind_pure (put (states seen))
    show Reads _ (values name) (reach (fault? name) (states (seen ++ [name])))
    rw [← hput]
    cases fits : fault? name <;> rw [fits] at read <;> exact read

/-- Values for the fields of a record, by name, and what is collected of them. -/
structure Filling (r : Record σ α) (given : List String) (values : String → List Char)
    (fault? : String → Option Fault) (states : List String → σ) : Prop where
  start : states [] = r.start
  known {name : String} (h : name ∈ given) : name ∈ r.fields.map Field.name
  fits : ∀ field ∈ r.fields, Fits given values fault? states field

/-- What has been collected behind the values of some names, or the fault of the first one that
does not fit. -/
def fill (fault? : String → Option Fault) (state : List String → σ) (seen names : List String) :
    Except Fault σ :=
  reach (names.findSome? fault?) (state (seen ++ names))

variable {given seen names : List String} {values : String → List Char}
  {fault? : String → Option Fault} {states : List String → σ}

/-- Nothing is collected from no values. -/
theorem fill_nil : fill fault? states seen [] = .ok (states seen) := by
  simp [fill, reach]

/-- A value that does not fit is the first one. -/
theorem fill_cons_some {fault : Fault} (h : fault? name = some fault) :
    fill fault? states seen (name :: names) = .error fault := by
  simp [fill, reach, h]

/-- Behind a value that fits the others are read. -/
theorem fill_cons_none (h : fault? name = none) :
    fill fault? states seen (name :: names) = fill fault? states (seen ++ [name]) names := by
  simp [fill, reach, h]

/-- A member of an object is the value of a field, or a well-formed value under an unknown key. -/
inductive IsEntry (r : Record σ α) (given : List String) (values : String → List Char) :
    List Char × List Char → String → Prop where
  | field {key value : List Char} {name : String} (hkey : Denotes key name.toList)
      (h : name ∈ given) (same : value = values name) : IsEntry r given values (key, value) name
  | other {key value : List Char} {name : String} (hkey : Denotes key name.toList)
      (unknown : ∀ field ∈ r.fields, field.name ≠ name) (h : IsValue value) :
      IsEntry r given values (key, value) name

/-- The field of a name is found. -/
theorem Filling.exists_find? (h : Filling r given values fault? states) (hname : name ∈ given) :
    ∃ field, r.fields.find? (·.name == name) = some field ∧ field ∈ r.fields ∧
      field.name = name := by
  obtain ⟨field, hfield, same⟩ := List.mem_map.mp (h.known hname)
  cases found : r.fields.find? (·.name == name) with
  | none =>
    rw [List.find?_eq_none] at found
    exact absurd same (by simpa using found field hfield)
  | some other =>
    have matching := List.find?_some found
    exact ⟨other, rfl, List.mem_of_find?_eq_some found, beq_iff_eq.mp matching⟩

/-- The members of an object give what its fields give, in the order of the text. -/
theorem Filling.takesMembers (h : Filling r given values fault? states)
    (entries : List.Forall₂ (IsEntry r given values) members names)
    (distinct : (seen ++ names.filter (· ∈ given)).Nodup) :
    TakesMembers r (states seen) members (fill fault? states seen (names.filter (· ∈ given))) := by
  induction entries generalizing seen with
  | nil =>
    rw [List.filter_nil, fill_nil]
    exact .nil
  | @cons member name members names entry _ ih =>
    cases entry with
    | @other key value _ hkey unknown hvalue =>
      have notGiven : name ∉ given := by
        intro hgiven
        obtain ⟨field, hfield, same⟩ := List.mem_map.mp (h.known hgiven)
        exact unknown field hfield same
      have skipped : (name :: names).filter (· ∈ given) = names.filter (· ∈ given) :=
        List.filter_cons_of_neg (by simpa using notGiven)
      have absent : r.fields.find? (·.name == name) = none := by
        simpa using unknown
      rw [skipped] at distinct ⊢
      exact .cons hkey (takesValue_unknown absent hvalue) (ih distinct)
    | @field key _ _ hkey hgiven same =>
      subst same
      have kept : (name :: names).filter (· ∈ given) = name :: names.filter (· ∈ given) :=
        List.filter_cons_of_pos (by simpa using hgiven)
      rw [kept] at distinct ⊢
      obtain ⟨field, known, hfield, rfl⟩ := h.exists_find? hgiven
      have unread : field.isRead (states seen) = false := by
        rw [(h.fits field hfield).isRead, decide_eq_false_iff_not]
        exact fun hseen => (List.nodup_append.mp distinct).2.2 _ hseen _ List.mem_cons_self rfl
      have reads := (h.fits field hfield).reads hgiven seen
      cases fits : fault? field.name with
      | some fault =>
        rw [fits] at reads
        rw [fill_cons_some fits]
        exact .stop hkey (takesValue_field known unread reads)
      | none =>
        rw [fits] at reads
        rw [fill_cons_none fits]
        refine .cons hkey (takesValue_field known unread reads) (ih ?_)
        rwa [List.append_assoc]

/-- A record that is written as an object is made of what its fields give, in the order of the
text. -/
theorem Filling.reads_object (h : Filling r given values fault? states)
    (hobject : IsObject text members)
    (entries : List.Forall₂ (IsEntry r given values) members names)
    (distinct : (names.filter (· ∈ given)).Nodup) :
    (record r).Reads text
      ((fill fault? states [] (names.filter (· ∈ given))).bind (complete r)) := by
  have taken : TakesMembers r (states []) members
      (fill fault? states [] (names.filter (· ∈ given))) := h.takesMembers entries distinct
  rw [h.start] at taken
  exact taken.reads hobject

/-- The values behind some names all fit. -/
theorem fill_none : fill (fun _ => none) states seen names = .ok (states (seen ++ names)) := by
  rw [fill, List.findSome?_eq_none_iff.mpr fun _ _ => rfl]
  rfl

/-- A field is not read a second time, whatever its value and whatever follows. -/
theorem Filling.reads_duplicate {back : List (List Char × List Char)}
    (h : Filling r given values (fun _ => none) states)
    (hobject : IsObject text (members ++ (key, value) :: back))
    (entries : List.Forall₂ (IsEntry r given values) members names)
    (distinct : (names.filter (· ∈ given)).Nodup) (hkey : Denotes key name.toList)
    (hname : name ∈ given) (again : name ∈ names) :
    (record r).Reads text (.error (.mismatch (.duplicateField name))) := by
  have front : TakesMembers r (states []) members (.ok (states (names.filter (· ∈ given)))) := by
    have taken : TakesMembers r (states []) members
        (fill (fun _ => none) states [] (names.filter (· ∈ given))) :=
      h.takesMembers entries distinct
    rwa [fill_none] at taken
  obtain ⟨field, known, hfield, rfl⟩ := h.exists_find? hname
  have isRead : field.isRead (states (names.filter (· ∈ given))) = true := by
    rw [(h.fits field hfield).isRead, decide_eq_true_iff, List.mem_filter]
    exact ⟨again, decide_eq_true hname⟩
  have taken : TakesMembers r (states []) (members ++ (key, value) :: back)
      (.error (.mismatch (.duplicateField field.name))) :=
    front.append (.stop hkey (takesValue_duplicate known isRead))
  rw [h.start] at taken
  exact taken.reads hobject

/-- The values of a list give what its fields give, in the order of declaration. -/
theorem Filling.takesFields (h : Filling r given values fault? states) {fields : List (Field σ)}
    (hfields : ∀ field ∈ fields, field ∈ r.fields ∧ field.name ∈ given)
    (others : List (Field σ)) :
    TakesFields (states seen) (fields ++ others) (fields.map fun field => values field.name)
      (fill fault? states seen (fields.map Field.name)) := by
  induction fields generalizing seen with
  | nil =>
    rw [List.map_nil, List.map_nil, fill_nil]
    exact .nil
  | cons field fields ih =>
    obtain ⟨hfield, hgiven⟩ := hfields field (by simp)
    have reads := (h.fits field hfield).reads hgiven seen
    cases fits : fault? field.name with
    | some fault =>
      rw [fits] at reads
      rw [List.map_cons, List.map_cons, fill_cons_some fits]
      exact .stop reads
    | none =>
      rw [fits] at reads
      rw [List.map_cons, List.map_cons, fill_cons_none fits]
      exact .cons reads (ih fun other hother => hfields other (by simp [hother]))

/-- A record that is written as a list is made of what its fields give, in the order of
declaration. -/
theorem Filling.reads_list (h : Filling r given values fault? states)
    {fields others : List (Field σ)} (hfields : r.fields = fields ++ others)
    (hgiven : ∀ field ∈ fields, field.name ∈ given)
    (hlist : IsList text (fields.map fun field => values field.name)) :
    (record r).Reads text
      ((fill fault? states [] (fields.map Field.name)).bind (completeList r fields.length)) := by
  have taken : TakesFields (states []) (fields ++ others)
      (fields.map fun field => values field.name) (fill fault? states [] (fields.map Field.name)) :=
    h.takesFields (fun field hfield => ⟨by simp [hfields, hfield], hgiven field hfield⟩) others
  rw [h.start, ← hfields] at taken
  have read := taken.reads hlist
  rwa [List.length_map] at read

end LineLexer.Json.Decoder
