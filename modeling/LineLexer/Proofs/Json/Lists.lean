import LineLexer.Proofs.Json.Scalars

/-!
# Reading lists

A loop that reads a bracketed text takes its items one by one, up to the closing bracket or the
first item that does not fit. A list is read as the values of its items.
-/

namespace LineLexer.Json.Decoder

variable {α σ : Type} {ending : Ending} {text rest before inner item : List Char}
  {items : List (List Char)}

/-! ## Items one by one -/

section Items

variable {step : σ → Decoder (σ ⊕ α)} {isFirst : σ → Bool} {final : σ → α} {state later : σ}
  {result : Except Fault σ} {opening closing : Char}

/-- A round of a loop takes an item and gives the next state or a fault. -/
structure TakesItem (step : σ → Decoder (σ ⊕ α)) (isFirst : σ → Bool) (state : σ)
    (item : List Char) (result : Except Fault σ) : Prop where
  gives {ending : Ending} {before behind rest : List Char} (hbefore : Blank before)
    (hbehind : Blank behind) (hrest : Ends ending rest) :
    (step state).Gives ending (before ++ (lead (isFirst state) ++ (behind ++ (item ++ rest))))
      (result.map .inl) rest
  notFirst {later : σ} (h : result = .ok later) : isFirst later = false
  starts : StartsValue item

/-- Rounds of a loop take items, up to the first fault. -/
inductive TakesItems (step : σ → Decoder (σ ⊕ α)) (isFirst : σ → Bool) :
    σ → List (List Char) → Except Fault σ → Prop where
  | nil {state : σ} : TakesItems step isFirst state [] (.ok state)
  | cons {state later : σ} {item : List Char} {items : List (List Char)} {result : Except Fault σ}
      (head : TakesItem step isFirst state item (.ok later))
      (tail : TakesItems step isFirst later items result) :
      TakesItems step isFirst state (item :: items) result
  | stop {state : σ} {item : List Char} {items : List (List Char)} {fault : Fault}
      (head : TakesItem step isFirst state item (.error fault)) :
      TakesItems step isFirst state (item :: items) (.error fault)

/-- A round of a loop ends it at the closing bracket. -/
def Closes (step : σ → Decoder (σ ⊕ α)) (closing : Char) (final : σ → α) : Prop :=
  ∀ {state : σ} {ending : Ending} {before rest : List Char}, Blank before →
    (step state).Gives ending (before ++ closing :: rest) (.ok (.inr (final state))) rest

/-- One item is taken, and the rounds behind it go on from there. -/
theorem TakesItem.loop {behind : List Char} {found : Except Fault α}
    (h : TakesItem step isFirst state item (.ok later)) (hbefore : Blank before)
    (hbehind : Blank behind) (hrest : Ends ending rest) {tail : List Char}
    (others : (loop step later).Gives ending rest found tail) :
    (loop step state).Gives ending
      (before ++ (lead (isFirst state) ++ (behind ++ (item ++ rest)))) found tail := by
  have nonempty : item ≠ [] := by
    cases h.starts
    exact List.cons_ne_nil _ _
  exact .loop_again (h.gives hbefore hbehind hrest)
    ((((Shorter.of_ne_nil nonempty rest).append_left behind).append_left _).append_left before)
    others

/-- The items of a bracketed text are taken behind the opening bracket. The induction is on the
items; behind each of them there is a comma or the closing bracket, where the next round
starts. -/
theorem Gives.loop_items (h : Separated inner items)
    (taken : TakesItems step isFirst state items result) (hclosing : closing ∈ [',', ']', '\x7d'])
    (closes : Closes step closing final)
    (hbefore : Blank before) :
    (loop step state).Gives ending
      (before ++ (lead (isFirst state) ++ (inner ++ closing :: rest))) (result.map final) rest := by
  induction h generalizing before state with
  | @one behind item after hbehind hafter =>
    have hrest : Ends ending (after ++ closing :: rest) := .blank_cons hafter hclosing
    simp only [List.append_assoc]
    cases taken with
    | cons head tail =>
      cases tail
      exact head.loop hbefore hbehind hrest (.loop_stop (closes hafter))
    | stop head => exact .loop_fault (head.gives hbefore hbehind hrest)
  | @cons behind item after more items hbehind hafter hmore ih =>
    have hrest : Ends ending (after ++ ',' :: (more ++ closing :: rest)) :=
      .blank_cons hafter
    simp only [List.append_assoc, List.cons_append]
    cases taken with
    | cons head tail =>
      have others := ih tail hafter
      rw [head.notFirst rfl] at others
      exact head.loop hbefore hbehind hrest others
    | stop head => exact .loop_fault (head.gives hbefore hbehind hrest)

/-- A bracketed text is read by the loop behind its opening bracket. -/
theorem Gives.loop_bracketed (h : Bracketed opening closing text items)
    (taken : TakesItems step isFirst state items result) (first : isFirst state = true)
    (hclosing : closing ∈ [',', ']', '\x7d']) (closes : Closes step closing final) :
    ∃ inner, text = opening :: inner ∧ ∀ {ending : Ending} {rest : List Char},
      (loop step state).Gives ending (inner ++ rest) (result.map final) rest := by
  cases h with
  | none hbetween =>
    refine ⟨_, rfl, fun {ending rest} => ?_⟩
    cases taken
    rw [List.append_assoc]
    exact .loop_stop (closes hbetween)
  | @some inner _ h =>
    refine ⟨_, rfl, fun {ending rest} => ?_⟩
    have loops : (loop step state).Gives ending
        ([] ++ (lead (isFirst state) ++ (inner ++ closing :: rest))) (result.map final) rest :=
      .loop_items h taken hclosing closes .nil
    rw [first] at loops
    rw [List.append_assoc]
    exact loops

end Items

/-! ## Lists -/

section Lists

variable {d : Decoder α} {isFirst : Bool} {behind : List Char}

/-- There is another item, in front of which the comma is passed over. -/
theorem Gives.hasItem_item {c : Char} (hc : c ∈ startChars) (hbefore : Blank before)
    (hbehind : Blank behind) :
    (hasItem isFirst).Gives ending (before ++ (lead isFirst ++ (behind ++ c :: rest))) (.ok true)
      (c :: rest) := by
  have noBracket : ∀ c ∈ startChars, ascii c ≠ ascii ']' := by decide
  have solid := isSolid_of_mem_startChars hc
  cases isFirst with
  | true =>
    show (hasItem true).Gives ending (before ++ (behind ++ c :: rest)) _ _
    rw [← List.append_assoc]
    refine .bind (.significant (hbefore.append hbehind) solid) ?_
    rw [if_neg (noBracket c hc), if_pos rfl]
    exact .pure true
  | false =>
    refine .bind (.significant hbefore) ?_
    rw [if_neg (by decide), if_neg (by decide), if_pos rfl]
    refine .bind .skip (.bind (.significant hbehind solid) ?_)
    rw [if_neg (noBracket c hc)]
    exact .pure true

/-- There is no other item in front of the closing bracket. -/
theorem Gives.hasItem_close (hbefore : Blank before) :
    (hasItem isFirst).Gives ending (before ++ ']' :: rest) (.ok false) (']' :: rest) := by
  refine .bind (.significant hbefore) ?_
  rw [if_pos rfl]
  exact .pure false

/-- A round of reading a list takes an item. -/
theorem Reads.takesItem {result : Except Fault α} (h : d.Reads item result) (read : List α) :
    TakesItem (listStep d) List.isEmpty read item (result.map (· :: read)) where
  starts := h.starts
  notFirst same := by
    cases result with
    | error fault => cases same
    | ok value =>
      cases same
      rfl
  gives {ending before behind rest} hbefore hbehind hrest := by
    cases h.starts with | @cons c more hc
    refine .bind (.hasItem_item hc hbefore hbehind) ?_
    have taken : d.Gives ending (c :: more ++ rest) result rest := h.gives .nil hrest
    cases result with
    | error fault => exact .stop taken
    | ok value => exact .bind taken (.pure _)

/-- A round of reading a list ends it at the closing bracket. -/
theorem closes_list (d : Decoder α) : Closes (listStep d) ']' List.reverse :=
  fun hbefore => .bind (.hasItem_close hbefore) (.bind .skip (.pure _))

/-- The values of a list if all of them are there. -/
theorem mapM_id_cons_ok (value : α) (results : List (Except Fault α)) :
    (.ok value :: results).mapM id = (results.mapM id).map (value :: ·) := by
  rw [List.mapM_cons]
  cases results.mapM id <;> rfl

/-- The first fault is that of the whole list. -/
theorem mapM_id_cons_error (fault : Fault) (results : List (Except Fault α)) :
    (.error fault :: results).mapM id = .error fault := by
  rw [List.mapM_cons]
  rfl

/-- A list without faults is the list of its values. -/
theorem mapM_id_map_ok (values : List α) :
    (values.map (Except.ok : α → Except Fault α)).mapM id = .ok values := by
  induction values with
  | nil => rfl
  | cons value values ih =>
    rw [List.map_cons, mapM_id_cons_ok, ih]
    rfl

/-- The items of a list are taken, up to the first one that does not fit. -/
theorem takesItems_list {results : List (Except Fault α)} (h : List.Forall₂ d.Reads items results)
    (read : List α) :
    TakesItems (listStep d) List.isEmpty read items
      ((results.mapM id).map fun values => values.reverse ++ read) := by
  induction h generalizing read with
  | nil => exact .nil
  | @cons item result items results head tail ih =>
    have taken := head.takesItem read
    cases result with
    | error fault =>
      rw [mapM_id_cons_error]
      exact .stop taken
    | ok value =>
      have others := ih (value :: read)
      rw [mapM_id_cons_ok]
      refine .cons taken ?_
      cases found : results.mapM id with
      | error fault =>
        rw [found] at others
        exact others
      | ok values =>
        rw [found] at others
        show TakesItems _ _ _ _ (.ok ((value :: values).reverse ++ read))
        rw [List.reverse_cons, List.append_assoc]
        exact others

/-- A list is read as the values of its items, or gives the fault of the first one that does not
fit. -/
theorem Reads.list {results : List (Except Fault α)} (h : IsList text items)
    (each : List.Forall₂ d.Reads items results) : (list d).Reads text (results.mapM id) := by
  obtain ⟨inner, rfl, loops⟩ :=
    Gives.loop_bracketed h (takesItems_list each []) rfl (by decide) (closes_list d)
  refine .of_accepted (.cons _ (by decide)) rfl rfl fun _ => ?_
  have values : ((results.mapM id).map fun values => values.reverse ++ []).map List.reverse =
      results.mapM id := by
    cases results.mapM id with
    | error fault => rfl
    | ok values => simp [Except.map]
  rw [← values]
  exact .bind .skip loops

/-- A list whose items all fit is read as their values. -/
theorem Reads.list_ok {values : List α} (h : IsList text items)
    (each : List.Forall₂ (fun item value => d.Reads item (.ok value)) items values) :
    (Decoder.list d).Reads text (.ok values) := by
  rw [← mapM_id_map_ok values]
  refine .list h ?_
  rw [List.forall₂_map_right_iff]
  exact each

end Lists

end LineLexer.Json.Decoder
