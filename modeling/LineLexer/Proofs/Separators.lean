import Mathlib.Data.List.Basic

/-!
# Texts that can be taken apart

When the parts of a text can be told from the text: a part ends where a character first stands that
is not in it, `cut_inj`, so that listed parts are known from a list that separates them by such a
character, `intercalate_inj`, and a number is known from its digits, `toDigits_inj`.
-/

namespace LineLexer.Text

variable {c d : Char} {front back left right : List Char}

/-! ## Parts that end at a character -/

/-- A text has ended, or goes on with a given character. -/
def EndsAt (c : Char) (text : List Char) : Prop :=
  ∀ d ∈ text.head?, d = c

theorem endsAt_nil : EndsAt c [] := by
  simp [EndsAt]

theorem endsAt_cons : EndsAt c (c :: back) := by
  simp [EndsAt]

/-- A part without a character is all that stands before the first such character. -/
theorem takeWhile_eq_front (hfront : c ∉ front) (hback : EndsAt c back) :
    (front ++ back).takeWhile (· != c) = front := by
  have before : ∀ d ∈ front, (d != c) = true :=
    fun d hd => bne_iff_ne.mpr (ne_of_mem_of_not_mem hd hfront)
  have behind : back.takeWhile (· != c) = [] := by
    cases back with
    | nil => rfl
    | cons d back =>
        obtain rfl : d = c := hback d rfl
        exact List.takeWhile_cons_of_neg (by simp)
  rw [List.takeWhile_append_of_pos before, behind, List.append_nil]

/-- Parts without a character that are followed by it, or by nothing, are known from the text. -/
theorem cut_inj (hfront : c ∉ front) (hleft : c ∉ left) (hback : EndsAt c back)
    (hright : EndsAt c right) (h : front ++ back = left ++ right) :
    front = left ∧ back = right := by
  have same : front = left := by
    rw [← takeWhile_eq_front hfront hback, h, takeWhile_eq_front hleft hright]
  subst same
  exact ⟨rfl, List.append_cancel_left h⟩

/-- Parts without the character that follows them are known from the text. -/
theorem cut_cons_inj (hfront : c ∉ front) (hleft : c ∉ left)
    (h : front ++ c :: back = left ++ c :: right) : front = left ∧ back = right := by
  obtain ⟨same, behind⟩ := cut_inj hfront hleft endsAt_cons endsAt_cons h
  exact ⟨same, List.tail_eq_of_cons_eq behind⟩

/-! ## Listed parts -/

/-- What stands behind the first one of listed parts. -/
def behindFirst (separator : List Char) (parts : List (List Char)) : List Char :=
  if parts = [] then [] else separator ++ separator.intercalate parts

theorem intercalate_cons_eq (separator part : List Char) (parts : List (List Char)) :
    separator.intercalate (part :: parts) = part ++ behindFirst separator parts := by
  cases parts with
  | nil => simp [behindFirst]
  | cons next parts => simp [behindFirst, List.intercalate_cons_of_ne_nil]

theorem endsAt_behindFirst (separator : List Char) (parts : List (List Char)) :
    EndsAt c (behindFirst (c :: separator) parts) := by
  unfold behindFirst
  split
  · exact endsAt_nil
  · exact endsAt_cons

/-- A part that is not empty and in which a list of parts cannot be cut. -/
def IsPart (c : Char) (part : List Char) : Prop :=
  part ≠ [] ∧ c ∉ part

/-- Parts that do not contain the first character of what separates them are known from the list of
them. They must not be empty, since nothing may stand for no part or for an empty one. -/
theorem intercalate_inj {separator : List Char} {parts others : List (List Char)}
    (hparts : ∀ part ∈ parts, IsPart c part) (hothers : ∀ other ∈ others, IsPart c other)
    (h : (c :: separator).intercalate parts = (c :: separator).intercalate others) :
    parts = others := by
  induction parts generalizing others with
  | nil =>
      cases others with
      | nil => rfl
      | cons other others =>
          rw [intercalate_cons_eq] at h
          exact absurd (List.append_eq_nil_iff.mp h.symm).1 (hothers other List.mem_cons_self).1
  | cons part parts ih =>
      cases others with
      | nil =>
          rw [intercalate_cons_eq] at h
          exact absurd (List.append_eq_nil_iff.mp h).1 (hparts part List.mem_cons_self).1
      | cons other others =>
          rw [intercalate_cons_eq, intercalate_cons_eq] at h
          obtain ⟨rfl, hbehind⟩ := cut_inj (hparts part List.mem_cons_self).2
            (hothers other List.mem_cons_self).2 (endsAt_behindFirst separator parts)
            (endsAt_behindFirst separator others) h
          refine congrArg (part :: ·) ?_
          -- The lists go on or end together, since only what goes on is not empty.
          unfold behindFirst at hbehind
          split at hbehind <;> split at hbehind
          · next hnone hnone' => rw [hnone, hnone']
          · cases hbehind
          · cases hbehind
          · exact ih (fun _ hmem => hparts _ (List.mem_cons_of_mem _ hmem))
              (fun _ hmem => hothers _ (List.mem_cons_of_mem _ hmem))
              (List.append_cancel_left hbehind)

/-! ## Digits -/

/-- The digits of a number are those below the base. -/
theorem mem_toDigits {base n : Nat} (hbase : 1 < base) (h : c ∈ Nat.toDigits base n) :
    ∃ digit < base, c = Nat.digitChar digit := by
  induction n using Nat.strongRecOn with
  | _ n ih =>
      by_cases small : n < base
      · rw [Nat.toDigits_of_lt_base small, List.mem_singleton] at h
        exact ⟨n, small, h⟩
      · have large : base ≤ n := Nat.le_of_not_lt small
        rw [Nat.toDigits_of_base_le hbase large, List.mem_append, List.mem_singleton] at h
        rcases h with h | h
        · exact ih (n / base) (Nat.div_lt_self (by omega) hbase) h
        · exact ⟨n % base, Nat.mod_lt n (by omega), h⟩

/-- Different digits look different. -/
theorem digitChar_inj {m n : Nat} (hm : m < 16) (hn : n < 16)
    (h : Nat.digitChar m = Nat.digitChar n) : m = n := by
  have each : ∀ m < 16, ∀ n < 16, Nat.digitChar m = Nat.digitChar n → m = n := by decide
  exact each m hm n hn h

/-- The last digit of a number is its remainder, and the digits before it are those of the
quotient. -/
theorem toDigits_eq_append {base : Nat} (hbase : 1 < base) (n : Nat) :
    Nat.toDigits base n =
      (if n < base then [] else Nat.toDigits base (n / base)) ++ [Nat.digitChar (n % base)] := by
  split
  · next small => rw [Nat.toDigits_of_lt_base small, Nat.mod_eq_of_lt small, List.nil_append]
  · next large => exact Nat.toDigits_of_base_le hbase (Nat.le_of_not_lt large)

/-- A number is known from its digits. -/
theorem toDigits_inj {base m n : Nat} (hbase : 1 < base) (hdigits : base ≤ 16)
    (h : Nat.toDigits base m = Nat.toDigits base n) : m = n := by
  induction m using Nat.strongRecOn generalizing n with
  | _ m ih =>
      rw [toDigits_eq_append hbase m, toDigits_eq_append hbase n] at h
      obtain ⟨hbefore, hlast⟩ := List.append_inj' h rfl
      have below (k : Nat) : k % base < 16 :=
        Nat.lt_of_lt_of_le (Nat.mod_lt k (by omega)) hdigits
      have remainder : m % base = n % base :=
        digitChar_inj (below m) (below n) (List.head_eq_of_cons_eq hlast)
      have quotient : m / base = n / base := by
        split at hbefore <;> split at hbefore
        · next hm hn => rw [Nat.div_eq_of_lt hm, Nat.div_eq_of_lt hn]
        · exact absurd hbefore.symm Nat.toDigits_ne_nil
        · exact absurd hbefore Nat.toDigits_ne_nil
        · exact ih (m / base) (Nat.div_lt_self (by omega) hbase) hbefore
      rw [← Nat.div_add_mod m base, remainder, quotient, Nat.div_add_mod]

end LineLexer.Text
