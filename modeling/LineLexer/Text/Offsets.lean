/-!
# Byte offsets

The characters of a line are stored in one to four bytes each. `boundaries` lists the offsets in
front of the characters and the one behind the last of them, and `slice?` takes out what stands
between two offsets, unless one of them is inside a character or behind the end. A slice between two
boundaries is there, `slice?_bytes`.
-/

namespace LineLexer.Text

/-- The number of bytes that a run of characters takes. -/
def bytes : List Char → Nat
  | [] => 0
  | c :: rest => c.utf8Size + bytes rest

/-- The offsets in front of some characters and behind the last of them, if the first one stands at
a given offset. -/
def boundaries (offset : Nat) : List Char → List Nat
  | [] => [offset]
  | c :: rest => offset :: boundaries (offset + c.utf8Size) rest

/-- Cut some characters in two behind a number of bytes, unless this is inside a character or behind
the end. -/
def cut? : Nat → List Char → Option (List Char × List Char)
  | 0, chars => some ([], chars)
  | _ + 1, [] => none
  | n + 1, c :: rest =>
    if c.utf8Size ≤ n + 1 then do
      let (front, back) ← cut? (n + 1 - c.utf8Size) rest
      return (c :: front, back)
    else none

/-- The characters from one offset up to another one. -/
def slice? (start stop : Nat) (chars : List Char) : Option (List Char) :=
  if start ≤ stop then do
    let (_, rest) ← cut? start chars
    let (covered, _) ← cut? (stop - start) rest
    return covered
  else none

/-- Joined runs take as many bytes as they do apart. -/
theorem bytes_append (front back : List Char) :
    bytes (front ++ back) = bytes front + bytes back := by
  induction front with
  | nil => simp [bytes]
  | cons c front ih => simp [bytes, ih, Nat.add_assoc]

/-- There is a boundary in front of every character and one at the end, and each counts the bytes
before it. -/
theorem getElem?_boundaries (offset : Nat) (chars : List Char) (k : Nat) :
    (boundaries offset chars)[k]? =
      if k ≤ chars.length then some (offset + bytes (chars.take k)) else none := by
  induction chars generalizing offset k with
  | nil => cases k <;> simp [boundaries, bytes]
  | cons c rest ih => cases k <;> simp [boundaries, bytes, ih, Nat.add_assoc]

/-- A text can be cut behind the bytes of its first characters. -/
theorem cut?_bytes (front back : List Char) :
    cut? (bytes front) (front ++ back) = some (front, back) := by
  induction front with
  | nil => rw [bytes, List.nil_append, cut?]
  | cons c front ih =>
    obtain ⟨n, hn⟩ : ∃ n, bytes (c :: front) = n + 1 :=
      Nat.exists_eq_succ_of_ne_zero
        (Nat.ne_of_gt (Nat.lt_of_lt_of_le c.utf8Size_pos (Nat.le_add_right _ _)))
    have hrest : n + 1 - c.utf8Size = bytes front := by
      rw [← hn, bytes, Nat.add_sub_cancel_left]
    have hle : c.utf8Size ≤ n + 1 := hn ▸ Nat.le_add_right _ _
    rw [hn, List.cons_append, cut?, if_pos hle, hrest, ih]
    rfl

/-- A text that can be cut behind a number of bytes has a first part of that size. -/
theorem eq_of_cut?_eq_some {n : Nat} {chars front back : List Char}
    (h : cut? n chars = some (front, back)) : chars = front ++ back ∧ n = bytes front := by
  fun_induction cut? n chars generalizing front with
  | case1 chars =>
    cases h
    exact ⟨rfl, rfl⟩
  | case2 n => cases h
  | case3 n c rest hle ih =>
    obtain ⟨⟨inner, left⟩, hinner, hsame⟩ := Option.bind_eq_some_iff.mp h
    cases hsame
    obtain ⟨rfl, hsize⟩ := ih hinner
    rw [bytes]
    exact ⟨rfl, by omega⟩
  | case4 n c rest hlarge => cases h

/-- Between the boundaries around some characters stand these. -/
theorem slice?_bytes (before covered behind : List Char) :
    slice? (bytes before) (bytes (before ++ covered)) (before ++ covered ++ behind) =
      some covered := by
  rw [slice?, bytes_append, if_pos (Nat.le_add_right _ _), Nat.add_sub_cancel_left,
    List.append_assoc, cut?_bytes]
  show (cut? (bytes covered) (covered ++ behind) >>= fun parts => some parts.1) = some covered
  rw [cut?_bytes]
  rfl

end LineLexer.Text
