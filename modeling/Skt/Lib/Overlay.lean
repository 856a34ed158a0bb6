import Mathlib

/-!
# Overlaying a window of a list

A flat memory is a list of cells. `slice` reads a window and `overlay`
replaces one in place; the lemmas say how both distribute over a memory that
is stored as consecutive blocks.
-/

namespace Lib

variable {α : Type}

/-- The cells `[pos, pos + n)`. -/
def slice (cells : List α) (pos n : ℕ) : List α := (cells.drop pos).take n

/-- The cells with `d` written over `[pos, pos + d.length)`. -/
def overlay (cells : List α) (pos : ℕ) (d : List α) : List α :=
  cells.take pos ++ d ++ cells.drop (pos + d.length)

theorem length_overlay {cells d : List α} {pos : ℕ}
    (h : pos + d.length ≤ cells.length) :
    (overlay cells pos d).length = cells.length := by
  simp [overlay]
  omega

@[simp] theorem overlay_nil (cells : List α) (pos : ℕ) : overlay cells pos [] = cells := by
  simp [overlay]

theorem getElem?_overlay {cells d : List α} {pos : ℕ} (h : pos + d.length ≤ cells.length)
    (i : ℕ) :
    (overlay cells pos d)[i]? = if pos ≤ i ∧ i < pos + d.length then d[i - pos]? else cells[i]? := by
  have hfront : (cells.take pos).length = pos := by
    rw [List.length_take]
    omega
  rw [overlay, List.append_assoc]
  by_cases hpos : pos ≤ i
  · rw [List.getElem?_append_right (by omega), hfront]
    by_cases hd : i < pos + d.length
    · rw [if_pos ⟨hpos, hd⟩, List.getElem?_append_left (by omega)]
    · rw [if_neg fun h => hd h.2, List.getElem?_append_right (by omega), List.getElem?_drop]
      congr 1
      omega
  · rw [if_neg fun h => hpos h.1, List.getElem?_append_left (by omega),
      List.getElem?_take_of_lt (by omega)]

/-- Two windows next to each other. -/
theorem overlay_overlay {cells d d' : List α} {pos : ℕ}
    (h : pos + d.length ≤ cells.length) :
    overlay (overlay cells pos d) (pos + d.length) d' = overlay cells pos (d ++ d') := by
  have hfront : (cells.take pos ++ d).length = pos + d.length := by
    rw [List.length_append, List.length_take]
    omega
  unfold overlay
  rw [← hfront, List.take_left, List.drop_append, List.drop_eq_nil_of_le (Nat.le_add_right _ _),
    Nat.add_sub_cancel_left, List.drop_drop, hfront, List.length_append]
  simp only [List.append_assoc, List.nil_append, Nat.add_assoc]

/-- What is stored up to a size does not depend on the cells behind it. -/
theorem take_overlay_append {cells d : List α} {pos size : ℕ} (more : List α)
    (hpos : pos ≤ size) (hsize : size ≤ cells.length) :
    (overlay (cells ++ more) pos d).take (max size (pos + d.length)) =
      overlay (cells.take size) pos d := by
  have hfront : (cells.take pos ++ d).length = pos + d.length := by
    rw [List.length_append, List.length_take]
    omega
  unfold overlay
  rw [List.take_append_of_le_length (hpos.trans hsize), List.take_append, hfront,
    List.take_of_length_le (by omega), List.take_take, Nat.min_eq_left hpos]
  congr 1
  rcases Nat.le_total size (pos + d.length) with hle | hle
  · rw [Nat.max_eq_right hle, Nat.sub_self, List.take_zero, List.drop_eq_nil_of_le]
    rw [List.length_take]
    omega
  · rw [Nat.max_eq_left hle, List.drop_append_of_le_length (by omega),
      List.take_append_of_le_length (by rw [List.length_drop]; omega), List.drop_take]

/-! ## Windows inside one block -/

theorem slice_append_left {xs ys : List α} {pos n : ℕ}
    (h : pos + n ≤ xs.length) : slice (xs ++ ys) pos n = slice xs pos n := by
  unfold slice
  rw [List.drop_append_of_le_length (by omega), List.take_append_of_le_length]
  rw [List.length_drop]
  omega

theorem overlay_append_left {xs ys d : List α} {pos : ℕ}
    (h : pos + d.length ≤ xs.length) :
    overlay (xs ++ ys) pos d = overlay xs pos d ++ ys := by
  unfold overlay
  rw [List.take_append_of_le_length (by omega),
    List.drop_append_of_le_length h]
  simp only [List.append_assoc]

/-! ## Windows behind a block -/

theorem slice_append_right (xs ys : List α) (pos n : ℕ) :
    slice (xs ++ ys) (xs.length + pos) n = slice ys pos n := by
  unfold slice
  rw [List.drop_append, List.drop_eq_nil_of_le (by omega)]
  simp

theorem overlay_append_right (xs ys d : List α) (pos : ℕ) :
    overlay (xs ++ ys) (xs.length + pos) d = xs ++ overlay ys pos d := by
  unfold overlay
  rw [List.take_append, List.take_of_length_le (by omega), List.drop_append,
    List.drop_eq_nil_of_le (by omega)]
  simp [Nat.add_assoc]

/-! ## Windows that cross the end of a block -/

/-- A window crossing the first block is the tail of that block followed by a
window at the start of the rest. -/
theorem slice_append_cross {xs ys : List α} {pos n : ℕ}
    (hpos : pos ≤ xs.length) (hn : xs.length - pos ≤ n) :
    slice (xs ++ ys) pos n =
      slice xs pos (xs.length - pos) ++ slice ys 0 (n - (xs.length - pos)) := by
  unfold slice
  rw [List.drop_append_of_le_length hpos, List.take_append, List.drop_zero,
    List.length_drop]
  congr 1
  rw [List.take_of_length_le (by rw [List.length_drop]; omega),
    List.take_of_length_le (by rw [List.length_drop])]

theorem overlay_append_cross {xs ys d : List α} {pos : ℕ}
    (hpos : pos ≤ xs.length) (hd : xs.length - pos ≤ d.length) :
    overlay (xs ++ ys) pos d =
      overlay xs pos (d.take (xs.length - pos)) ++
        overlay ys 0 (d.drop (xs.length - pos)) := by
  have hfull : pos + (d.take (xs.length - pos)).length = xs.length := by
    rw [List.length_take]
    omega
  have htail : pos + d.length = xs.length + (d.drop (xs.length - pos)).length := by
    rw [List.length_drop]
    omega
  unfold overlay
  rw [hfull, htail, List.take_append_of_le_length hpos, List.drop_append,
    List.drop_eq_nil_of_le (Nat.le_add_right _ _), Nat.add_sub_cancel_left]
  simp only [List.nil_append, List.append_assoc, List.drop_length,
    List.take_zero, Nat.zero_add]
  rw [← List.append_assoc (d.take _), List.take_append_drop]

end Lib
