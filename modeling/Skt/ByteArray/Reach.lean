import Skt.ByteArray.Runs

/-!
# The arrays there can be

An array that is placed can be reached, whatever its nodes hold: the nodes are made by a
call that reserves room, with the bytes that the allocator hands out, and the cursor is
then put where it is to be. So what holds for the arrays that can be reached and what
holds for those that are placed is the same.
-/

namespace Skt

open Lib

namespace ByteArray

/-- A fresh array, and what a call leaves behind that does not end with `bad_alloc`. -/
inductive Reachable : ByteArray → Prop
  | new {mem : Allocator} {base : ℕ} {a : ByteArray} : 1 ≤ base →
      ByteArray.new mem base = .ok a → Reachable a
  | call {mem : Allocator} {a a' : ByteArray} {op : Op} {r : Except Fault Out} : Reachable a →
      a.exec mem op = (r, a') → r ≠ .error .badAlloc → Reachable a'

theorem Reachable.placed {a : ByteArray} (h : Reachable a) : Placed a := by
  induction h with
  | new hb hnew => exact (new_spec hb hnew).1
  | @call mem a a' op r _ hexec hne ih =>
      have hspec := (exec_spec ih mem op).placed
      rw [hexec] at hspec
      exact hspec hne

/-! ## An array is what its cells are -/

theorem bytesOf_inj {b : ℕ} (hb : 0 < b) : ∀ {nds nds' : List Node}, Sized b nds →
    Sized b nds' → bytesOf nds = bytesOf nds' → nds = nds'
  | [], [], _, _, _ => rfl
  | [], nd :: nds, _, h', heq => by
      have hlen := congrArg List.length heq
      rw [length_bytesOf h', List.length_cons, Nat.succ_mul] at hlen
      exact absurd hlen (by simp only [bytesOf, List.flatMap_nil, List.length_nil]; omega)
  | nd :: nds, [], h, _, heq => by
      have hlen := congrArg List.length heq
      rw [length_bytesOf h, List.length_cons, Nat.succ_mul] at hlen
      exact absurd hlen (by simp only [bytesOf, List.flatMap_nil, List.length_nil]; omega)
  | nd :: nds, nd' :: nds', h, h', heq => by
      have hnd : nd.ptr.length = b := h nd List.mem_cons_self
      have hnd' : nd'.ptr.length = b := h' nd' List.mem_cons_self
      rw [bytesOf_cons, bytesOf_cons] at heq
      obtain ⟨hptr, hrest⟩ := List.append_inj heq (hnd.trans hnd'.symm)
      have hnodes := bytesOf_inj hb h.tail h'.tail hrest
      obtain ⟨ptr⟩ := nd
      obtain ⟨ptr'⟩ := nd'
      simp only at hptr
      rw [hptr, hnodes]

theorem flat_inj {a a' : ByteArray} (h : Placed a) (h' : Placed a') (heq : a.flat = a'.flat) :
    a = a' := by
  obtain ⟨hbase, hcells, hpos, hsize⟩ : a.baseSize = a'.baseSize ∧
      bytesOf a.nodes = bytesOf a'.nodes ∧ a.position = a'.position ∧ a.size = a'.size := by
    simpa only [flat, Flat.mk.injEq] using heq
  have hsized := h'.sized
  rw [← hbase] at hsized
  have hnodes := bytesOf_inj h.base_pos h.sized hsized hcells
  have hcap : a.capacity = a'.capacity := by
    rw [← h.nodes_capacity, ← h'.nodes_capacity, hnodes, hbase]
  have hcur : a.cur = a'.cur := by
    rw [h.cur_eq, h'.cur_eq, hpos, hcap, hbase]
  cases a
  cases a'
  simp only at hbase hcap hpos hsize hnodes hcur
  subst hbase hcap hpos hsize hnodes hcur
  rfl

/-! ## Every placed array can be reached -/

/-- The allocator that hands out given cells. -/
def handsOut (b : ℕ) (cells : List UInt8) : Allocator where
  grant n := if n ≤ 2 ^ 47 then some fun i => cells.getD (n - b + i) 0 else none
  bounded n h := by
    by_contra hn
    rw [if_neg hn] at h
    cases h

theorem range_map_getD (cells : List UInt8) {p b : ℕ} (h : p + b ≤ cells.length) :
    ((List.range b).map fun i : ℕ => cells.getD (p + i) 0) = slice cells p b := by
  apply List.ext_getElem
  · rw [List.length_map, List.length_range, slice, List.length_take, List.length_drop]
    omega
  · intro i h₁ h₂
    rw [List.length_map, List.length_range] at h₁
    simp only [List.getElem_map, List.getElem_range, slice, List.getElem_take,
      List.getElem_drop]
    exact List.getD_eq_getElem _ _ (by omega)

/-- The cells come out one node after the other. -/
theorem extend_handsOut {b : ℕ} {cells : List UInt8} (hlen : cells.length ≤ 2 ^ 47)
    (pos size : ℕ) : ∀ k j : ℕ, (j + k) * b ≤ cells.length →
      Flat.extend (handsOut b cells) k ⟨b, cells.take (j * b), pos, size⟩ =
        (.ok (), ⟨b, cells.take ((j + k) * b), pos, size⟩)
  | 0, j, _ => rfl
  | k + 1, j, hfits => by
      have hnext : (j + 1) * b ≤ cells.length := by
        refine le_trans (Nat.mul_le_mul_right b ?_) hfits
        omega
      rw [Nat.succ_mul] at hnext
      have hcap : Flat.capacity ⟨b, cells.take (j * b), pos, size⟩ = j * b := by
        rw [Flat.capacity, List.length_take_of_le (by omega)]
      have hgrant : (handsOut b cells).grant (j * b + b) =
          some fun i => cells.getD (j * b + i) 0 := by
        simp only [handsOut, Nat.add_sub_cancel]
        exact if_pos (by omega)
      have hcells : cells.take (j * b) ++ slice cells (j * b) b = cells.take ((j + 1) * b) := by
        rw [slice, Nat.succ_mul, ← List.take_add]
      rw [Flat.extend, hcap, hgrant]
      dsimp only
      rw [range_map_getD cells hnext, hcells,
        extend_handsOut hlen pos size k (j + 1) (by rwa [Nat.add_right_comm])]
      rw [Nat.add_right_comm, Nat.add_assoc]

/-- What the flat array does can be done. -/
theorem Reachable.exec {a : ByteArray} (h : Reachable a) (mem : Allocator) (op : Op) {out : Out}
    {f : Flat} (hexec : a.flat.exec mem op = (.ok out, f)) : ∃ a', Reachable a' ∧ a'.flat = f := by
  have hflat := (exec_spec h.placed mem op).flat_eq
  rw [hexec, Prod.mk.injEq] at hflat
  have hok : (a.exec mem op).1 ≠ .error .badAlloc := by
    rw [← hflat.1]
    exact fun hne => by cases hne
  exact ⟨(a.exec mem op).2, h.call (Prod.mk.eta).symm hok, hflat.2.symm⟩

theorem reachable_first {b : ℕ} (hb : 1 ≤ b) {cells : List UInt8} (hlen : cells.length ≤ 2 ^ 47)
    (hfits : b ≤ cells.length) :
    ∃ a, Reachable a ∧ a.flat = ⟨b, cells.take (1 * b), 0, 0⟩ := by
  have hgrant : (handsOut b cells).grant b = some fun i => cells.getD (0 + i) 0 := by
    simp only [handsOut, Nat.sub_self]
    exact if_pos (by omega)
  have hnew : ByteArray.new (handsOut b cells) b =
      .ok ⟨b, b, 0, 0, [Node.new b fun i => cells.getD (0 + i) 0], some 0⟩ := by
    rw [ByteArray.new, hgrant]
  refine ⟨_, .new hb hnew, ?_⟩
  simp only [flat, bytesOf, Node.new, List.flatMap_cons, List.flatMap_nil, List.append_nil,
    Nat.one_mul]
  rw [range_map_getD cells (by omega), slice, List.drop_zero]

/-- **What can be reached.** An array can be reached just if it is placed. -/
theorem reachable_iff_placed {a : ByteArray} : Reachable a ↔ Placed a := by
  refine ⟨Reachable.placed, fun h => ?_⟩
  have hb := h.base_pos
  have hcells : a.flat.cells.length = a.capacity := h.length_cells
  have hlen : a.flat.cells.length ≤ 2 ^ 47 := hcells ▸ h.bounded
  have hnodes := h.nodes_capacity
  obtain ⟨n, hn⟩ : ∃ n, a.nodes.length = n + 1 := ⟨a.nodes.length - 1, by
    have := h.nodes_pos
    omega⟩
  rw [hn, Nat.add_comm n 1] at hnodes
  have hone : a.baseSize ≤ a.flat.cells.length := by
    rw [hcells, ← hnodes]
    exact Nat.le_mul_of_pos_left _ (by omega)
  obtain ⟨a₁, h₁, hf₁⟩ := reachable_first hb hlen hone
  -- Room for all the cells.
  have hneed : Flat.need ⟨a.baseSize, a.flat.cells.take (1 * a.baseSize), 0, 0⟩ a.capacity = n := by
    have hcap : Flat.capacity ⟨a.baseSize, a.flat.cells.take (1 * a.baseSize), 0, 0⟩ =
        a.baseSize := by
      rw [Flat.capacity, Nat.one_mul, List.length_take_of_le hone]
    rw [Flat.need_eq (f := ⟨a.baseSize, a.flat.cells.take (1 * a.baseSize), 0, 0⟩) hb, hcap]
    dsimp only
    rw [← hnodes, Nat.add_mul, Nat.one_mul, Nat.zero_add, Nat.add_sub_cancel_left,
      Nat.add_sub_assoc hb, Nat.mul_comm, Nat.mul_add_div hb,
      Nat.div_eq_of_lt (by omega), Nat.add_zero]
  have hextend := extend_handsOut hlen 0 0 n 1 (by rw [hnodes, hcells])
  rw [hnodes, ← hcells, List.take_length] at hextend
  obtain ⟨a₂, h₂, hf₂⟩ := h₁.exec (handsOut a.baseSize a.flat.cells)
    (.getWriteBuffers a.capacity) (f := ⟨a.baseSize, a.flat.cells, 0, 0⟩) (by
      rw [hf₁, Flat.exec, Flat.reserve, hneed, hextend]
      rfl)
  have hsize : ¬Flat.capacity ⟨a.baseSize, a.flat.cells, 0, 0⟩ < a.size := by
    rw [Flat.capacity, hcells]
    exact Nat.not_lt.mpr h.size_le
  obtain ⟨a₃, h₃, hf₃⟩ := h₂.exec (handsOut a.baseSize a.flat.cells)
    (.setPosition a.size) (f := ⟨a.baseSize, a.flat.cells, a.size, a.size⟩) (by
      rw [hf₂, Flat.exec, Flat.setPosition, if_neg hsize, Nat.max_eq_right (Nat.zero_le _)]
      rfl)
  have hpos : ¬Flat.capacity ⟨a.baseSize, a.flat.cells, a.size, a.size⟩ < a.position := by
    rw [Flat.capacity, hcells]
    exact Nat.not_lt.mpr (h.position_le.trans h.size_le)
  obtain ⟨a₄, h₄, hf₄⟩ := h₃.exec (handsOut a.baseSize a.flat.cells)
    (.setPosition a.position) (f := ⟨a.baseSize, a.flat.cells, a.position, a.size⟩) (by
      rw [hf₃, Flat.exec, Flat.setPosition, if_neg hpos, Nat.max_eq_left h.position_le]
      rfl)
  rw [← flat_inj h₄.placed h hf₄]
  exact h₄

end ByteArray

end Skt
