import Skt.ByteArray.Buffers

/-!
# Reading at a position

The `const` overload of `read` leaves the cursor where it is, but it starts in the cursor's
node, whatever the position it is given. So whether it returns the bytes of that position
is a matter of the shape of the array alone; with the wrong node, some contents show it.
-/

namespace Skt

open Lib

namespace ByteArray

/-! ## Arrays of one shape -/

/-- Two arrays that differ at most in the bytes of their nodes. -/
def SameShape (a a' : ByteArray) : Prop :=
  a'.baseSize = a.baseSize ∧ a'.capacity = a.capacity ∧ a'.position = a.position ∧
    a'.size = a.size

theorem SameShape.refl (a : ByteArray) : a.SameShape a := ⟨rfl, rfl, rfl, rfl⟩

/-- `k` nodes of size `b` with given cells. -/
def nodesOf (b k : ℕ) (cells : List UInt8) : List Node :=
  (List.range k).map fun i : ℕ => ⟨slice cells (i * b) b⟩

theorem bytesOf_nodesOf (b : ℕ) (cells : List UInt8) :
    ∀ k : ℕ, bytesOf (nodesOf b k cells) = cells.take (k * b)
  | 0 => by
      rw [Nat.zero_mul, List.take_zero]
      rfl
  | k + 1 => by
      rw [nodesOf, List.range_succ, List.map_append, bytesOf_append, ← nodesOf,
        bytesOf_nodesOf b cells k, Nat.succ_mul, List.take_add]
      exact congrArg _ (List.append_nil _)

theorem sized_nodesOf {b k : ℕ} {cells : List UInt8} (hfits : k * b ≤ cells.length) :
    Sized b (nodesOf b k cells) := by
  intro nd hnd
  obtain ⟨i, hi, rfl⟩ := List.mem_map.mp hnd
  have hnext : (i + 1) * b ≤ cells.length :=
    (Nat.mul_le_mul_right b (List.mem_range.mp hi)).trans hfits
  rw [Nat.succ_mul] at hnext
  show (slice cells (i * b) b).length = b
  rw [slice, List.length_take, List.length_drop]
  omega

/-- There is an array of every shape that there is and with any cells. -/
theorem exists_sameShape {a : ByteArray} (h : Reachable a) {cells : List UInt8}
    (hlen : cells.length = a.capacity) :
    ∃ a', Reachable a' ∧ a.SameShape a' ∧ a'.flat.cells = cells := by
  have hpl := h.placed
  have hfits : a.nodes.length * a.baseSize ≤ cells.length := (hpl.nodes_capacity.trans hlen.symm).le
  have hlength : (nodesOf a.baseSize a.nodes.length cells).length = a.nodes.length := by
    rw [nodesOf, List.length_map, List.length_range]
  refine ⟨{ a with nodes := nodesOf a.baseSize a.nodes.length cells }, ?_, ⟨rfl, rfl, rfl, rfl⟩, ?_⟩
  · refine reachable_iff_placed.mpr
      { hpl with sized := sized_nodesOf hfits, nodes_pos := ?_, nodes_capacity := ?_ }
    · rw [hlength]
      exact hpl.nodes_pos
    · rw [hlength]
      exact hpl.nodes_capacity
  · rw [flat_cells, bytesOf_nodesOf, hpl.nodes_capacity, ← hlen, List.take_length]

/-! ## The cells with one of them marked -/

/-- `n` cells, all 0 but for the one at `q`. -/
def marked (n q : ℕ) : List UInt8 := (List.range n).map fun i => if i = q then 1 else 0

theorem length_marked (n q : ℕ) : (marked n q).length = n := by
  rw [marked, List.length_map, List.length_range]

theorem getElem?_marked {n q i : ℕ} (h : i < n) :
    (marked n q)[i]? = some (if i = q then 1 else 0) := by
  rw [marked, List.getElem?_map, List.getElem?_range h]
  rfl

theorem slice_marked_head {n q start k : ℕ} (hk : 0 < k) (hstart : start < n) :
    (slice (marked n q) start k).head? = some (if start = q then 1 else 0) := by
  rw [slice, List.head?_take, if_neg hk.ne', List.head?_drop, getElem?_marked hstart]

/-! ## `read` at a position -/

/-- What is asked of `read(buf, size, position)`: the bytes at `position`, or an exception if
there are not as many. -/
def ReadsAt (a : ByteArray) (n position : ℕ) : Prop :=
  a.readAt n position =
    if a.size < position + n then .error .outOfRange else .ok (slice a.flat.cells position n)

/-- With too little left the loop runs off the chain. -/
theorem readLoop_none {b : ℕ} : ∀ (nds : List Node) (npos n : ℕ), Sized b nds → npos < b →
    nds.length * b < npos + n → readLoop nds npos n = none
  | [], _, _, _, _, _ => rfl
  | nd :: nds, npos, n, hs, hpos, hlong => by
      have hnd : nd.size = b := hs nd List.mem_cons_self
      rw [List.length_cons, Nat.succ_mul] at hlong
      have hrest := readLoop_none nds 0 (n - (b - npos)) hs.tail (by omega) (by omega)
      have hcap : ¬n ≤ b - npos := by
        have := Nat.zero_le (nds.length * b)
        omega
      simp only [readLoop, hnd, if_neg hcap, hrest]

/-- The loop started at the cursor's node, at the offset of some position. -/
theorem readLoop_start {a : ByteArray} (h : Placed a) (hlt : a.position < a.capacity) {n : ℕ}
    (hn : 0 < n) (position : ℕ) :
    (readLoop a.fromCur (position % a.baseSize) n).map Prod.fst =
      if a.position / a.baseSize * a.baseSize + position % a.baseSize + n ≤ a.capacity then
        some (slice a.flat.cells
          (a.position / a.baseSize * a.baseSize + position % a.baseSize) n)
      else none := by
  have hb := h.base_pos
  have hmod := Nat.mod_lt position hb
  obtain ⟨-, hlen, hpos, hsb, hsf⟩ := h.split hlt
  have hnodes := (h.split hlt).1
  rw [length_bytesOf hsb, hlen] at hpos
  have hcap := h.nodes_capacity
  rw [hnodes, List.length_append, Nat.add_mul, hlen] at hcap
  split
  · rename_i hfits
    rw [readLoop_spec hb _ _ _ hsf hmod hn (by omega), Option.map_some, flat_cells, hnodes,
      bytesOf_append, ← hlen, ← length_bytesOf hsb, slice_append_right]
  · rename_i hlong
    rw [readLoop_none _ _ _ hsf hmod (by omega), Option.map_none]

/-- The bytes at a position are read right from a cursor in its node. -/
theorem readsAt_of_node {a : ByteArray} (h : Placed a) {n position : ℕ}
    (hin : position + n ≤ a.size) (hlt : a.position < a.capacity)
    (hnode : n = 0 ∨ position / a.baseSize = a.position / a.baseSize) : a.ReadsAt n position := by
  have hsize := h.size_le
  have hbound := h.bounded
  have hsub : sizeSub a.size position = a.size - position := sizeSub_of_le (by omega) (by omega)
  rw [ReadsAt, if_neg (by omega), readAt, hsub, if_neg (by omega)]
  rcases Nat.eq_zero_or_pos n with rfl | hn
  · have hfits := h.fromCur_fits (n := 1) hlt hlt
    cases hfrom : a.fromCur with
    | nil =>
        rw [hfrom, List.length_nil, Nat.zero_mul] at hfits
        omega
    | cons nd nds =>
        rw [readLoop, if_pos (Nat.zero_le _)]
        simp only [slice, List.take_zero]
  · have hloop := readLoop_start h hlt hn position
    rw [← (hnode.resolve_left hn.ne'), Nat.div_add_mod', if_pos (by omega)] at hloop
    obtain ⟨⟨bytes, moved⟩, hread, hbytes⟩ := Option.map_eq_some_iff.mp hloop
    rw [hread]
    exact congrArg Except.ok hbytes

/-- **`read` at a position.** For the arrays of one shape, the `const` overload gives what it
is asked for just if the unsigned difference of size and position does not hide that there is
too little, and the cursor is not behind all nodes and in the node of the position. -/
theorem readAt_iff {a : ByteArray} (h : Reachable a) {n position : ℕ} (hn : n < 2 ^ 64)
    (hposition : position < 2 ^ 64) :
    (∀ a', Reachable a' → a.SameShape a' → a'.ReadsAt n position) ↔
      (a.size < position → a.size + 2 ^ 64 - position < n) ∧
      (position + n ≤ a.size → a.position < a.capacity ∧
        (n = 0 ∨ position / a.baseSize = a.position / a.baseSize)) := by
  have hpl := h.placed
  have hsize := hpl.size_le
  have hbound := hpl.bounded
  have hpos := hpl.position_le
  constructor
  · intro hall
    have hread := hall a h (.refl a)
    refine ⟨fun hbehind => ?_, fun hin => ?_⟩
    · -- Nothing but the exception is right here.
      rw [ReadsAt, if_pos (by omega), readAt] at hread
      have hsub : sizeSub a.size position = a.size + 2 ^ 64 - position := by
        unfold sizeSub
        omega
      rw [hsub] at hread
      by_contra hle
      rw [if_neg hle] at hread
      generalize readLoop _ _ _ = r at hread
      cases r with
      | none => cases hread
      | some r => cases hread
    · have hsub : sizeSub a.size position = a.size - position :=
        sizeSub_of_le (by omega) (by omega)
      have hlt : a.position < a.capacity := by
        by_contra hend
        have hnil : a.fromCur = [] := by rw [fromCur, hpl.cur_eq, if_pos (by omega)]
        rw [ReadsAt, if_neg (by omega), readAt, hsub, if_neg (by omega), hnil] at hread
        cases hread
      refine ⟨hlt, or_iff_not_imp_left.mpr fun hne => ?_⟩
      -- The byte at the position is the only one of its kind.
      obtain ⟨a', h', hshape, hcells⟩ := exists_sameShape h (length_marked a.capacity position)
      have hread' := hall a' h' hshape
      obtain ⟨hbase', hcap', hpos', hsize'⟩ := hshape
      have hloop := readLoop_start h'.placed (by omega) (Nat.pos_of_ne_zero hne) position
      rw [ReadsAt, hsize', if_neg (by omega), readAt, hsize', hsub, if_neg (by omega)] at hread'
      rw [hcells] at hread' hloop
      rw [hbase', hcap', hpos'] at hloop
      rw [hbase'] at hread'
      obtain ⟨start, hstart⟩ : ∃ start,
        a.position / a.baseSize * a.baseSize + position % a.baseSize = start := ⟨_, rfl⟩
      rw [hstart] at hloop
      split at hloop
      · rename_i hfits
        obtain ⟨⟨bytes, moved⟩, hsome, hbytes⟩ := Option.map_eq_some_iff.mp hloop
        rw [hsome] at hread'
        have heq : slice (marked a.capacity position) start n =
            slice (marked a.capacity position) position n :=
          hbytes.symm.trans (Except.ok.inj hread')
        have hhead := congrArg List.head? heq
        rw [slice_marked_head (Nat.pos_of_ne_zero hne) (by omega),
          slice_marked_head (Nat.pos_of_ne_zero hne) (by omega), if_pos rfl] at hhead
        have hsame : start = position := by
          by_contra hdiff
          rw [if_neg hdiff] at hhead
          exact absurd hhead (by decide)
        rw [← hsame, ← hstart, Nat.mul_comm, Nat.mul_add_div hpl.base_pos,
          Nat.div_eq_of_lt (Nat.mod_lt _ hpl.base_pos), Nat.add_zero]
      · rw [Option.map_eq_none_iff.mp hloop] at hread'
        cases hread'
  · rintro ⟨hover, hnode⟩ a' h' ⟨hbase', hcap', hpos', hsize'⟩
    rcases Nat.lt_or_ge a.size (position + n) with hout | hin
    · have hthrow : sizeSub a.size position < n := by
        rcases Nat.lt_or_ge a.size position with hbehind | hbefore
        · unfold sizeSub
          have := hover hbehind
          omega
        · rw [sizeSub_of_le hbefore (by omega)]
          omega
      rw [ReadsAt, readAt, hsize', if_pos hout, if_pos hthrow]
    · obtain ⟨hlt, hsame⟩ := hnode hin
      exact readsAt_of_node h'.placed (by omega) (by omega) (by rwa [hbase', hpos'])

/-- Three bytes in nodes of two, with the cursor at the second. -/
def atSecond : ByteArray := { threeBytes with position := 1 }

theorem reachable_atSecond : Reachable atSecond := by
  refine reachable_iff_placed.mpr ?_
  constructor <;> simp [atSecond, threeBytes, Sized, Node.size]

theorem readAt_iff_front : atSecond.ReadsAt 3 0 :=
  (readAt_iff reachable_atSecond (by decide) (by decide)).mpr (by decide) atSecond
    reachable_atSecond (.refl atSecond)

/-- The third byte is looked for in the first node. -/
theorem readAt_third : Reachable atSecond ∧ atSecond.readAt 1 2 = .ok [1] ∧
    slice atSecond.flat.cells 2 1 = [3] :=
  ⟨reachable_atSecond, by decide, by decide⟩

end ByteArray

end Skt
