import Skt.ByteArray.Reach
import Skt.ByteArray.RoundTrip

/-!
# Buffers into the nodes

`getReadBuffers` and `getWriteBuffers` hand out pieces of the nodes, to be sent from or
received into. What the pieces of the one hold together is what is left to read, where the
loop comes out right; storing into those of the other is a `write`.
-/

namespace Skt

open Lib

namespace ByteArray

/-- `getReadBuffers(buffs, len, position)`: the limit is what is left from `m_position`, and
the room in the first node is counted with the size of `m_cur`. -/
def getReadBuffersAt (a : ByteArray) (len position : ℕ) : Except Fault (List Iovec × ℕ) :=
  let len := if a.getReadSize < len then a.getReadSize else len
  if len = 0 then .ok ([], 0)
  else
    let npos := position % a.baseSize
    let count := position / a.baseSize
    match a.fromCur, a.nodes.drop count with
    | [], _ => .error .nullDeref
    | _ :: _, [] => .error .nullDeref
    | cur :: _, _ :: nds =>
        let ncap := cur.size - npos
        if len ≤ ncap then .ok ([⟨count, npos, len⟩], len)
        else
          match readBuffersLoop len nds (count + 1) 0 (sizeSub len ncap) with
          | none => .error .nullDeref
          | some iovs => .ok (⟨count, npos, ncap⟩ :: iovs, len)

/-! ## The loop of `getReadBuffers` -/

/-- `k` whole nodes from the `i`-th on. -/
def blocks (b i k : ℕ) : List Iovec := (List.range k).map fun j : ℕ => ⟨i + j, 0, b⟩

theorem blocks_succ (b i k : ℕ) : blocks b i (k + 1) = ⟨i, 0, b⟩ :: blocks b (i + 1) k := by
  rw [blocks, List.range_succ_eq_map, List.map_cons, List.map_map, blocks]
  congr 1
  refine List.map_congr_left fun j _ => ?_
  show (⟨i + (j + 1), 0, b⟩ : Iovec) = ⟨i + 1 + j, 0, b⟩
  rw [Nat.add_right_comm, Nat.add_assoc]

/-- With more to do than there are nodes, the loop runs off the chain. -/
theorem readBuffersLoop_none {b n : ℕ} (hn : b < n) : ∀ (nds : List Node) (i len : ℕ),
    Sized b nds → nds.length * b < len → len < 2 ^ 64 → readBuffersLoop n nds i 0 len = none
  | [], _, _, _, _, _ => rfl
  | nd :: nds, i, len, hs, hlong, hlt => by
      have hnd : nd.size = b := hs nd List.mem_cons_self
      rw [List.length_cons, Nat.succ_mul] at hlong
      have hsub : sizeSub len b = len - b := sizeSub_of_le (by omega) hlt
      rw [readBuffersLoop, if_neg (by omega)]
      dsimp only
      rw [Nat.sub_zero, hnd, if_neg (by omega), hsub,
        readBuffersLoop_none hn nds (i + 1) (len - b) hs.tail (by omega) (by omega)]

/-- Where more is asked for than a node has, whole nodes are handed out, and another one
has to follow. -/
theorem readBuffersLoop_aligned {b n : ℕ} (hb : 0 < b) (hn : b < n) :
    ∀ (nds : List Node) (i len : ℕ), Sized b nds → len ≤ nds.length * b →
      nds.length * b ≤ 2 ^ 47 →
      readBuffersLoop n nds i 0 len =
        if b ∣ len ∧ len < nds.length * b then some (blocks b i (len / b)) else none
  | [], i, len, _, hle, _ => by
      rw [readBuffersLoop, if_neg]
      rintro ⟨-, hlt⟩
      rw [List.length_nil, Nat.zero_mul] at hlt
      omega
  | nd :: nds, i, len, hs, hle, hbound => by
      have hnd : nd.size = b := hs nd List.mem_cons_self
      rw [List.length_cons, Nat.succ_mul] at hle hbound ⊢
      by_cases hzero : len = 0
      · subst hzero
        rw [readBuffersLoop, if_pos rfl, if_pos ⟨Nat.dvd_zero b, by omega⟩, Nat.zero_div]
        rfl
      rw [readBuffersLoop, if_neg hzero]
      dsimp only
      rw [Nat.sub_zero, hnd, if_neg (by omega)]
      rcases Nat.lt_or_ge len b with hlt | hge
      · -- The length wraps around.
        have hwrap : sizeSub len b = len + 2 ^ 64 - b := by
          unfold sizeSub
          omega
        rw [hwrap, readBuffersLoop_none hn nds (i + 1) _ hs.tail (by omega) (by omega), if_neg]
        rintro ⟨hdvd, -⟩
        have := Nat.le_of_dvd (Nat.pos_of_ne_zero hzero) hdvd
        omega
      · obtain ⟨m, rfl⟩ := Nat.exists_eq_add_of_le hge
        have hsub : sizeSub (b + m) b = m :=
          (sizeSub_of_le hge (by omega)).trans (Nat.add_sub_cancel_left b m)
        rw [hsub, readBuffersLoop_aligned hb hn nds (i + 1) m hs.tail (by omega) (by omega),
          Nat.add_div_left m hb, blocks_succ]
        have hcond : b ∣ b + m ∧ b + m < nds.length * b + b ↔ b ∣ m ∧ m < nds.length * b := by
          rw [Nat.dvd_add_right (Nat.dvd_refl b)]
          exact and_congr_right fun _ => by omega
        simp only [hcond]
        by_cases hm : b ∣ m ∧ m < nds.length * b
        · rw [if_pos hm, if_pos hm]
        · rw [if_neg hm, if_neg hm]

/-- The loop from the first node on. -/
theorem readBuffersLoop_eq {b n : ℕ} (hb : 0 < b) (hn : 0 < n) {nds : List Node} (i : ℕ)
    {npos : ℕ} (hs : Sized b nds) (hpos : npos < b) (hfits : npos + n ≤ nds.length * b)
    (hbound : nds.length * b ≤ 2 ^ 47) :
    readBuffersLoop n nds i npos n =
      if n ≤ b - npos then some [⟨i, npos, n⟩]
      else if n ≤ b then some [⟨i, npos, b - npos⟩, ⟨i + 1, 0, n - (b - npos)⟩]
      else if b ∣ npos + n ∧ npos + n < nds.length * b then
        some (⟨i, npos, b - npos⟩ :: blocks b (i + 1) ((n - (b - npos)) / b))
      else none := by
  cases nds with
  | nil =>
      rw [List.length_nil, Nat.zero_mul] at hfits
      omega
  | cons nd nds =>
      have hnd : nd.size = b := hs nd List.mem_cons_self
      rw [List.length_cons, Nat.succ_mul] at hfits hbound ⊢
      rw [readBuffersLoop, if_neg (by omega)]
      dsimp only
      rw [hnd]
      by_cases hone : n ≤ b - npos
      · rw [if_pos hone, if_pos hone]
      have hsub : sizeSub n (b - npos) = n - (b - npos) := sizeSub_of_le (by omega) (by omega)
      rw [if_neg hone, if_neg hone, hsub]
      by_cases htwo : n ≤ b
      · rw [if_pos htwo]
        cases nds with
        | nil =>
            rw [List.length_nil, Nat.zero_mul] at hfits
            omega
        | cons nd' nds =>
            have hnd' : nd'.size = b := hs nd' (List.mem_cons_of_mem _ List.mem_cons_self)
            rw [readBuffersLoop, if_neg (by omega)]
            dsimp only
            rw [Nat.sub_zero, hnd', if_pos htwo]
      · obtain ⟨m, hm⟩ : ∃ m, n - (b - npos) = m := ⟨_, rfl⟩
        have hsum : npos + n = b + m := by omega
        have hcond : b ∣ npos + n ∧ npos + n < nds.length * b + b ↔
            b ∣ m ∧ m < nds.length * b := by
          rw [hsum, Nat.dvd_add_right (Nat.dvd_refl b)]
          exact and_congr_right fun _ => by omega
        rw [if_neg htwo, hm, readBuffersLoop_aligned hb (Nat.not_le.mp htwo) nds (i + 1) m
          hs.tail (by omega) (by omega)]
        simp only [hcond]
        by_cases hrest : b ∣ m ∧ m < nds.length * b
        · rw [if_pos hrest, if_pos hrest]
        · rw [if_neg hrest, if_neg hrest]

/-! ## What the buffers hold -/

/-- The buffer is a part of a node there is. -/
def InNode (a : ByteArray) (iov : Iovec) : Prop :=
  ∃ nd, a.nodes[iov.node]? = some nd ∧ iov.offset + iov.len ≤ nd.size

/-- The buffers are parts of nodes and together hold the bytes `d`. -/
def Holds (a : ByteArray) (iovs : List Iovec) (d : List UInt8) : Prop :=
  a.gather iovs = d ∧ ∀ iov ∈ iovs, a.InNode iov

theorem gather_cons (a : ByteArray) (iov : Iovec) (iovs : List Iovec) {nd : Node}
    (h : a.nodes[iov.node]? = some nd) :
    a.gather (iov :: iovs) = slice nd.ptr iov.offset iov.len ++ a.gather iovs := by
  simp only [gather, List.flatMap_cons, h]

section Chain

variable {a : ByteArray} {b : ℕ} {nd : Node} {nds : List Node} {i : ℕ}

theorem getElem?_of_drop (h : a.nodes.drop i = nd :: nds) :
    a.nodes[i]? = some nd ∧ a.nodes.drop (i + 1) = nds := by
  constructor
  · have hget := congrArg (·[0]?) h
    rw [List.getElem?_drop, Nat.add_zero] at hget
    exact hget
  · rw [← List.drop_drop, h]
    rfl

theorem holds_one (h : a.nodes.drop i = nd :: nds) {npos n : ℕ} (hfits : npos + n ≤ nd.size) :
    a.Holds [⟨i, npos, n⟩] (slice (bytesOf (nd :: nds)) npos n) := by
  obtain ⟨hget, -⟩ := getElem?_of_drop h
  refine ⟨?_, ?_⟩
  · rw [gather_cons a _ [] hget, bytesOf_cons, slice_append_left hfits]
    exact List.append_nil _
  · intro iov hiov
    rw [List.mem_singleton.mp hiov]
    exact ⟨nd, hget, hfits⟩

theorem holds_cons (h : a.nodes.drop i = nd :: nds) {npos n : ℕ} {iovs : List Iovec}
    (hpos : npos ≤ nd.size) (hn : nd.size - npos ≤ n)
    (hrest : a.Holds iovs (slice (bytesOf nds) 0 (n - (nd.size - npos)))) :
    a.Holds (⟨i, npos, nd.size - npos⟩ :: iovs) (slice (bytesOf (nd :: nds)) npos n) := by
  obtain ⟨hget, -⟩ := getElem?_of_drop h
  refine ⟨?_, ?_⟩
  · rw [gather_cons a _ iovs hget, hrest.1, bytesOf_cons, slice_append_cross hpos hn]
    rfl
  · intro iov hiov
    rcases List.mem_cons.mp hiov with rfl | hiov
    · refine ⟨nd, hget, ?_⟩
      show npos + (nd.size - npos) ≤ nd.size
      omega
    · exact hrest.2 iov hiov

theorem holds_blocks (hs : Sized b a.nodes) : ∀ (k : ℕ) {nds : List Node} {i : ℕ},
    a.nodes.drop i = nds → k ≤ nds.length →
      a.Holds (blocks b i k) (slice (bytesOf nds) 0 (k * b))
  | 0, nds, i, _, _ => by
      refine ⟨?_, fun iov hiov => absurd hiov List.not_mem_nil⟩
      rw [Nat.zero_mul, slice, List.take_zero]
      rfl
  | k + 1, [], i, _, hk => absurd hk (by simp)
  | k + 1, nd :: nds, i, h, hk => by
      obtain ⟨hget, hdrop⟩ := getElem?_of_drop h
      have hnd : nd.size = b := hs nd (List.mem_of_getElem? hget)
      have hrest := holds_blocks hs k hdrop (by rw [List.length_cons] at hk; omega)
      have hlen : (k + 1) * b - (nd.size - 0) = k * b := by
        rw [hnd, Nat.succ_mul]
        omega
      rw [← hlen] at hrest
      have hcons := holds_cons h (Nat.zero_le nd.size) (by rw [hnd, Nat.succ_mul]; omega) hrest
      rw [Nat.sub_zero, hnd] at hcons
      rw [blocks_succ]
      exact hcons

end Chain

/-! ## `getReadBuffers` -/

/-- What the loop can hand out: no more than a node has, or whole nodes up to a node behind
which there is another one. -/
def Spans (a : ByteArray) (start n : ℕ) : Prop :=
  n ≤ a.baseSize ∨ a.baseSize ∣ start + n ∧ start + n < a.capacity

instance (a : ByteArray) (start n : ℕ) : Decidable (a.Spans start n) :=
  inferInstanceAs (Decidable (_ ∨ _))

/-- The chain from the node of a position on. -/
theorem Placed.drop_div {a : ByteArray} (h : Placed a) {start : ℕ} (hlt : start < a.capacity) :
    (a.nodes.drop (start / a.baseSize)).length * a.baseSize + start =
        a.capacity + start % a.baseSize ∧
      ∀ n, slice (bytesOf (a.nodes.drop (start / a.baseSize))) (start % a.baseSize) n =
        slice a.flat.cells start n := by
  have hb := h.base_pos
  have hi : start / a.baseSize < a.nodes.length := by
    rw [Nat.div_lt_iff_lt_mul hb, h.nodes_capacity]
    exact hlt
  have hbefore : Sized a.baseSize (a.nodes.take (start / a.baseSize)) :=
    fun nd hnd => h.sized nd (List.mem_of_mem_take hnd)
  have hlen : (bytesOf (a.nodes.take (start / a.baseSize))).length =
      start / a.baseSize * a.baseSize := by
    rw [length_bytesOf hbefore, List.length_take, Nat.min_eq_left hi.le]
  have hmod := Nat.div_add_mod' start a.baseSize
  refine ⟨?_, fun n => ?_⟩
  · have hmul : (a.nodes.length - start / a.baseSize) * a.baseSize +
        start / a.baseSize * a.baseSize = a.capacity := by
      rw [← Nat.add_mul, Nat.sub_add_cancel hi.le, h.nodes_capacity]
    rw [List.length_drop]
    omega
  · have hcells : a.flat.cells = bytesOf (a.nodes.take (start / a.baseSize)) ++
        bytesOf (a.nodes.drop (start / a.baseSize)) := by
      rw [flat_cells, ← bytesOf_append, List.take_append_drop]
    conv_rhs => rw [← hmod, ← hlen, hcells, slice_append_right]

/-- The loop from the node of a position on: the buffers hold what is asked for, or it runs
off the chain. -/
theorem readBuffersLoop_spans {a : ByteArray} (h : Placed a) {start n : ℕ} (hn : 0 < n)
    (hfits : start + n ≤ a.capacity) :
    (a.Spans start n → ∃ iovs,
      readBuffersLoop n (a.nodes.drop (start / a.baseSize)) (start / a.baseSize)
        (start % a.baseSize) n = some iovs ∧ a.Holds iovs (slice a.flat.cells start n)) ∧
    (¬a.Spans start n →
      readBuffersLoop n (a.nodes.drop (start / a.baseSize)) (start / a.baseSize)
        (start % a.baseSize) n = none) := by
  have hb := h.base_pos
  have hbound := h.bounded
  obtain ⟨hlen, hslice⟩ := h.drop_div (show start < a.capacity by omega)
  have hpos := Nat.mod_lt start hb
  have hle := Nat.mod_le start a.baseSize
  rw [← hslice]
  obtain ⟨i, hi⟩ : ∃ i, start / a.baseSize = i := ⟨_, rfl⟩
  obtain ⟨npos, hnpos⟩ : ∃ npos, start % a.baseSize = npos := ⟨_, rfl⟩
  obtain ⟨nds, hnds⟩ : ∃ nds, a.nodes.drop i = nds := ⟨_, rfl⟩
  rw [hi] at hlen ⊢
  rw [hnpos] at hlen hpos hle ⊢
  rw [hnds] at hlen ⊢
  have hsized : Sized a.baseSize nds := by
    rw [← hnds]
    exact fun nd hnd => h.sized nd (List.mem_of_mem_drop hnd)
  have hspans : a.Spans start n ↔
      n ≤ a.baseSize ∨ a.baseSize ∣ npos + n ∧ npos + n < nds.length * a.baseSize := by
    have hdvd : a.baseSize ∣ start + n ↔ a.baseSize ∣ npos + n := by
      rw [← hnpos, Nat.dvd_iff_mod_eq_zero, Nat.dvd_iff_mod_eq_zero, Nat.mod_add_mod]
    rw [Spans, hdvd]
    exact or_congr_right (and_congr_right fun _ => by omega)
  rw [hspans, readBuffersLoop_eq hb hn i hsized hpos (by omega) (by omega)]
  cases nds with
  | nil =>
      rw [List.length_nil, Nat.zero_mul] at hlen
      omega
  | cons nd nds =>
      have hnd : nd.size = a.baseSize := hsized nd List.mem_cons_self
      obtain ⟨hget, hdrop⟩ := getElem?_of_drop hnds
      rw [List.length_cons, Nat.succ_mul] at hlen ⊢
      by_cases hone : n ≤ a.baseSize - npos
      · rw [if_pos hone]
        exact ⟨fun _ => ⟨_, rfl, holds_one hnds (by omega)⟩, fun hnot => absurd (by omega) hnot⟩
      rw [if_neg hone]
      by_cases htwo : n ≤ a.baseSize
      · rw [if_pos htwo]
        refine ⟨fun _ => ⟨_, rfl, ?_⟩, fun hnot => absurd (Or.inl htwo) hnot⟩
        rw [← hnd]
        refine holds_cons hnds (by omega) (by omega) ?_
        cases nds with
        | nil =>
            rw [List.length_nil, Nat.zero_mul] at hlen
            omega
        | cons nd' nds =>
            have hnd' : nd'.size = a.baseSize :=
              hsized nd' (List.mem_cons_of_mem _ List.mem_cons_self)
            exact holds_one hdrop (by omega)
      · rw [if_neg htwo, or_iff_right htwo]
        constructor
        · rintro ⟨hdvd, hlt⟩
          rw [if_pos ⟨hdvd, hlt⟩]
          refine ⟨_, rfl, ?_⟩
          rw [← hnd]
          refine holds_cons hnds (by omega) (by omega) ?_
          -- What is left is a whole number of nodes.
          have hleft : a.baseSize ∣ n - (nd.size - npos) := by
            have hsum : npos + n = a.baseSize + (n - (nd.size - npos)) := by omega
            rw [hsum] at hdvd
            exact (Nat.dvd_add_right (Nat.dvd_refl _)).mp hdvd
          obtain ⟨k, hk⟩ := hleft
          rw [hk, hnd, Nat.mul_div_cancel_left k hb, Nat.mul_comm]
          have hlt' : k * a.baseSize < nds.length * a.baseSize := by
            rw [Nat.mul_comm k, ← hk]
            omega
          exact holds_blocks h.sized k hdrop (Nat.lt_of_mul_lt_mul_right hlt').le
        · intro hnot
          rw [if_neg hnot]

/-- What is asked of `getReadBuffers`: the number of bytes there are from `start` on, up to
`len`, and buffers that hold just these. -/
def HandsOut (a : ByteArray) (start len : ℕ) (r : Except Fault (List Iovec × ℕ)) : Prop :=
  ∃ iovs, r = .ok (iovs, min len (a.size - start)) ∧
    a.Holds iovs (slice a.flat.cells start (min len (a.size - start)))

theorem clip_eq_min (len size : ℕ) : (if size < len then size else len) = min len size := by
  rw [Nat.min_comm]
  split <;> omega

theorem handsOut_nil {a : ByteArray} {start len : ℕ} (hzero : min len (a.size - start) = 0) :
    a.HandsOut start len (.ok ([], 0)) := by
  refine ⟨[], by rw [hzero], ?_, fun iov hiov => absurd hiov List.not_mem_nil⟩
  rw [hzero, slice, List.take_zero]
  rfl

/-- The loop and what is returned for it. -/
theorem handsOut_loop_iff {a : ByteArray} (h : Placed a) {start len : ℕ}
    (hn : 0 < min len (a.size - start)) :
    (a.HandsOut start len
      (match readBuffersLoop (min len (a.size - start)) (a.nodes.drop (start / a.baseSize))
          (start / a.baseSize) (start % a.baseSize) (min len (a.size - start)) with
        | none => .error .nullDeref
        | some iovs => .ok (iovs, min len (a.size - start)))) ↔
      a.Spans start (min len (a.size - start)) := by
  have hsize := h.size_le
  have hfits : start + min len (a.size - start) ≤ a.capacity := by omega
  obtain ⟨hright, hwrong⟩ := readBuffersLoop_spans h hn hfits
  constructor
  · rintro ⟨iovs, hok, -⟩
    by_contra hspans
    rw [hwrong hspans] at hok
    cases hok
  · intro hspans
    obtain ⟨iovs, hloop, hholds⟩ := hright hspans
    rw [hloop]
    exact ⟨iovs, rfl, hholds⟩

/-- The second overload runs the same loop: all nodes have the size of `m_cur`. -/
theorem getReadBuffersAt_eq {a : ByteArray} (h : Placed a) {len position n : ℕ}
    (hn : min len (a.size - a.position) = n) (hpos : 0 < n) (hlt : position < a.capacity) :
    a.getReadBuffersAt len position =
      match readBuffersLoop n (a.nodes.drop (position / a.baseSize)) (position / a.baseSize)
          (position % a.baseSize) n with
      | none => .error .nullDeref
      | some iovs => .ok (iovs, n) := by
  have hsize := h.size_le
  have hcurlt : a.position < a.capacity := by omega
  have hfits := h.fromCur_fits (n := n) hcurlt (by omega)
  obtain ⟨-, -, -, -, hsf⟩ := h.split hcurlt
  obtain ⟨hlen, -⟩ := h.drop_div hlt
  have hmod := Nat.mod_le position a.baseSize
  simp only [getReadBuffersAt, h.getReadSize_eq, clip_eq_min, hn]
  rw [if_neg hpos.ne']
  cases hcur : a.fromCur with
  | nil =>
      rw [hcur, List.length_nil, Nat.zero_mul] at hfits
      omega
  | cons cur rest =>
      have hcursize : cur.size = a.baseSize := hsf cur (by rw [hcur]; exact List.mem_cons_self)
      cases hnds : a.nodes.drop (position / a.baseSize) with
      | nil =>
          rw [hnds, List.length_nil, Nat.zero_mul] at hlen
          omega
      | cons nd nds =>
          have hnd : nd.size = a.baseSize :=
            h.sized nd (List.mem_of_mem_drop (by rw [hnds]; exact List.mem_cons_self))
          dsimp only
          rw [readBuffersLoop, if_neg hpos.ne', hcursize, hnd]
          dsimp only
          by_cases hone : n ≤ a.baseSize - position % a.baseSize
          · rw [if_pos hone, if_pos hone]
          · rw [if_neg hone, if_neg hone]
            cases readBuffersLoop n nds (position / a.baseSize + 1) 0
              (sizeSub n (a.baseSize - position % a.baseSize)) <;> rfl

/-- **`getReadBuffers`.** Both overloads give what they are asked for just where the loop,
which compares with the whole request, comes out; the second one moreover only where what
is left from the cursor limits the request as what is left from `position` does. -/
theorem getReadBuffers_iff {a : ByteArray} (h : Reachable a) (len : ℕ) :
    (a.HandsOut a.position len (a.getReadBuffers len) ↔
      a.Spans a.position (min len (a.size - a.position))) ∧
    ∀ position ≤ a.size,
      (a.HandsOut position len (a.getReadBuffersAt len position) ↔
        min len (a.size - a.position) = min len (a.size - position) ∧
          a.Spans position (min len (a.size - position))) := by
  have hpl := h.placed
  have hsize := hpl.size_le
  refine ⟨?_, fun position hposition => ?_⟩
  · simp only [getReadBuffers, hpl.getReadSize_eq, clip_eq_min]
    by_cases hzero : min len (a.size - a.position) = 0
    · rw [if_pos hzero]
      exact ⟨fun _ => Or.inl (by omega), fun _ => handsOut_nil hzero⟩
    · have hlt : a.position < a.capacity := by omega
      obtain ⟨-, hlen, -, -, -⟩ := hpl.split hlt
      have hcur := hpl.cur_eq
      rw [if_neg hlt.ne] at hcur
      have hfrom : a.fromCur = a.nodes.drop (a.position / a.baseSize) := by
        rw [fromCur, hcur]
      rw [if_neg hzero, hfrom, hlen]
      exact handsOut_loop_iff hpl (Nat.pos_of_ne_zero hzero)
  · by_cases hzero : min len (a.size - a.position) = 0
    · have hnone : a.getReadBuffersAt len position = .ok ([], 0) := by
        simp only [getReadBuffersAt, hpl.getReadSize_eq, clip_eq_min, hzero, if_true]
      rw [hnone, hzero]
      constructor
      · rintro ⟨iovs, hok, -⟩
        simp only [Except.ok.injEq, Prod.mk.injEq] at hok
        exact ⟨hok.2, Or.inl (by omega)⟩
      · rintro ⟨heq, -⟩
        exact handsOut_nil heq.symm
    rcases Nat.lt_or_ge position a.capacity with hlt | hge
    · have hloop := getReadBuffersAt_eq hpl rfl (Nat.pos_of_ne_zero hzero) hlt
      rw [hloop]
      by_cases heq : min len (a.size - a.position) = min len (a.size - position)
      · rw [heq] at hzero ⊢
        rw [handsOut_loop_iff hpl (Nat.pos_of_ne_zero hzero)]
        exact ⟨fun hspans => ⟨rfl, hspans⟩, And.right⟩
      · refine iff_of_false ?_ fun hboth => heq hboth.1
        rintro ⟨iovs, hok, -⟩
        generalize readBuffersLoop _ _ _ _ _ = r at hok
        cases r with
        | none => cases hok
        | some iovs' =>
            simp only [Except.ok.injEq, Prod.mk.injEq] at hok
            exact heq hok.2
    · -- Nothing is left from `position` on, and the chain ends before it.
      have hdrop : a.nodes.drop (position / a.baseSize) = [] := by
        rw [List.drop_eq_nil_iff, Nat.le_div_iff_mul_le hpl.base_pos, hpl.nodes_capacity]
        exact hge
      have hnull : a.getReadBuffersAt len position = .error .nullDeref := by
        simp only [getReadBuffersAt, hpl.getReadSize_eq, clip_eq_min, if_neg hzero, hdrop]
        cases a.fromCur <;> rfl
      rw [hnull]
      refine iff_of_false ?_ fun hboth => hzero ?_
      · rintro ⟨iovs, hok, -⟩
        cases hok
      · rw [hboth.1]
        omega

/-- Three bytes in nodes of two, with the cursor in front. -/
def threeBytes : ByteArray := ⟨2, 4, 0, 3, [⟨[1, 2]⟩, ⟨[3, 0]⟩], some 0⟩

theorem reachable_threeBytes : Reachable threeBytes := by
  refine reachable_iff_placed.mpr ?_
  constructor <;> simp [threeBytes, Sized, Node.size]

theorem getReadBuffers_iff_two :
    threeBytes.HandsOut 0 2 (threeBytes.getReadBuffers 2) ∧
      threeBytes.HandsOut 1 2 (threeBytes.getReadBuffersAt 2 1) :=
  have hiff := getReadBuffers_iff reachable_threeBytes 2
  ⟨hiff.1.mpr (by decide), (hiff.2 1 (by decide)).mpr (by decide)⟩

theorem getReadBuffers_runsOff :
    Reachable threeBytes ∧ threeBytes.getReadBuffers 3 = .error .nullDeref ∧
      threeBytes.getReadBuffersAt 3 0 = .error .nullDeref :=
  ⟨reachable_threeBytes, by decide, by decide⟩

/-! ## `getWriteBuffers` -/

/-- Growing fails only for want of memory. -/
theorem extend_error {mem : Allocator} {k : ℕ} {f : Flat} {e : Fault}
    (h : (f.extend mem k).1 = .error e) : e = .badAlloc := by
  rcases Flat.extend_refused mem k f with hok | ⟨hbad, -⟩
  · rw [hok] at h
    cases h
  · rw [hbad] at h
    exact (Except.error.inj h).symm

/-- What `addCapacity` makes of an array: more cells behind those there were. -/
theorem addCapacity_grows {a : ByteArray} (h : Placed a) {mem : Allocator} {n : ℕ} (hn : 0 < n)
    {a' : ByteArray} (hadd : addCapacity mem a n = (.ok (), a')) :
    Placed a' ∧ a'.position + n ≤ a'.capacity ∧
      ∃ more, a'.flat = { a.flat with cells := a.flat.cells ++ more } := by
  obtain ⟨⟨hflat, hpl⟩, hfits⟩ := addCapacity_spec h mem hn
  rw [hadd] at hflat hpl hfits
  obtain ⟨more, hmore⟩ := Flat.extend_grows mem (a.flat.need n) a.flat
  refine ⟨hpl fun hne => (nomatch hne), hfits rfl, more, ?_⟩
  rw [← hmore, ← Flat.reserve, hflat]

/-- The array with bytes stored into its buffers. -/
theorem scatter_placed {a : ByteArray} (h : Placed a) {iovs : List Iovec} {len : ℕ}
    (hlt : a.position < a.capacity) (htiles : Tiles a.baseSize a.fromCur a.beforeCur.length
      (a.position % a.baseSize) len iovs) {d : List UInt8} (hd : d.length ≤ len) :
    Placed { a with nodes := scatter a.nodes iovs d } ∧
      flat { a with nodes := scatter a.nodes iovs d } =
        { a.flat with cells := overlay a.flat.cells a.position d } := by
  obtain ⟨hnodes, -, hpos, hsb, -⟩ := h.split hlt
  obtain ⟨nds', hscatter, hsized, hlength, hbytes⟩ := htiles.scatter_eq a.beforeCur d rfl hd
  rw [← hnodes] at hscatter
  have hsame : (a.beforeCur ++ nds').length = a.nodes.length := by
    rw [List.length_append, hlength, ← List.length_append, ← hnodes]
  have hover : bytesOf (a.beforeCur ++ nds') = overlay a.flat.cells a.position d := by
    rw [bytesOf_append, hbytes, ← overlay_append_right, hpos, ← bytesOf_append, ← hnodes,
      flat_cells]
  rw [hscatter]
  refine ⟨{ h with sized := hsb.append hsized, nodes_pos := ?_, nodes_capacity := ?_ }, ?_⟩
  · rw [hsame]
    exact h.nodes_pos
  · rw [hsame]
    exact h.nodes_capacity
  · simp only [flat, hover]

/-- What a `write` that goes through leaves behind. -/
theorem write_content {a : ByteArray} (h : Placed a) {mem : Allocator} {d : List UInt8}
    {a' : ByteArray} (hwrite : a.write mem d = (.ok (), a')) :
    a'.position = a.position + d.length ∧ a'.size = max a.size (a.position + d.length) ∧
      a'.flat.cells.take a'.size = overlay (a.flat.cells.take a.size) a.position d := by
  have hflat := (write_spec h mem d).flat_eq
  rw [hwrite] at hflat
  obtain ⟨more, hmore⟩ := Flat.extend_grows mem (a.flat.need d.length) a.flat
  have hsize : a.size ≤ a.flat.cells.length := h.size_le.trans_eq h.length_cells.symm
  unfold Flat.write Flat.reserve at hflat
  generalize a.flat.extend mem (a.flat.need d.length) = r at hflat hmore
  obtain ⟨res, f⟩ := r
  cases res with
  | error e => cases hflat
  | ok u =>
      simp only at hmore
      subst hmore
      simp only [Prod.mk.injEq, true_and, flat, Flat.mk.injEq] at hflat
      obtain ⟨-, hcells, hpos, hsz⟩ := hflat
      refine ⟨hpos.symm, hsz.symm, ?_⟩
      rw [flat_cells, ← hcells, ← hsz]
      exact take_overlay_append more h.position_le hsize

theorem write_ok {a : ByteArray} (h : Placed a) {mem : Allocator} {d : List UInt8}
    (hne : (a.write mem d).1 ≠ .error .badAlloc) : ∃ a', a.write mem d = (.ok (), a') := by
  have hflat := (write_spec h mem d).flat_eq
  rcases hres : a.write mem d with ⟨e | ⟨⟨⟩⟩, a'⟩
  · rw [hres] at hflat hne
    refine absurd ?_ hne
    have herror : (a.flat.extend mem (a.flat.need d.length)).1 = .error e := by
      unfold Flat.write Flat.reserve at hflat
      rcases hext : a.flat.extend mem (a.flat.need d.length) with ⟨e' | ⟨⟨⟩⟩, f⟩
      · rw [hext] at hflat
        cases hflat
        rfl
      · rw [hext] at hflat
        cases hflat
    rw [extend_error herror]
  · exact ⟨a', rfl⟩

/-- **Storing into the buffers is writing.** `getWriteBuffers` hands out buffers for just the
bytes asked for, in nodes there are and with no byte twice, and moves nothing. With the first
`r` bytes stored into them and the cursor put behind, the array is what `write` leaves. -/
theorem getWriteBuffers_write {a : ByteArray} (h : Reachable a) (mem mem' : Allocator)
    {d : List UInt8} (hd : 1 ≤ d.length) {r : ℕ} (hr : 1 ≤ r) (hle : r ≤ d.length)
    (hget : (a.getWriteBuffers mem d.length).1 ≠ .error .badAlloc)
    (hput : (a.write mem' (d.take r)).1 ≠ .error .badAlloc) :
    ∃ iovs a₁ a₂ a₃, a.getWriteBuffers mem d.length = (.ok (iovs, d.length), a₁) ∧
      a₁.position = a.position ∧ a₁.size = a.size ∧
      (iovs.map Iovec.len).sum = d.length ∧ iovs.Pairwise Iovec.Apart ∧
      (∀ iov ∈ iovs, a₁.InNode iov) ∧
      setPosition { a₁ with nodes := scatter a₁.nodes iovs (d.take r) } (a.position + r) =
        (.ok (), a₂) ∧
      a.write mem' (d.take r) = (.ok (), a₃) ∧
      a₂.flat.cells.take a₂.size = a₃.flat.cells.take a₃.size ∧
      a₂.position = a₃.position ∧ a₂.size = a₃.size := by
  have hpl := h.placed
  have htake : (d.take r).length = r := List.length_take_of_le hle
  obtain ⟨a₁, hadd⟩ : ∃ a₁, addCapacity mem a d.length = (.ok (), a₁) := by
    have hflat := (addCapacity_spec hpl mem hd).1.flat_eq
    rcases hres : addCapacity mem a d.length with ⟨e | ⟨⟨⟩⟩, a₁⟩
    · rw [hres] at hflat
      have hbad := extend_error (congrArg Prod.fst hflat)
      rw [getWriteBuffers, if_neg (by omega), hres, hbad] at hget
      exact absurd rfl hget
    · exact ⟨a₁, rfl⟩
  obtain ⟨hpl₁, hfits, more, hmore⟩ := addCapacity_grows hpl hd hadd
  obtain ⟨hbase, hcells, hpos, hsize⟩ : a₁.baseSize = a.baseSize ∧
      a₁.flat.cells = a.flat.cells ++ more ∧ a₁.position = a.position ∧ a₁.size = a.size := by
    simpa only [flat, Flat.mk.injEq] using hmore
  have hlt : a₁.position < a₁.capacity := by omega
  obtain ⟨hnodes, -, -, -, hsf⟩ := hpl₁.split hlt
  obtain ⟨iovs, hloop, htiles⟩ := buffersLoop_tiles a₁.fromCur a₁.beforeCur.length
    (a₁.position % a₁.baseSize) d.length hsf (Nat.mod_lt _ hpl₁.base_pos) hd
    (hpl₁.fromCur_fits hlt hfits)
  obtain ⟨hplS, hflatS⟩ := scatter_placed hpl₁ hlt htiles (htake.trans_le hle)
  -- The cursor is put behind what was stored.
  have hset := (setPosition_spec hplS (a.position + r)).flat_eq
  have hcap : ¬a₁.capacity < a.position + r := by omega
  rw [hflatS, Flat.setPosition, ← hflatS, hplS.length_cells, if_neg hcap, hflatS] at hset
  obtain ⟨a₃, hwrite⟩ := write_ok hpl hput
  obtain ⟨hpos₃, hsize₃, hcontent₃⟩ := write_content hpl hwrite
  rcases hres : setPosition { a₁ with nodes := scatter a₁.nodes iovs (d.take r) }
    (a.position + r) with ⟨res, a₂⟩
  rw [hres, Prod.mk.injEq] at hset
  obtain ⟨rfl, hflat₂⟩ := hset
  obtain ⟨-, hcells₂, hpos₂, hsize₂⟩ : a₁.baseSize = a₂.baseSize ∧
      overlay a₁.flat.cells a₁.position (d.take r) = a₂.flat.cells ∧
      a.position + r = a₂.position ∧ max a₁.size (a.position + r) = a₂.size := by
    simpa only [flat, Flat.mk.injEq] using hflat₂
  rw [htake] at hpos₃ hsize₃
  refine ⟨iovs, a₁, a₂, a₃, ?_, hpos, hsize, htiles.sum_eq, htiles.apart, ?_, hres, hwrite,
    ?_, hpos₂.symm.trans hpos₃.symm, ?_⟩
  · rw [getWriteBuffers, if_neg (by omega), hadd]
    dsimp only
    rw [hloop]
  · intro iov hiov
    obtain ⟨-, hlast, hin⟩ := htiles.inNode iov hiov
    rw [← List.length_append, ← hnodes] at hlast
    have hmem := List.getElem?_eq_getElem hlast
    exact ⟨_, hmem, (hpl₁.sized _ (List.mem_of_getElem? hmem)).symm ▸ hin⟩
  · rw [hcontent₃, ← hcells₂, ← hsize₂, hcells, hpos, hsize]
    have hover := take_overlay_append (d := d.take r) more hpl.position_le
      (hpl.size_le.trans_eq hpl.length_cells.symm)
    rw [htake] at hover
    exact hover
  · rw [← hsize₂, hsize₃, hsize]

/-- Two bytes in a node of two, with the cursor behind them and no current node. -/
def twoBytes : ByteArray := ⟨2, 2, 2, 2, [⟨[1, 2]⟩], none⟩

theorem reachable_twoBytes : Reachable twoBytes := by
  refine reachable_iff_placed.mpr ?_
  constructor <;> simp [twoBytes, Sized, Node.size]

theorem getWriteBuffers_write_two : ∃ iovs a₁ a₂,
    twoBytes.getWriteBuffers wholeSpace 3 = (.ok (iovs, 3), a₁) ∧
      setPosition { a₁ with nodes := scatter a₁.nodes iovs [5, 6] } 4 = (.ok (), a₂) ∧
      a₂.flat.cells.take 4 = [1, 2, 5, 6] := by
  obtain ⟨iovs, a₁, a₂, a₃, hget, -, -, -, -, -, hset, hwrite, hcells, -, hsize⟩ :=
    getWriteBuffers_write reachable_twoBytes wholeSpace wholeSpace (d := [5, 6, 7]) (by decide)
      (r := 2) (by decide) (by decide) (by decide) (by decide)
  obtain ⟨-, hsize₃, hcontent⟩ := write_content reachable_twoBytes.placed hwrite
  have hfour : a₃.size = 4 := hsize₃
  rw [hsize, hfour] at hcells
  rw [hfour] at hcontent
  exact ⟨iovs, a₁, a₂, hget, hset, hcells.trans hcontent⟩

end ByteArray

end Skt
