import Skt.ByteArray.Flat

/-!
# The node chain implements the flat array

`Placed` is the representation invariant: every node has the base size, the
nodes make up the capacity, and `m_cur` is the node the cursor is in. Each
operation of the chain returns what the flat array returns, leaves the chain
whose cells are the flat array's, and keeps `Placed`; a run is then a run of
the flat array, call by call.
-/

namespace Skt

open Lib

namespace ByteArray

/-! ## Representation -/

/-- The bytes stored in a chain of nodes. -/
def bytesOf (nds : List Node) : List UInt8 := nds.flatMap Node.ptr

/-- The flat array a chain stands for. -/
def flat (a : ByteArray) : Flat :=
  ⟨a.baseSize, bytesOf a.nodes, a.position, a.size⟩

/-- All nodes of a chain have size `b`. -/
def Sized (b : ℕ) (nds : List Node) : Prop := ∀ nd ∈ nds, nd.size = b

structure Placed (a : ByteArray) : Prop where
  base_pos : 1 ≤ a.baseSize
  sized : Sized a.baseSize a.nodes
  nodes_pos : 0 < a.nodes.length
  nodes_capacity : a.nodes.length * a.baseSize = a.capacity
  position_le : a.position ≤ a.size
  size_le : a.size ≤ a.capacity
  cur_eq : a.cur =
    if a.position = a.capacity then none else some (a.position / a.baseSize)
  bounded : a.capacity ≤ 2 ^ 47

@[simp] theorem flat_base (a : ByteArray) : a.flat.base = a.baseSize := rfl
@[simp] theorem flat_cells (a : ByteArray) : a.flat.cells = bytesOf a.nodes := rfl
@[simp] theorem flat_pos (a : ByteArray) : a.flat.pos = a.position := rfl
@[simp] theorem flat_size (a : ByteArray) : a.flat.size = a.size := rfl

@[simp] theorem bytesOf_cons (nd : Node) (nds : List Node) :
    bytesOf (nd :: nds) = nd.ptr ++ bytesOf nds := rfl

@[simp] theorem bytesOf_append (nds nds' : List Node) :
    bytesOf (nds ++ nds') = bytesOf nds ++ bytesOf nds' := by
  simp [bytesOf]

theorem length_bytesOf {b : ℕ} : ∀ {nds : List Node}, Sized b nds →
    (bytesOf nds).length = nds.length * b
  | [], _ => by simp [bytesOf]
  | nd :: nds, h => by
      have hnd : nd.ptr.length = b := h nd List.mem_cons_self
      have htl : (bytesOf nds).length = nds.length * b :=
        length_bytesOf fun x hx => h x (List.mem_cons_of_mem _ hx)
      rw [bytesOf_cons, List.length_append, hnd, htl, List.length_cons,
        Nat.succ_mul, Nat.add_comm]

theorem Sized.append {b : ℕ} {nds nds' : List Node} (h : Sized b nds)
    (h' : Sized b nds') : Sized b (nds ++ nds') := by
  intro nd hnd
  rcases List.mem_append.mp hnd with hnd | hnd
  · exact h nd hnd
  · exact h' nd hnd

theorem Sized.tail {b : ℕ} {nd : Node} {nds : List Node}
    (h : Sized b (nd :: nds)) : Sized b nds :=
  fun x hx => h x (List.mem_cons_of_mem _ hx)

theorem Node.size_new (s : ℕ) (junk : ℕ → UInt8) :
    (Node.new s junk).size = s := by
  simp [Node.new, Node.size]

theorem Node.size_store {nd : Node} {npos : ℕ} {d : List UInt8}
    (h : npos + d.length ≤ nd.size) : (nd.store npos d).size = nd.size :=
  length_overlay h

theorem Placed.length_cells {a : ByteArray} (h : Placed a) :
    a.flat.capacity = a.capacity := by
  rw [Flat.capacity, flat_cells, length_bytesOf h.sized, h.nodes_capacity]

/-! ## The loops

Each loop walks whole nodes, so its counter of moves is a quotient by the
base size; the induction is on the rest of the chain and every step consumes
the tail of one node. -/

/-- Crossing the end of a node costs one move. -/
theorem cross_div {b npos n : ℕ} (hb : 0 < b) (hpos : npos < b)
    (hn : b - npos ≤ n) : (npos + n) / b = (n - (b - npos)) / b + 1 := by
  rw [← Nat.add_div_right _ hb]
  congr 1
  omega

theorem within_div {b npos n : ℕ} (hb : 0 < b) (hpos : npos < b)
    (hn : n ≤ b - npos) :
    (npos + n) / b = if b = npos + n then 1 else 0 := by
  split_ifs with h
  · rw [← h, Nat.div_self hb]
  · exact Nat.div_eq_of_lt (by omega)

theorem writeLoop_spec {b : ℕ} (hb : 0 < b) :
    ∀ (nds : List Node) (npos : ℕ) (buf : List UInt8), Sized b nds →
      npos < b → 0 < buf.length → npos + buf.length ≤ nds.length * b →
      ∃ nds', writeLoop nds npos buf = some (nds', (npos + buf.length) / b) ∧
        bytesOf nds' = overlay (bytesOf nds) npos buf ∧
        nds'.length = nds.length ∧ Sized b nds'
  | [], npos, buf, _, _, hbuf, hfit => by
      rw [List.length_nil, Nat.zero_mul] at hfit
      omega
  | nd :: nds, npos, buf, hs, hpos, hbuf, hfit => by
      have hnd : nd.size = b := hs nd List.mem_cons_self
      have hptr : nd.ptr.length = b := hnd
      by_cases hcap : buf.length ≤ b - npos
      · -- the rest of the buffer fits into this node
        have hin : npos + buf.length ≤ nd.ptr.length := by omega
        refine ⟨nd.store npos buf :: nds, ?_, ?_, rfl, ?_⟩
        · simp only [writeLoop, hnd, if_pos hcap]
          rw [within_div hb hpos hcap]
        · rw [bytesOf_cons, bytesOf_cons, overlay_append_left hin]
          rfl
        · intro x hx
          rcases List.mem_cons.mp hx with rfl | hx
          · rw [Node.size_store hin, hnd]
          · exact hs.tail x hx
      · -- fill this node and go on in the next one
        have hdrop : (buf.drop (b - npos)).length = buf.length - (b - npos) :=
          List.length_drop
        have htake : (buf.take (b - npos)).length = b - npos := by
          rw [List.length_take]
          omega
        rw [List.length_cons, Nat.succ_mul] at hfit
        obtain ⟨nds', hloop, hbytes, hlen, hsz⟩ :=
          writeLoop_spec hb nds 0 (buf.drop (b - npos)) hs.tail hb
            (by omega) (by omega)
        refine ⟨nd.store npos (buf.take (b - npos)) :: nds', ?_, ?_, ?_, ?_⟩
        · simp only [writeLoop, hnd, if_neg hcap, hloop]
          rw [cross_div hb hpos (by omega), hdrop, Nat.zero_add]
        · rw [bytesOf_cons, bytesOf_cons, hbytes,
            overlay_append_cross (by omega) (by omega), hptr]
          rfl
        · rw [List.length_cons, List.length_cons, hlen]
        · intro x hx
          rcases List.mem_cons.mp hx with rfl | hx
          · rw [Node.size_store (by rw [htake]; omega), hnd]
          · exact hsz x hx

theorem readLoop_spec {b : ℕ} (hb : 0 < b) :
    ∀ (nds : List Node) (npos n : ℕ), Sized b nds → npos < b → 0 < n →
      npos + n ≤ nds.length * b →
      readLoop nds npos n = some (slice (bytesOf nds) npos n, (npos + n) / b)
  | [], npos, n, _, _, hn, hfit => by
      rw [List.length_nil, Nat.zero_mul] at hfit
      omega
  | nd :: nds, npos, n, hs, hpos, hn, hfit => by
      have hnd : nd.size = b := hs nd List.mem_cons_self
      have hptr : nd.ptr.length = b := hnd
      by_cases hcap : n ≤ b - npos
      · simp only [readLoop, hnd, if_pos hcap]
        rw [bytesOf_cons, slice_append_left (by omega),
          within_div hb hpos hcap]
      · rw [List.length_cons, Nat.succ_mul] at hfit
        have ih := readLoop_spec hb nds 0 (n - (b - npos)) hs.tail hb
          (by omega) (by omega)
        simp only [readLoop, hnd, if_neg hcap, ih]
        rw [bytesOf_cons, slice_append_cross (by omega) (by omega), hptr,
          cross_div hb hpos (by omega), Nat.zero_add]

theorem seek_spec {b : ℕ} (hb : 0 < b) :
    ∀ (nds : List Node) (i v : ℕ), Sized b nds → 0 < nds.length →
      v ≤ nds.length * b → seek nds i v = some (i + v / b)
  | [], _, _, _, hne, _ => absurd hne (by simp)
  | nd :: nds, i, v, hs, _, hv => by
      have hnd : nd.size = b := hs nd List.mem_cons_self
      rw [List.length_cons, Nat.succ_mul] at hv
      simp only [seek, hnd]
      split_ifs with hlt heq
      · have hne : 0 < nds.length := by
          rcases Nat.eq_zero_or_pos nds.length with h0 | hne
          · rw [h0] at hv
            omega
          · exact hne
        rw [seek_spec hb nds (i + 1) (v - b) hs.tail hne (by omega)]
        have hcross : (0 + v) / b = (v - (b - 0)) / b + 1 :=
          cross_div hb hb (by omega)
        rw [Nat.zero_add, Nat.sub_zero] at hcross
        rw [hcross]
        congr 1
        omega
      · rw [heq, Nat.div_self hb]
      · rw [Nat.div_eq_of_lt (by omega), Nat.add_zero]

/-- Store bytes into the buffers, in order, until there are no more of them. -/
def scatter : List Node → List Iovec → List UInt8 → List Node
  | nds, [], _ => nds
  | nds, iov :: iovs, d =>
      scatter (nds.modify iov.node fun nd => nd.store iov.offset (d.take iov.len)) iovs
        (d.drop iov.len)

/-- Two buffers have no byte in common. -/
def Iovec.Apart (v w : Iovec) : Prop :=
  v.node ≠ w.node ∨ v.offset + v.len ≤ w.offset ∨ w.offset + w.len ≤ v.offset

/-- The buffers for `len` bytes of the chain `nds`, from offset `npos` of its first node on.
`i` nodes stand in front of the chain. -/
structure Tiles (b : ℕ) (nds : List Node) (i npos len : ℕ) (iovs : List Iovec) : Prop where
  sum_eq : (iovs.map Iovec.len).sum = len
  inNode : ∀ iov ∈ iovs, i ≤ iov.node ∧ iov.node < i + nds.length ∧ iov.offset + iov.len ≤ b
  apart : iovs.Pairwise Iovec.Apart
  scatter_eq : ∀ (pre : List Node) (d : List UInt8), pre.length = i → d.length ≤ len →
    ∃ nds', scatter (pre ++ nds) iovs d = pre ++ nds' ∧ Sized b nds' ∧
      nds'.length = nds.length ∧ bytesOf nds' = overlay (bytesOf nds) npos d

theorem modify_append_length (pre : List Node) (nd : Node) (nds : List Node) (f : Node → Node) :
    (pre ++ nd :: nds).modify pre.length f = pre ++ f nd :: nds := by
  induction pre with
  | nil => rfl
  | cons x pre ih =>
      simp only [List.cons_append, List.length_cons, List.modify_succ_cons, ih]

theorem buffersLoop_tiles {b : ℕ} :
    ∀ (nds : List Node) (i npos len : ℕ), Sized b nds → npos < b → 0 < len →
      npos + len ≤ nds.length * b →
      ∃ iovs, buffersLoop nds i npos len = some iovs ∧ Tiles b nds i npos len iovs
  | [], _, npos, len, _, _, hlen, hfit => by
      rw [List.length_nil, Nat.zero_mul] at hfit
      omega
  | nd :: nds, i, npos, len, hs, hpos, hlen, hfit => by
      have hnd : nd.size = b := hs nd List.mem_cons_self
      have hptr : nd.ptr.length = b := hnd
      rw [List.length_cons, Nat.succ_mul] at hfit
      by_cases hcap : len ≤ b - npos
      · refine ⟨[⟨i, npos, len⟩], by simp only [buffersLoop, hnd, if_pos hcap], ?_⟩
        refine ⟨rfl, ?_, List.pairwise_singleton _ _, ?_⟩
        · intro iov hiov
          rw [List.mem_singleton.mp hiov, List.length_cons]
          dsimp only
          omega
        · rintro pre d rfl hd
          refine ⟨nd.store npos d :: nds, ?_, ?_, rfl, ?_⟩
          · rw [scatter, modify_append_length, List.take_of_length_le hd]
            rfl
          · intro x hx
            rcases List.mem_cons.mp hx with rfl | hx
            · rw [Node.size_store (by omega), hnd]
            · exact hs.tail x hx
          · rw [bytesOf_cons, bytesOf_cons, overlay_append_left (by omega)]
            rfl
      · obtain ⟨iovs, hloop, htiles⟩ := buffersLoop_tiles nds (i + 1) 0 (len - (b - npos)) hs.tail
          (by omega) (by omega) (by omega)
        refine ⟨⟨i, npos, b - npos⟩ :: iovs, by simp only [buffersLoop, hnd, if_neg hcap, hloop],
          ?_⟩
        refine ⟨?_, ?_, ?_, ?_⟩
        · rw [List.map_cons, List.sum_cons, htiles.sum_eq]
          exact Nat.add_sub_cancel' (Nat.not_le.mp hcap).le
        · intro iov hiov
          rw [List.length_cons]
          rcases List.mem_cons.mp hiov with rfl | hiov
          · dsimp only
            omega
          · obtain ⟨hfirst, hlast, hin⟩ := htiles.inNode iov hiov
            omega
        · refine List.pairwise_cons.mpr ⟨fun iov hiov => Or.inl ?_, htiles.apart⟩
          obtain ⟨hfirst, -, -⟩ := htiles.inNode iov hiov
          dsimp only
          omega
        · rintro pre d rfl hd
          have htake : (d.take (b - npos)).length ≤ b - npos := by
            rw [List.length_take]
            omega
          obtain ⟨nds', hscatter, hsized, hlength, hbytes⟩ := htiles.scatter_eq
            (pre ++ [nd.store npos (d.take (b - npos))]) (d.drop (b - npos))
            (by rw [List.length_append, List.length_singleton])
            (by rw [List.length_drop]; omega)
          refine ⟨nd.store npos (d.take (b - npos)) :: nds', ?_, ?_, ?_, ?_⟩
          · rw [scatter, modify_append_length]
            rw [List.append_assoc, List.append_assoc] at hscatter
            exact hscatter
          · intro x hx
            rcases List.mem_cons.mp hx with rfl | hx
            · rw [Node.size_store (by omega), hnd]
            · exact hsized x hx
          · rw [List.length_cons, List.length_cons, hlength]
          · rw [bytesOf_cons, bytesOf_cons, hbytes]
            rcases Nat.le_total (b - npos) d.length with hle | hle
            · rw [overlay_append_cross (by omega) (by omega), hptr]
              rfl
            · -- All of the bytes go into the first node.
              rw [List.take_of_length_le hle, List.drop_eq_nil_of_le hle, overlay_nil,
                overlay_append_left (by omega)]
              rfl

/-! ## Growing -/

/-- `appendNodes` extends the flat array and touches nothing else. -/
theorem appendNodes_flat (mem : Allocator) :
    ∀ (k : ℕ) (a : ByteArray), Sized a.baseSize a.nodes →
      a.nodes.length * a.baseSize = a.capacity →
      (appendNodes mem k a).1 = (a.flat.extend mem k).1 ∧
        (appendNodes mem k a).2.flat = (a.flat.extend mem k).2
  | 0, _, _, _ => ⟨rfl, rfl⟩
  | k + 1, a, hs, hcap => by
      have hlen : a.flat.capacity = a.capacity := by
        rw [Flat.capacity, flat_cells, length_bytesOf hs, hcap]
      unfold appendNodes Flat.extend
      rw [hlen, flat_base]
      cases mem.grant (a.capacity + a.baseSize) with
      | none => exact ⟨rfl, rfl⟩
      | some junk =>
          have hstep := appendNodes_flat mem k
            { a with nodes := a.nodes ++ [Node.new a.baseSize junk],
                     capacity := a.capacity + a.baseSize }
            (hs.append (by
              intro nd hnd
              rw [List.mem_singleton.mp hnd]
              exact Node.size_new _ _))
            (by
              simp only [List.length_append, List.length_singleton,
                Nat.add_mul, Nat.one_mul, hcap])
          have hflat : ByteArray.flat
              { a with nodes := a.nodes ++ [Node.new a.baseSize junk],
                       capacity := a.capacity + a.baseSize } =
              { a.flat with cells := a.flat.cells ++
                  (List.range a.baseSize).map junk } := by
            simp [flat, bytesOf, Node.new]
          rw [hflat] at hstep
          exact hstep

/-- What a successful `appendNodes` leaves: `k` more nodes, and everything but
the chain and the capacity as it was. -/
theorem appendNodes_ok (mem : Allocator) :
    ∀ (k : ℕ) (a a' : ByteArray), appendNodes mem k a = (.ok (), a') →
      Sized a.baseSize a.nodes → a.nodes.length * a.baseSize = a.capacity →
      a.capacity ≤ 2 ^ 47 →
      ∃ nds, Sized a.baseSize nds ∧ nds.length = k ∧
        a.capacity + k * a.baseSize ≤ 2 ^ 47 ∧
        a' = { a with nodes := a.nodes ++ nds,
                      capacity := a.capacity + k * a.baseSize }
  | 0, a, a', h, _, _, hle => by
      cases h
      exact ⟨[], fun _ hnd => absurd hnd List.not_mem_nil, rfl, by omega,
        by simp⟩
  | k + 1, a, a', h, hs, hcap, _ => by
      unfold appendNodes at h
      cases hg : mem.grant (a.capacity + a.baseSize) with
      | none =>
          rw [hg] at h
          cases h
      | some junk =>
          rw [hg] at h
          have hnew : Sized a.baseSize [Node.new a.baseSize junk] := by
            intro nd hnd
            rw [List.mem_singleton.mp hnd]
            exact Node.size_new _ _
          obtain ⟨nds, hsz, hlen, hbd, rfl⟩ := appendNodes_ok mem k _ a' h
            (hs.append hnew)
            (by
              simp only [List.length_append, List.length_singleton,
                Nat.add_mul, Nat.one_mul, hcap])
            (mem.bounded _ (by rw [hg]; rfl))
          refine ⟨Node.new a.baseSize junk :: nds, ?_, ?_, ?_, ?_⟩
          · exact hnew.append hsz
          · rw [List.length_cons, hlen]
          · simp only at hbd
            rw [Nat.succ_mul]
            omega
          · simp only [List.append_assoc, List.singleton_append, Nat.succ_mul]
            congr 1
            omega

theorem extend_ok_bounded (mem : Allocator) :
    ∀ (k : ℕ) (f : Flat), 0 < k → (f.extend mem k).1 = .ok () →
      f.capacity + k * f.base ≤ 2 ^ 47
  | 0, _, hk, _ => absurd hk (by simp)
  | k + 1, f, _, h => by
      unfold Flat.extend at h
      cases hg : mem.grant (f.capacity + f.base) with
      | none =>
          rw [hg] at h
          cases h
      | some junk =>
          rw [hg] at h
          have hone := mem.bounded _ (show (mem.grant _).isSome by rw [hg]; rfl)
          rcases Nat.eq_zero_or_pos k with rfl | hk
          · omega
          · have ih := extend_ok_bounded mem k _ hk h
            simp only [Flat.capacity, List.length_append, List.length_map,
              List.length_range] at ih hone ⊢
            rw [Nat.succ_mul]
            omega

/-- A refused extension stays refused, at the same place, when more is asked
for. -/
theorem extend_error_add (mem : Allocator) (j : ℕ) :
    ∀ (k : ℕ) (f : Flat) (e : Fault), (f.extend mem k).1 = .error e →
      f.extend mem (k + j) = f.extend mem k
  | 0, _, _, h => by cases h
  | k + 1, f, e, h => by
      rw [Nat.add_right_comm]
      unfold Flat.extend at h ⊢
      cases hg : mem.grant (f.capacity + f.base) with
      | none => rfl
      | some junk =>
          rw [hg] at h
          exact extend_error_add mem j k _ e h

/-- Two requests beyond the address space fail at the same place. -/
theorem extend_eq_of_exceeds (mem : Allocator) {k k' : ℕ} {f : Flat}
    (hk : 2 ^ 47 < f.capacity + k * f.base) (hk0 : 0 < k)
    (hk' : 2 ^ 47 < f.capacity + k' * f.base) (hk0' : 0 < k') :
    f.extend mem k = f.extend mem k' := by
  have herr : ∀ {n : ℕ}, 0 < n → 2 ^ 47 < f.capacity + n * f.base →
      ∃ e, (f.extend mem n).1 = .error e := by
    intro n hn hex
    cases hres : (f.extend mem n).1 with
    | error e => exact ⟨e, rfl⟩
    | ok u =>
        have := extend_ok_bounded mem n f hn hres
        omega
  obtain ⟨e, he⟩ := herr hk0 hk
  obtain ⟨e', he'⟩ := herr hk0' hk'
  rcases Nat.le_total k k' with hle | hle
  · have := extend_error_add mem (k' - k) k f e he
    rw [← this]
    congr 1
    omega
  · have := extend_error_add mem (k - k') k' f e' he'
    rw [← this]
    congr 1
    omega

theorem Placed.getCapacity_eq {a : ByteArray} (h : Placed a) :
    a.getCapacity = a.capacity - a.position := by
  have h1 := h.position_le
  have h2 := h.size_le
  have h3 := h.bounded
  exact sizeSub_of_le (by omega) (by omega)

theorem Placed.getReadSize_eq {a : ByteArray} (h : Placed a) :
    a.getReadSize = a.size - a.position := by
  have h2 := h.size_le
  have h3 := h.bounded
  exact sizeSub_of_le h.position_le (by omega)

/-- Rounding in `ceil(1.0 * size / m_baseSize)` never shows: where it could,
both counts ask for more memory than there is. -/
theorem extend_ceilCount {a : ByteArray} (h : Placed a) (mem : Allocator)
    {n : ℕ} (hn : a.capacity - a.position < n) :
    a.flat.extend mem
        (Double.ceilCount (n - (a.capacity - a.position)) a.baseSize) =
      a.flat.reserve mem n := by
  have hb := h.base_pos
  have hpos : a.position ≤ a.capacity := le_trans h.position_le h.size_le
  have hbd := h.bounded
  have hbase : a.baseSize ≤ a.capacity := by
    rw [← h.nodes_capacity]
    exact Nat.le_mul_of_pos_left _ h.nodes_pos
  have hneed : a.flat.need n =
      (n - (a.capacity - a.position) + a.baseSize - 1) / a.baseSize := by
    rw [Flat.need_eq (f := a.flat) hb, h.length_cells, flat_pos, flat_base]
    congr 2
    omega
  set m := n - (a.capacity - a.position) with hm
  have hm0 : 0 < m := by omega
  rw [Flat.reserve, hneed]
  rcases Nat.lt_or_ge m (2 ^ 53) with hlt | hge
  · rw [Double.ceilCount_eq hm0 hb hlt (by omega)]
  · have hcount := Double.le_ceilCount hm0 hb (by omega)
    have hceil : m ≤ (m + a.baseSize - 1) / a.baseSize * a.baseSize := by
      have := Nat.lt_div_mul_add (a := m + a.baseSize - 1) hb
      omega
    have hpos_of : ∀ {c : ℕ}, 0 < c * a.baseSize → 0 < c :=
      fun hc => Nat.pos_of_mul_pos_right hc
    refine extend_eq_of_exceeds mem ?_ (hpos_of (by omega)) ?_
      (hpos_of (by omega))
    · rw [flat_base]
      omega
    · rw [flat_base]
      omega

/-- The pointer at a byte position. -/
theorem Placed.nodeAt_div {a : ByteArray} (h : Placed a) {p : ℕ}
    (hp : p ≤ a.capacity) :
    a.nodeAt (p / a.baseSize) =
      if p = a.capacity then none else some (p / a.baseSize) := by
  have hb := h.base_pos
  have hcap := h.nodes_capacity
  unfold nodeAt
  split_ifs with hlt heq heq
  · rw [heq, ← hcap, Nat.mul_div_cancel _ hb] at hlt
    exact absurd hlt (Nat.lt_irrefl _)
  · rfl
  · rfl
  · refine absurd ?_ hlt
    rw [Nat.div_lt_iff_lt_mul hb, hcap]
    omega

/-- Nodes that were granted are enough for the request. -/
theorem le_ceilCount_mul {m b : ℕ} (hm : 0 < m) (hb : 0 < b)
    (hgrant : Double.ceilCount m b * b ≤ 2 ^ 47) (hb' : b ≤ 2 ^ 47) :
    m ≤ Double.ceilCount m b * b := by
  have hle := Double.le_ceilCount hm hb (by omega)
  rw [Double.ceilCount_eq hm hb (by omega) (by omega)]
  have := Nat.lt_div_mul_add (a := m + b - 1) hb
  omega

/-- An outcome of the chain and the outcome of the flat array it stands for.
Only a `bad_alloc` in the middle of growing may leave the chain unplaced. -/
structure Matches {α : Type} (r : Except Fault α × ByteArray)
    (r' : Except Fault α × Flat) : Prop where
  flat_eq : r' = (r.1, r.2.flat)
  placed : r.1 ≠ .error .badAlloc → Placed r.2

theorem appendNodes_error (mem : Allocator) :
    ∀ (k : ℕ) (a a' : ByteArray) (e : Fault),
      appendNodes mem k a = (.error e, a') → e = .badAlloc
  | 0, _, _, _, h => by cases h
  | k + 1, a, a', e, h => by
      unfold appendNodes at h
      cases hg : mem.grant (a.capacity + a.baseSize) with
      | none =>
          rw [hg] at h
          cases h
          rfl
      | some junk =>
          rw [hg] at h
          exact appendNodes_error mem k _ a' e h

theorem addCapacity_spec {a : ByteArray} (h : Placed a) (mem : Allocator)
    {n : ℕ} (hn : 0 < n) :
    Matches (addCapacity mem a n) (a.flat.reserve mem n) ∧
      ((addCapacity mem a n).1 = .ok () →
        (addCapacity mem a n).2.position + n ≤
          (addCapacity mem a n).2.capacity) := by
  have hb := h.base_pos
  have hpos : a.position ≤ a.capacity := le_trans h.position_le h.size_le
  have hbase : a.baseSize ≤ a.capacity := by
    rw [← h.nodes_capacity]
    exact Nat.le_mul_of_pos_left _ h.nodes_pos
  have hbd := h.bounded
  unfold addCapacity
  rw [if_neg (by omega), h.getCapacity_eq]
  by_cases hfit : n ≤ a.capacity - a.position
  · have hneed : a.flat.need n = 0 := by
      refine Flat.need_eq_zero ?_
      rw [h.length_cells, flat_pos]
      omega
    rw [if_pos hfit, Flat.reserve, hneed]
    exact ⟨⟨rfl, fun _ => h⟩, fun _ => by
      show a.position + n ≤ a.capacity
      omega⟩
  · rw [if_neg hfit]
    have hflat := appendNodes_flat mem
      (Double.ceilCount (n - (a.capacity - a.position)) a.baseSize) a h.sized
      h.nodes_capacity
    rw [extend_ceilCount h mem (by omega)] at hflat
    obtain ⟨c, hc⟩ : ∃ c, c =
        Double.ceilCount (n - (a.capacity - a.position)) a.baseSize := ⟨_, rfl⟩
    rw [← hc] at hflat ⊢
    dsimp only
    rcases hres : appendNodes mem c a with ⟨_ | ⟨⟨⟩⟩, a'⟩
    · rw [hres] at hflat
      exact ⟨⟨Prod.ext hflat.1.symm hflat.2.symm, fun hne =>
        absurd (congrArg _ (appendNodes_error mem c a a' _ hres)) hne⟩,
        fun hok => by cases hok⟩
    · obtain ⟨nds, hsz, hlen, hcap, rfl⟩ := appendNodes_ok mem c a a'
        hres h.sized h.nodes_capacity hbd
      rw [hres] at hflat
      have henough : n - (a.capacity - a.position) ≤ c * a.baseSize := by
        rw [hc] at hcap ⊢
        exact le_ceilCount_mul (by omega) hb (by omega) (by omega)
      have hfits : a.position + n ≤ a.capacity + c * a.baseSize := by omega
      have hpl : ∀ p : Option ℕ, p = some (a.position / a.baseSize) →
          Placed { a with nodes := a.nodes ++ nds,
                          capacity := a.capacity + c * a.baseSize,
                          cur := p } := by
        intro p hp
        exact
          { base_pos := hb
            sized := h.sized.append hsz
            nodes_pos := by
              simp only [List.length_append]
              have := h.nodes_pos
              omega
            nodes_capacity := by
              simp only [List.length_append, Nat.add_mul, hlen,
                h.nodes_capacity]
            position_le := h.position_le
            size_le := le_trans h.size_le (Nat.le_add_right _ _)
            cur_eq := by
              simp only [hp]
              rw [if_neg (by omega)]
            bounded := hcap }
      by_cases hfull : a.capacity - a.position = 0
      · -- `m_cur` was null and becomes the first of the new nodes
        have hfirst : a.position / a.baseSize = a.nodes.length := by
          rw [show a.position = a.capacity by omega, ← h.nodes_capacity,
            Nat.mul_div_cancel _ hb]
        have hc0 : 0 < c := Nat.pos_of_mul_pos_right
          (show 0 < c * a.baseSize by omega)
        simp only [if_pos hfull]
        refine ⟨⟨Prod.ext hflat.1.symm hflat.2.symm, fun _ => hpl _ ?_⟩,
          fun _ => hfits⟩
        simp only [nodeAt, List.length_append, hlen, hfirst]
        rw [if_pos (by omega)]
      · have hcur := h.cur_eq
        rw [if_neg (by omega)] at hcur
        simp only [if_neg hfull]
        exact ⟨⟨Prod.ext hflat.1.symm hflat.2.symm, fun _ => hpl _ hcur⟩,
          fun _ => hfits⟩

/-! ## The operations -/

/-- Inside the capacity `m_cur` splits the chain at the cursor. -/
theorem Placed.split {a : ByteArray} (h : Placed a)
    (hlt : a.position < a.capacity) :
    a.nodes = a.beforeCur ++ a.fromCur ∧
      a.beforeCur.length = a.position / a.baseSize ∧
      (bytesOf a.beforeCur).length + a.position % a.baseSize = a.position ∧
      Sized a.baseSize a.beforeCur ∧ Sized a.baseSize a.fromCur := by
  have hb := h.base_pos
  have hcur := h.cur_eq
  rw [if_neg (by omega)] at hcur
  have hi : a.position / a.baseSize ≤ a.nodes.length := by
    apply Nat.le_of_lt
    rw [Nat.div_lt_iff_lt_mul hb, h.nodes_capacity]
    exact hlt
  have hbefore : Sized a.baseSize (a.nodes.take (a.position / a.baseSize)) :=
    fun nd hnd => h.sized nd (List.mem_of_mem_take hnd)
  simp only [beforeCur, fromCur, hcur]
  refine ⟨(List.take_append_drop _ _).symm, ?_, ?_, hbefore,
    fun nd hnd => h.sized nd (List.mem_of_mem_drop hnd)⟩
  · rw [List.length_take]
    omega
  · rw [length_bytesOf hbefore, List.length_take, Nat.min_eq_left hi]
    exact Nat.div_add_mod' _ _

theorem Placed.fromCur_fits {a : ByteArray} (h : Placed a) {n : ℕ}
    (hlt : a.position < a.capacity) (hn : a.position + n ≤ a.capacity) :
    a.position % a.baseSize + n ≤ a.fromCur.length * a.baseSize := by
  obtain ⟨hnodes, hlen, hpos, hsb, hsf⟩ := h.split hlt
  have hcap := h.nodes_capacity
  rw [hnodes, List.length_append, Nat.add_mul] at hcap
  rw [length_bytesOf hsb] at hpos
  omega

/-- Moving on from the cursor's node lands in the node of the new position. -/
theorem Placed.div_add {a : ByteArray} (h : Placed a)
    (hlt : a.position < a.capacity) (n : ℕ) :
    a.beforeCur.length + (a.position % a.baseSize + n) / a.baseSize =
      (a.position + n) / a.baseSize := by
  obtain ⟨-, hlen, -, -, -⟩ := h.split hlt
  have hsplit := Nat.div_add_mod a.position a.baseSize
  rw [hlen, ← Nat.mul_add_div h.base_pos, ← Nat.add_assoc, hsplit]

theorem write_spec {a : ByteArray} (h : Placed a) (mem : Allocator)
    (buf : List UInt8) : Matches (write mem a buf) (a.flat.write mem buf) := by
  unfold write Flat.write
  by_cases hz : buf.length = 0
  · -- nothing is written and nothing has to fit
    have hneed : a.flat.need buf.length = 0 := by
      refine Flat.need_eq_zero ?_
      rw [h.length_cells, hz]
      exact le_trans h.position_le h.size_le
    rw [if_pos hz, Flat.reserve, hneed]
    refine ⟨?_, fun _ => h⟩
    have hmax := Nat.max_eq_left h.position_le
    simp [Flat.extend, List.length_eq_zero_iff.mp hz, overlay, flat, hmax]
  · rw [if_neg hz]
    obtain ⟨⟨hflat, hpl⟩, hfits⟩ :=
      addCapacity_spec h mem (Nat.pos_of_ne_zero hz)
    rw [hflat]
    generalize addCapacity mem a buf.length = r at hpl hfits ⊢
    rcases r with ⟨e | ⟨⟨⟩⟩, a'⟩
    · exact ⟨rfl, hpl⟩
    · have h' : Placed a' := hpl (by simp)
      have hfit : a'.position + buf.length ≤ a'.capacity := hfits rfl
      have hlt : a'.position < a'.capacity := by omega
      have hb := h'.base_pos
      obtain ⟨hnodes, hlen, hpos, hsb, hsf⟩ := h'.split hlt
      obtain ⟨nds, hloop, hbytes, hnlen, hnsz⟩ := writeLoop_spec hb a'.fromCur
        (a'.position % a'.baseSize) buf hsf (Nat.mod_lt _ hb)
        (Nat.pos_of_ne_zero hz) (h'.fromCur_fits hlt hfit)
      have hover : bytesOf (a'.beforeCur ++ nds) =
          overlay (bytesOf a'.nodes) a'.position buf := by
        rw [bytesOf_append, hbytes, ← overlay_append_right, hpos,
          ← bytesOf_append, ← hnodes]
      have hsame : (a'.beforeCur ++ nds).length = a'.nodes.length := by
        rw [List.length_append, hnlen, ← List.length_append, ← hnodes]
      simp only [hloop, h'.div_add hlt]
      refine ⟨?_, fun _ => ?_⟩
      · simp only [flat, hover, max_def_lt]
      · exact
          { base_pos := hb
            sized := hsb.append hnsz
            nodes_pos := by
              show 0 < (a'.beforeCur ++ nds).length
              rw [hsame]
              exact h'.nodes_pos
            nodes_capacity := by
              show (a'.beforeCur ++ nds).length * a'.baseSize = a'.capacity
              rw [hsame]
              exact h'.nodes_capacity
            position_le := by
              simp only
              split_ifs <;> omega
            size_le := by
              have := h'.size_le
              simp only
              split_ifs <;> omega
            cur_eq := h'.nodeAt_div hfit
            bounded := h'.bounded }

/-- The loop of `read` started at the cursor. -/
theorem readLoop_fromCur {a : ByteArray} (h : Placed a) {n : ℕ} (hn : 0 < n)
    (hfit : a.position + n ≤ a.capacity) :
    readLoop a.fromCur (a.position % a.baseSize) n =
      some (slice (bytesOf a.nodes) a.position n,
        (a.position % a.baseSize + n) / a.baseSize) := by
  have hlt : a.position < a.capacity := by omega
  have hb := h.base_pos
  obtain ⟨hnodes, -, hpos, -, hsf⟩ := h.split hlt
  rw [readLoop_spec hb _ _ _ hsf (Nat.mod_lt _ hb) hn
    (h.fromCur_fits hlt hfit), ← slice_append_right, hpos, ← bytesOf_append,
    ← hnodes]

theorem read_spec {a : ByteArray} (h : Placed a) {n : ℕ} (hn : 0 < n) :
    Matches (a.read n) (a.flat.read n) := by
  have hsize := h.size_le
  have hpos := h.position_le
  unfold read Flat.read
  rw [h.getReadSize_eq, flat_size, flat_pos]
  by_cases hout : a.size - a.position < n
  · rw [if_pos hout, if_pos hout]
    exact ⟨rfl, fun _ => h⟩
  · have hfit : a.position + n ≤ a.capacity := by omega
    rw [if_neg hout, if_neg hout, readLoop_fromCur h hn hfit]
    simp only [h.div_add (show a.position < a.capacity by omega)]
    refine ⟨rfl, fun _ => ?_⟩
    exact { h with
      position_le := by
        show a.position + n ≤ a.size
        omega
      cur_eq := h.nodeAt_div hfit }

theorem toString_spec {a : ByteArray} (h : Placed a) :
    a.toString = .ok a.flat.toString := by
  have hsize := h.size_le
  have hpos := h.position_le
  have hbd := h.bounded
  unfold toString Flat.toString
  rw [h.getReadSize_eq, flat_size, flat_pos, flat_cells]
  by_cases hz : a.size - a.position = 0
  · rw [if_pos hz, hz]
    simp [slice]
  · rw [if_neg hz, readAt, sizeSub_of_le hpos (by omega),
      if_neg (Nat.lt_irrefl _), readLoop_fromCur h (by omega) (by omega)]

theorem setPosition_spec {a : ByteArray} (h : Placed a) (v : ℕ) :
    Matches (a.setPosition v) (a.flat.setPosition v) := by
  have hsize := h.size_le
  unfold setPosition Flat.setPosition
  rw [h.length_cells]
  by_cases hout : a.capacity < v
  · rw [if_pos hout, if_pos hout]
    exact ⟨rfl, fun _ => h⟩
  · have hv : v ≤ a.capacity := Nat.not_lt.mp hout
    rw [if_neg hout, if_neg hout]
    simp only [seek_spec h.base_pos a.nodes 0 v h.sized h.nodes_pos
      (by rw [h.nodes_capacity]; exact hv), Nat.zero_add]
    refine ⟨?_, fun _ => ?_⟩
    · simp only [flat, max_def_lt]
    · exact { h with
        position_le := by
          simp only
          split_ifs <;> omega
        size_le := by
          simp only
          split_ifs <;> omega
        cur_eq := h.nodeAt_div hv }

theorem getWriteBuffers_spec {a : ByteArray} (h : Placed a) (mem : Allocator)
    (len : ℕ) :
    Matches
      (Prod.map (Except.map Prod.snd) id (a.getWriteBuffers mem len))
      (Prod.map (Except.map fun _ => len) id (a.flat.reserve mem len)) := by
  unfold getWriteBuffers
  by_cases hz : len = 0
  · have hneed : a.flat.need len = 0 := by
      refine Flat.need_eq_zero ?_
      rw [h.length_cells, hz]
      exact le_trans h.position_le h.size_le
    rw [if_pos hz, Flat.reserve, hneed, hz]
    exact ⟨rfl, fun _ => h⟩
  · rw [if_neg hz]
    obtain ⟨⟨hflat, hpl⟩, hfits⟩ :=
      addCapacity_spec h mem (Nat.pos_of_ne_zero hz)
    rw [hflat]
    generalize addCapacity mem a len = r at hpl hfits ⊢
    rcases r with ⟨e | ⟨⟨⟩⟩, a'⟩
    · refine ⟨rfl, fun hne => hpl fun he => hne ?_⟩
      cases he
      rfl
    · have h' : Placed a' := hpl (by simp)
      have hfit : a'.position + len ≤ a'.capacity := hfits rfl
      have hlt : a'.position < a'.capacity := by omega
      obtain ⟨-, -, -, -, hsf⟩ := h'.split hlt
      obtain ⟨iovs, hloop, -⟩ := buffersLoop_tiles a'.fromCur
        a'.beforeCur.length (a'.position % a'.baseSize) len hsf
        (Nat.mod_lt _ h'.base_pos) (Nat.pos_of_ne_zero hz) (h'.fromCur_fits hlt hfit)
      simp only [hloop]
      exact ⟨rfl, fun _ => h'⟩

theorem clear_spec {a : ByteArray} (h : Placed a) :
    a.clear.flat = a.flat.clear ∧ Placed a.clear := by
  have hb := h.base_pos
  obtain ⟨nd, nds, hnodes⟩ := List.exists_cons_of_length_pos h.nodes_pos
  have hnd : nd.size = a.baseSize :=
    h.sized nd (by rw [hnodes]; exact List.mem_cons_self)
  have hptr : nd.ptr.length = a.baseSize := hnd
  have hcap := h.nodes_capacity
  rw [hnodes, List.length_cons, Nat.succ_mul] at hcap
  refine ⟨?_, ?_⟩
  · simp [clear, flat, Flat.clear, hnodes, ← hptr, bytesOf]
  · exact
      { base_pos := hb
        sized := fun x hx => h.sized x (List.mem_of_mem_take hx)
        nodes_pos := by simp [clear, hnodes]
        nodes_capacity := by simp [clear, hnodes]
        position_le := Nat.le_refl _
        size_le := Nat.zero_le _
        cur_eq := by
          show some 0 = if 0 = a.baseSize then none else some (0 / a.baseSize)
          rw [if_neg (by omega), Nat.zero_div]
        bounded := by
          have := h.bounded
          show a.baseSize ≤ 2 ^ 47
          omega }

theorem new_spec {mem : Allocator} {base : ℕ} {a : ByteArray}
    (hb : 1 ≤ base) (h : new mem base = .ok a) :
    Placed a ∧ a.baseSize = base ∧ a.position = 0 ∧ a.size = 0 ∧
      a.capacity = base := by
  unfold new at h
  cases hg : mem.grant base with
  | none =>
      rw [hg] at h
      cases h
  | some junk =>
      rw [hg] at h
      cases h
      refine ⟨?_, rfl, rfl, rfl, rfl⟩
      exact
        { base_pos := hb
          sized := fun nd hnd => by
            rw [List.mem_singleton.mp hnd]
            exact Node.size_new _ _
          nodes_pos := Nat.one_pos
          nodes_capacity := Nat.one_mul _
          position_le := Nat.le_refl _
          size_le := Nat.zero_le _
          cur_eq := by
            show some 0 = if 0 = base then none else some (0 / base)
            rw [if_neg (by omega), Nat.zero_div]
          bounded := mem.bounded base (by rw [hg]; rfl) }

end ByteArray

end Skt
