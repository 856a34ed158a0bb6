import Skt.ByteArray.Refine

/-!
# Whole runs of a `ByteArray`

Any sequence of calls on a fresh array, each with whatever the allocator
answers at that moment, has the outcomes of the same sequence on the flat
array, and after each call the chain is placed.
-/

namespace Skt

namespace ByteArray

/-- One call on the node chain. -/
def exec (mem : Allocator) (a : ByteArray) : Op → Except Fault Out × ByteArray
  | .write buf => Prod.map (Except.map fun _ => .none) id (a.write mem buf)
  | .read n _ => Prod.map (Except.map .bytes) id (a.read n)
  | .setPosition v => Prod.map (Except.map fun _ => .none) id (a.setPosition v)
  | .getWriteBuffers len =>
      Prod.map (Except.map fun r => .count r.2) id (a.getWriteBuffers mem len)
  | .clear => (.ok .none, a.clear)
  | .toString => (a.toString.map .bytes, a)

/-- The outcome of each call of a run and the array after it. A run ends with
the first `bad_alloc`: that exception leaves the array half grown. -/
def run : ByteArray → List (Allocator × Op) → List (Except Fault Out × ByteArray)
  | _, [] => []
  | a, (mem, op) :: ops =>
      let r := a.exec mem op
      if r.1 = .error .badAlloc then [r] else r :: run r.2 ops

/-! ## One call -/

theorem Matches.map {α β : Type} {r : Except Fault α × ByteArray}
    {r' : Except Fault α × Flat} (g : α → β) (h : Matches r r') :
    Matches (Prod.map (Except.map g) id r) (Prod.map (Except.map g) id r') := by
  obtain ⟨hflat, hpl⟩ := h
  subst hflat
  refine ⟨rfl, fun hne => hpl fun he => hne ?_⟩
  rw [Prod.map_fst, he, Except.map]

theorem map_count_comp {α : Type} (f : α → ℕ) :
    (Except.map Out.count ∘ Except.map f : Except Fault α → Except Fault Out) =
      Except.map fun r => Out.count (f r) := by
  funext r
  cases r <;> rfl

theorem exec_spec {a : ByteArray} (h : Placed a) (mem : Allocator) (op : Op) :
    Matches (a.exec mem op) (a.flat.exec mem op) := by
  cases op with
  | write buf => exact (write_spec h mem buf).map _
  | read n hn => exact (read_spec h hn).map _
  | setPosition v => exact (setPosition_spec h v).map _
  | getWriteBuffers len =>
      have hspec := (getWriteBuffers_spec h mem len).map Out.count
      rw [Prod.map_map, Prod.map_map, map_count_comp, map_count_comp] at hspec
      exact hspec
  | clear =>
      obtain ⟨hflat, hpl⟩ := clear_spec h
      rw [exec, Flat.exec, ← hflat]
      exact ⟨rfl, fun _ => hpl⟩
  | toString =>
      rw [exec, Flat.exec, toString_spec h]
      exact ⟨rfl, fun _ => h⟩

/-! ## Runs -/

theorem run_spec {a : ByteArray} (h : Placed a) :
    ∀ ops : List (Allocator × Op),
      (a.run ops).map (Prod.map id flat) = a.flat.run ops ∧
        ∀ r ∈ a.run ops, r.1 ≠ .error .badAlloc → Placed r.2 := by
  intro ops
  induction ops generalizing a with
  | nil => exact ⟨rfl, fun r hr => absurd hr List.not_mem_nil⟩
  | cons call ops ih =>
      obtain ⟨mem, op⟩ := call
      obtain ⟨hflat, hpl⟩ := exec_spec h mem op
      unfold run Flat.run
      rw [hflat]
      by_cases hbad : (a.exec mem op).1 = .error .badAlloc
      · simp only [if_pos hbad]
        refine ⟨rfl, fun r hr hne => absurd ?_ hne⟩
        rw [List.mem_singleton.mp hr]
        exact hbad
      · obtain ⟨ihmap, ihpl⟩ := ih (hpl hbad)
        simp only [if_neg hbad, List.map_cons, ihmap]
        refine ⟨rfl, fun r hr hne => ?_⟩
        rcases List.mem_cons.mp hr with rfl | hr
        · exact hpl hbad
        · exact ihpl r hr hne

/-- **The node chain is a flat array.** For every base size, every sequence of
calls and every behaviour of the allocator, each call on the chain returns (or
throws) what the flat array does and leaves the same cells, cursor and size;
and after each call the nodes make up the capacity, the cursor and the size
are in range, and `m_cur` is the node of the cursor, null exactly at the end
of the capacity. -/
theorem run_refines_flat {base : ℕ} (hb : 1 ≤ base) {mem : Allocator}
    {a : ByteArray} (hnew : ByteArray.new mem base = .ok a)
    (ops : List (Allocator × Op)) :
    (a.flat.base = base ∧ a.flat.capacity = base ∧ a.flat.pos = 0 ∧
      a.flat.size = 0) ∧
    (a.run ops).map (Prod.map id flat) = a.flat.run ops ∧
    ∀ r ∈ a.run ops, r.1 ≠ .error .badAlloc →
      r.2.flat.capacity = r.2.capacity ∧
      r.2.nodes.length * r.2.baseSize = r.2.capacity ∧
      r.2.position ≤ r.2.size ∧ r.2.size ≤ r.2.capacity ∧
      r.2.cur = (if r.2.position = r.2.capacity then none
        else some (r.2.position / r.2.baseSize)) := by
  obtain ⟨hpl, hbase, hpos, hsize, hcap⟩ := new_spec hb hnew
  obtain ⟨hmap, hall⟩ := run_spec hpl ops
  refine ⟨⟨hbase, ?_, hpos, hsize⟩, hmap, ?_⟩
  · rw [hpl.length_cells, hcap]
  · intro r hr hne
    have h := hall r hr hne
    exact ⟨h.length_cells, h.nodes_capacity, h.position_le, h.size_le,
      h.cur_eq⟩

/-- An allocator with the whole address space free. -/
def wholeSpace : Allocator where
  grant n := if n ≤ 2 ^ 47 then some fun _ => 0 else none
  bounded n h := by
    by_contra hn
    rw [if_neg hn] at h
    cases h

def sampleCalls : List (Allocator × Op) :=
  [.write [1, 2, 3, 4, 5], .setPosition 1, .read 3 (by decide), .toString,
    .write [6, 7, 8, 9], .read 1 (by decide), .getWriteBuffers 5,
    .setPosition 14, .setPosition 2, .toString, .clear].map (wholeSpace, ·)

def freshSample : ByteArray where
  baseSize := 2
  capacity := 2
  position := 0
  size := 0
  nodes := [⟨[0, 0]⟩]
  cur := some 0

theorem new_freshSample : ByteArray.new wholeSpace 2 = .ok freshSample := by
  decide

theorem run_refines_flat_sample :
    (freshSample.run sampleCalls).map Prod.fst =
      [.ok .none, .ok .none, .ok (.bytes [2, 3, 4]), .ok (.bytes [5]),
        .ok .none, .error .outOfRange, .ok (.count 5), .ok .none, .ok .none,
        .ok (.bytes [3, 4, 6, 7, 8, 9, 0, 0, 0, 0, 0, 0]), .ok .none] ∧
      (freshSample.run sampleCalls).map (Prod.map id flat) =
        freshSample.flat.run sampleCalls :=
  ⟨by decide,
    (run_refines_flat (by decide) new_freshSample sampleCalls).2.1⟩

end ByteArray

end Skt
