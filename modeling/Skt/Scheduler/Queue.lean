import Skt.Scheduler.Model

/-!
# The queue

What a scan takes and what it leaves, and that every entry of the queue is taken
once, by a worker it is meant for.
-/

namespace Skt

namespace Scheduler

/-- A worker may take an entry. -/
def Takeable (state : ℕ → FiberState) (w : ℕ) (ft : FiberAndThread) : Prop :=
  ft.forOther w = false ∧ executing state ft = false

theorem next_of_step {n : ℕ} {s s' : Scheduler} {l : Label}
    (h : (machine n).step s l = some s') : s.next l = some s' := by
  simp only [machine] at h
  split at h
  · cases h
  · exact h

/-! ## The worker that takes a step -/

theorem phase_goto (s : Scheduler) (w : ℕ) (p : Phase) :
    ((s.goto w p).workers w).phase = p := by
  simp only [goto, setWorker, Function.update_self]

theorem tickle_workers (s : Scheduler) : s.tickle.workers = s.workers := by
  unfold tickle
  split <;> rfl

theorem workers_tickle_goto (s : Scheduler) (w : ℕ) (p : Phase) :
    (s.tickle.goto w p).workers = Function.update s.workers w
      ⟨p, (s.workers w).cbFiber, (s.workers w).idleFiber⟩ := by
  simp only [goto, setWorker, tickle_workers]

theorem reset_workers (s : Scheduler) (f : ℕ) : (s.reset f).workers = s.workers := by
  unfold reset
  split <;> rfl

theorem workers_reset_goto (s : Scheduler) (f w : ℕ) (p : Phase) :
    ((s.reset f).goto w p).workers = Function.update s.workers w
      ⟨p, (s.workers w).cbFiber, (s.workers w).idleFiber⟩ := by
  simp only [goto, setWorker, reset_workers]

/-- The worker's `cb_fiber` after `dropCbFiber`. -/
def keptCb (k cb : Option ℕ) : Option ℕ :=
  match k with
  | some _ => cb
  | none => none

theorem workers_drop_goto (s : Scheduler) (w : ℕ) (k : Option ℕ) (p : Phase) :
    ((s.dropCbFiber w k).goto w p).workers = Function.update s.workers w
      ⟨p, keptCb k (s.workers w).cbFiber, (s.workers w).idleFiber⟩ := by
  cases k with
  | some k => rfl
  | none =>
      simp only [dropCbFiber, goto, setWorker, Function.update_self,
        Function.update_idem]
      rfl

/-! ## The scan -/

variable {state : ℕ → FiberState} {w : ℕ}

/-- The entry taken and the entries left are the queue. -/
theorem scan_perm : ∀ fibers : List FiberAndThread,
    fibers.Perm ((scan state w fibers).taken.toList ++ (scan state w fibers).fibers)
  | [] => .nil
  | ft :: fibers => by
      have ih := scan_perm fibers
      unfold scan
      split
      · exact (ih.cons ft).trans List.perm_middle.symm
      · split
        · exact (ih.cons ft).trans List.perm_middle.symm
        · exact .refl _

theorem scan_takeable : ∀ {fibers : List FiberAndThread} {ft : FiberAndThread},
    (scan state w fibers).taken = some ft → Takeable state w ft
  | ft' :: fibers, ft, h => by
      unfold scan at h
      split at h
      · exact scan_takeable h
      case isFalse hother =>
        split at h
        · exact scan_takeable h
        case isFalse hexec =>
          cases h
          exact ⟨Bool.eq_false_iff.mpr hother, Bool.eq_false_iff.mpr hexec⟩

theorem scan_fibers_of_none : ∀ {fibers : List FiberAndThread},
    (scan state w fibers).taken = none → (scan state w fibers).fibers = fibers
  | [], _ => rfl
  | ft :: fibers, h => by
      unfold scan at h ⊢
      split at h
      case isTrue hother =>
        rw [if_pos hother]
        exact congrArg (ft :: ·) (scan_fibers_of_none h)
      case isFalse hother =>
        rw [if_neg hother]
        split at h
        case isTrue hexec =>
          rw [if_pos hexec]
          exact congrArg (ft :: ·) (scan_fibers_of_none h)
        · cases h

/-- A scan that does not ask for a `tickle` leaves nothing for anyone. -/
theorem scan_tickleMe : ∀ {fibers : List FiberAndThread},
    (scan state w fibers).tickleMe = false →
      ∀ ft ∈ (scan state w fibers).fibers, executing state ft = true
  | ft' :: fibers, h, ft, hft => by
      unfold scan at h hft
      split at h
      · cases h
      case isFalse hother =>
        rw [if_neg hother] at hft
        split at h
        case isTrue hexec =>
          rw [if_pos hexec] at hft
          rcases List.mem_cons.mp hft with rfl | hft
          · exact hexec
          · exact scan_tickleMe h ft hft
        case isFalse hexec =>
          rw [if_neg hexec] at hft
          cases fibers with
          | nil => cases hft
          | cons => cases h

theorem mem_of_mem_scan {fibers : List FiberAndThread} {ft : FiberAndThread}
    (h : ft ∈ (scan state w fibers).fibers) : ft ∈ fibers :=
  (scan_perm fibers).mem_iff.mpr (List.mem_append_right _ h)

theorem dequeue_none {s : Scheduler} (h : (scan s.state w s.fibers).taken = none) :
    s.dequeue w = s.goto w
      (if (scan s.state w s.fibers).tickleMe then .tickle none else .rest) := by
  simp only [dequeue, h, scan_fibers_of_none h, Option.isSome_none, Bool.false_eq_true,
    if_false]
  split <;> rfl

theorem dequeue_some {s : Scheduler} {ft : FiberAndThread}
    (h : (scan s.state w s.fibers).taken = some ft) :
    s.dequeue w =
      { s with
        fibers := (scan s.state w s.fibers).fibers
        activeThreadCount := s.activeThreadCount + 1
        taken := s.taken ++ [(ft, w)] }.goto w
      (if (scan s.state w s.fibers).tickleMe then .tickle (some ft) else .take ft) := by
  simp only [dequeue, h, Option.isSome_some, if_true]
  split <;> rfl

/-! ## Tickets -/

/-- Every entry that was ever put into the queue is either there or has been
taken once, by a worker that it is not barred to. -/
structure Tickets (s : Scheduler) : Prop where
  nodup : (s.fibers.map FiberAndThread.ticket ++
    s.taken.map fun t => t.1.ticket).Nodup
  mem : ∀ k, k < s.tickets ↔ k ∈ s.fibers.map FiberAndThread.ticket ∨
    k ∈ s.taken.map fun t => t.1.ticket
  pinned : ∀ t ∈ s.taken, t.1.forOther t.2 = false

theorem Tickets.same {s s' : Scheduler} (h : s.Tickets) (hfibers : s'.fibers = s.fibers)
    (htaken : s'.taken = s.taken) (htickets : s'.tickets = s.tickets) : s'.Tickets := by
  obtain ⟨hnodup, hmem, hpinned⟩ := h
  refine ⟨?_, ?_, ?_⟩
  · rw [hfibers, htaken]
    exact hnodup
  · rw [hfibers, htaken, htickets]
    exact hmem
  · rw [htaken]
    exact hpinned

theorem Tickets.push {s : Scheduler} (h : s.Tickets) (job : Job) (thread : Option ℕ) :
    (s.push job thread).Tickets := by
  have hnew : ∀ k, k ∈ s.fibers.map FiberAndThread.ticket ∨
      k ∈ (s.taken.map fun t => t.1.ticket) → k ≠ s.tickets := by
    intro k hk
    exact ((h.mem k).mpr hk).ne
  refine ⟨?_, ?_, h.pinned⟩
  · simp only [Scheduler.push, List.map_append, List.map_cons, List.map_nil,
      List.append_assoc, List.singleton_append]
    refine (List.perm_middle.nodup_iff).mpr (List.nodup_cons.mpr ⟨?_, h.nodup⟩)
    intro hk
    exact hnew _ (List.mem_append.mp hk) rfl
  · intro k
    simp only [Scheduler.push, List.map_append, List.map_cons, List.map_nil,
      List.mem_append, List.mem_singleton]
    constructor
    · intro hk
      rcases Nat.lt_succ_iff_lt_or_eq.mp hk with hk | rfl
      · rcases (h.mem k).mp hk with hk | hk
        · exact Or.inl (Or.inl hk)
        · exact Or.inr hk
      · exact Or.inl (Or.inr rfl)
    · rintro ((hk | rfl) | hk)
      · exact Nat.lt_succ_of_lt ((h.mem k).mpr (Or.inl hk))
      · exact Nat.lt_succ_self _
      · exact Nat.lt_succ_of_lt ((h.mem k).mpr (Or.inr hk))

/-- The queue behind a scan, and the entry it has taken in the list. -/
theorem Tickets.take {s s' : Scheduler} (h : s.Tickets) {ft : FiberAndThread} {w : ℕ}
    (hperm : s.fibers.Perm (ft :: s'.fibers)) (hft : ft.forOther w = false)
    (htaken : s'.taken = s.taken ++ [(ft, w)]) (htickets : s'.tickets = s.tickets) :
    s'.Tickets := by
  have hmap := hperm.map FiberAndThread.ticket
  rw [List.map_cons] at hmap
  refine ⟨?_, ?_, ?_⟩
  · -- The ticket moves from the front of the first part to the end of the second.
    rw [htaken, List.map_append, List.map_cons, List.map_nil, ← List.append_assoc]
    refine (List.perm_append_comm.nodup_iff).mpr ?_
    exact ((hmap.append_right _).nodup_iff).mp h.nodup
  · intro k
    rw [htickets, h.mem k, hmap.mem_iff, htaken, List.mem_cons, List.map_append,
      List.mem_append]
    simp only [List.map_cons, List.map_nil, List.mem_singleton]
    tauto
  · intro t ht
    rw [htaken] at ht
    rcases List.mem_append.mp ht with ht | ht
    · exact h.pinned t ht
    · obtain rfl := List.mem_singleton.mp ht
      exact hft

theorem Tickets.not_mem {s : Scheduler} (h : s.Tickets) {k : ℕ}
    (hk : k ∈ s.taken.map fun t => t.1.ticket) :
    k ∉ s.fibers.map FiberAndThread.ticket := by
  intro hk'
  exact (List.nodup_append.mp h.nodup).2.2 k hk' k hk rfl

theorem start_tickets (n : ℕ) : (start n).Tickets := by
  refine ⟨List.nodup_nil, ?_, ?_⟩
  · intro k
    simp [start]
  · rintro t ⟨⟩

end Scheduler

end Skt
