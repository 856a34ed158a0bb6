import Skt.IOManager.Resize

/-!
# What becomes of a registration

Every `addEvent` that succeeds has a ticket, its place in `added`. The ticket is
with the waiter until the waiter is put into the queue or deleted, so that it
comes up in the queue at most once, and not at all once it is deleted.
-/

namespace Skt

/-- What `addEvent` stores. -/
def Caller.context (who : Caller) (ticket : ℕ) : EventContext :=
  ⟨some who.scheduler, if who.cb.isSome then none else some who.fiber, who.cb, ticket⟩

/-- What is to be scheduled for it. -/
def Caller.task (who : Caller) (ticket : ℕ) : Task :=
  ⟨who.scheduler, if who.cb.isSome then none else some who.fiber, who.cb, ticket⟩

namespace IOManager

/-- The event `e` of the context `p` is registered, with `c`. -/
def Waits (s : IOManager) (p : ℕ) (e : Event) (c : EventContext) : Prop :=
  (s.contexts p).events.has e = true ∧ (s.contexts p).getContext e = c

structure History (s : IOManager) : Prop where
  armed : ∀ {p e c}, s.Waits p e c →
    ∃ who, s.added[c.ticket]? = some who ∧ c = who.context c.ticket
  apart : ∀ {p e c q e' c'}, s.Waits p e c → s.Waits q e' c' → c.ticket = c'.ticket →
    q = p ∧ e' = e
  pending : ∀ {p e c}, s.Waits p e c →
    c.ticket ∉ s.queue.map Task.ticket ∧ c.ticket ∉ s.deleted
  scheduled : ∀ task ∈ s.queue,
    ∃ who, s.added[task.ticket]? = some who ∧ task = who.task task.ticket
  once : (s.queue.map Task.ticket).Nodup
  removed : ∀ ticket ∈ s.deleted,
    ticket < s.added.length ∧ ticket ∉ s.queue.map Task.ticket

/-! ## Waiters after a step -/

theorem Waits.of_clear {s s' : IOManager} {p q : ℕ} {e e' : Event} {c : EventContext}
    (hs : s'.contexts = Function.update s.contexts p ((s.contexts p).clear e))
    (h : s'.Waits q e' c) : s.Waits q e' c ∧ ¬(q = p ∧ e' = e) := by
  obtain ⟨hset, hctx⟩ := h
  rw [hs] at hset hctx
  by_cases hq : q = p
  · subst hq
    rw [Function.update_self] at hset hctx
    rw [FdContext.events_clear, Events.has_del, Bool.and_eq_true] at hset
    have hne : e' ≠ e := by simpa using hset.1
    rw [FdContext.getContext_clear_of_ne _ hne] at hctx
    exact ⟨⟨hset.2, hctx⟩, fun h => hne h.2⟩
  · rw [Function.update_of_ne hq] at hset hctx
    exact ⟨⟨hset, hctx⟩, fun h => hq h.1⟩

theorem Waits.of_register {s : IOManager} {p q : ℕ} {e e' : Event} {who : Caller}
    {interest : ℕ → Option Interest} {c : EventContext}
    (h : (s.register p e who interest).Waits q e' c) :
    (q = p ∧ e' = e ∧ c = who.context s.added.length) ∨ s.Waits q e' c := by
  obtain ⟨hset, hctx⟩ := h
  simp only [register] at hset hctx
  by_cases hq : q = p
  · subst hq
    rw [contexts_setCtx_self, FdContext.events_setContext, Events.has_add] at hset
    rw [contexts_setCtx_self] at hctx
    by_cases he : e' = e
    · subst he
      rw [FdContext.getContext_setContext_self] at hctx
      exact Or.inl ⟨rfl, rfl, hctx.symm⟩
    · rw [FdContext.getContext_setContext_of_ne _ _ he, FdContext.getContext_events]
        at hctx
      rw [decide_eq_false he, Bool.false_or] at hset
      exact Or.inr ⟨hset, hctx⟩
  · rw [contexts_setCtx_of_ne _ _ hq] at hset hctx
    exact Or.inr ⟨hset, hctx⟩

theorem Waits.of_contextResize {s : IOManager} {size p : ℕ} {e : Event}
    {c : EventContext} (h : (s.contextResize size).Waits p e c) : s.Waits p e c := by
  obtain ⟨hset, hctx⟩ := h
  simp only [contextResize] at hset hctx
  split at hset
  · -- A new context has no waiter.
    simp only [FdContext.new, Events.has_none] at hset
    cases hset
  case isFalse hold =>
    rw [if_neg hold] at hctx
    exact ⟨hset, hctx⟩

/-! ## The history of a step -/

namespace History

variable {s s' : IOManager}

theorem of_waits (h : s.History) (hwaits : ∀ {p e c}, s'.Waits p e c → s.Waits p e c)
    (hqueue : s'.queue = s.queue) (hadded : s'.added = s.added)
    (hdeleted : s'.deleted = s.deleted) : s'.History := by
  refine ⟨?_, ?_, ?_, ?_, ?_, ?_⟩
  · intro p e c hc
    rw [hadded]
    exact h.armed (hwaits hc)
  · intro p e c q e' c' hc hc'
    exact h.apart (hwaits hc) (hwaits hc')
  · intro p e c hc
    rw [hqueue, hdeleted]
    exact h.pending (hwaits hc)
  · rw [hqueue, hadded]
    exact h.scheduled
  · rw [hqueue]
    exact h.once
  · rw [hqueue, hadded, hdeleted]
    exact h.removed

theorem lt_of_waits (h : s.History) {p : ℕ} {e : Event} {c : EventContext}
    (hc : s.Waits p e c) : c.ticket < s.added.length := by
  obtain ⟨who, hwho, -⟩ := h.armed hc
  exact (List.getElem?_eq_some_iff.mp hwho).1

theorem lt_of_scheduled (h : s.History) {ticket : ℕ}
    (ht : ticket ∈ s.queue.map Task.ticket) : ticket < s.added.length := by
  obtain ⟨task, htask, rfl⟩ := List.mem_map.mp ht
  obtain ⟨who, hwho, -⟩ := h.scheduled task htask
  exact (List.getElem?_eq_some_iff.mp hwho).1

/-- The waiter is taken out of its context. -/
theorem ne_of_clear (h : s.History) {p q : ℕ} {e e' : Event} {c c' : EventContext}
    (hc : s.Waits p e c)
    (hs : s'.contexts = Function.update s.contexts p ((s.contexts p).clear e))
    (hc' : s'.Waits q e' c') : s.Waits q e' c' ∧ c'.ticket ≠ c.ticket := by
  obtain ⟨hold, hne⟩ := hc'.of_clear hs
  exact ⟨hold, fun ht => hne (h.apart hc hold ht.symm)⟩

theorem fire (h : s.History) (hsane : s.Sane) (hrun : s.aborted = false) {p : ℕ}
    {e : Event} (hset : (s.contexts p).events.has e = true) :
    (s.fire p e).History := by
  have hc : s.Waits p e ((s.contexts p).getContext e) := ⟨hset, rfl⟩
  obtain ⟨who, hwho, hctx⟩ := h.armed hc
  obtain ⟨hqueued, hdeleted⟩ := h.pending hc
  -- What goes into the queue has the ticket of the waiter.
  have htask : (s.contexts p).task e =
      who.task ((s.contexts p).getContext e).ticket := by
    simp only [FdContext.task]
    rw [hctx]
    rfl
  rw [fire_of_has hrun (hsane p) hset, htask]
  refine ⟨?_, ?_, ?_, ?_, ?_, ?_⟩
  · intro q e' c' hc'
    exact h.armed (h.ne_of_clear hc rfl hc').1
  · intro q e' c' q' e'' c'' hc' hc''
    exact h.apart (h.ne_of_clear hc rfl hc').1 (h.ne_of_clear hc rfl hc'').1
  · intro q e' c' hc'
    obtain ⟨hold, hne⟩ := h.ne_of_clear hc rfl hc'
    obtain ⟨hqueued', hdeleted'⟩ := h.pending hold
    refine ⟨?_, hdeleted'⟩
    simp only [List.map_append, List.map_cons, List.map_nil, List.mem_append,
      List.mem_singleton, not_or]
    exact ⟨hqueued', hne⟩
  · intro task ht
    rcases List.mem_append.mp ht with ht | ht
    · exact h.scheduled task ht
    · obtain rfl := List.mem_singleton.mp ht
      exact ⟨who, hwho, rfl⟩
  · simp only [List.map_append, List.map_cons, List.map_nil]
    rw [List.nodup_append]
    refine ⟨h.once, List.nodup_singleton _, ?_⟩
    intro t ht t' ht' heq
    rw [heq, List.mem_singleton.mp ht'] at ht
    exact hqueued ht
  · intro ticket ht
    obtain ⟨hlt, hnot⟩ := h.removed ticket ht
    refine ⟨hlt, ?_⟩
    simp only [List.map_append, List.map_cons, List.map_nil, List.mem_append,
      List.mem_singleton, not_or]
    refine ⟨hnot, ?_⟩
    rintro rfl
    exact hdeleted ht

theorem unregister (h : s.History) {p : ℕ} {e : Event}
    (hset : (s.contexts p).events.has e = true) (interest : ℕ → Option Interest) :
    (s.unregister p e interest).History := by
  have hc : s.Waits p e ((s.contexts p).getContext e) := ⟨hset, rfl⟩
  obtain ⟨hqueued, -⟩ := h.pending hc
  have hclear : (s.unregister p e interest).contexts =
      Function.update s.contexts p ((s.contexts p).clear e) := rfl
  refine ⟨?_, ?_, ?_, h.scheduled, h.once, ?_⟩
  · intro q e' c' hc'
    exact h.armed (h.ne_of_clear hc hclear hc').1
  · intro q e' c' q' e'' c'' hc' hc''
    exact h.apart (h.ne_of_clear hc hclear hc').1 (h.ne_of_clear hc hclear hc'').1
  · intro q e' c' hc'
    obtain ⟨hold, hne⟩ := h.ne_of_clear hc hclear hc'
    obtain ⟨hqueued', hdeleted'⟩ := h.pending hold
    refine ⟨hqueued', ?_⟩
    simp only [IOManager.unregister, List.mem_append, List.mem_singleton, not_or]
    exact ⟨hdeleted', hne⟩
  · intro ticket ht
    rcases List.mem_append.mp ht with ht | ht
    · exact h.removed ticket ht
    · obtain rfl := List.mem_singleton.mp ht
      exact ⟨h.lt_of_waits hc, hqueued⟩

theorem register (h : s.History) (p : ℕ) (e : Event) (who : Caller)
    (interest : ℕ → Option Interest) : (s.register p e who interest).History := by
  have hkeep : ∀ {ticket : ℕ} {w : Caller}, s.added[ticket]? = some w →
      (s.added ++ [who])[ticket]? = some w := by
    intro ticket w hw
    rw [List.getElem?_append_left (List.getElem?_eq_some_iff.mp hw).1]
    exact hw
  refine ⟨?_, ?_, ?_, ?_, h.once, ?_⟩
  · intro q e' c hc
    rcases hc.of_register with ⟨-, -, rfl⟩ | hold
    · exact ⟨who, List.getElem?_concat_length, rfl⟩
    · obtain ⟨w, hw, hctx⟩ := h.armed hold
      exact ⟨w, hkeep hw, hctx⟩
  · -- A new ticket is not one of the old ones.
    intro q e' c q' e'' c' hc hc' ht
    rcases hc.of_register with ⟨rfl, rfl, rfl⟩ | hold
    · rcases hc'.of_register with ⟨rfl, rfl, -⟩ | hold'
      · exact ⟨rfl, rfl⟩
      · exact absurd ht.symm (h.lt_of_waits hold').ne
    · rcases hc'.of_register with ⟨rfl, rfl, rfl⟩ | hold'
      · exact absurd ht (h.lt_of_waits hold).ne
      · exact h.apart hold hold' ht
  · intro q e' c hc
    rcases hc.of_register with ⟨-, -, rfl⟩ | hold
    · refine ⟨fun ht => ?_, fun ht => ?_⟩
      · exact absurd (h.lt_of_scheduled ht) (Nat.lt_irrefl _)
      · exact absurd (h.removed _ ht).1 (Nat.lt_irrefl _)
    · exact h.pending hold
  · intro task ht
    obtain ⟨w, hw, htask⟩ := h.scheduled task ht
    exact ⟨w, hkeep hw, htask⟩
  · intro ticket ht
    obtain ⟨hlt, hnot⟩ := h.removed ticket ht
    refine ⟨?_, hnot⟩
    simp only [IOManager.register, List.length_append, List.length_singleton]
    exact Nat.lt_succ_of_lt hlt

theorem contextResize (h : s.History) (size : ℕ) : (s.contextResize size).History :=
  h.of_waits Waits.of_contextResize rfl rfl rfl

theorem initial : IOManager.History
    { contexts := fun _ => .new 0, next := 0, fdContexts := []
      pendingEventCount := 0, interest := fun _ => .none, queue := []
      added := [], deleted := [], aborted := false } := by
  refine ⟨?_, ?_, ?_, ?_, List.nodup_nil, ?_⟩
  · rintro p e c ⟨hset, -⟩
    cases e <;> cases hset
  · rintro p e c q e' c' ⟨hset, -⟩
    cases e <;> cases hset
  · rintro p e c ⟨hset, -⟩
    cases e <;> cases hset
  · rintro task ⟨⟩
  · rintro ticket ⟨⟩

end History

end IOManager

end Skt
