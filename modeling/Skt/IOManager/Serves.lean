import Skt.IOManager.Context

/-!
# A waiter is not forgotten

Whatever other calls and dispatches do, an event that is registered stays so, with the
same waiter, until that waiter is in the queue of its scheduler; only a call of
`addEvent` or `delEvent` for the event itself can do otherwise.
-/

namespace Skt

namespace IOManager

/-- The event is registered. -/
def Has (s : IOManager) (p : ℕ) (e : Event) : Prop := (s.contexts p).events.has e = true

/-- From `s` to `s'` event `e` of context `p` is not registered anew, and if it is not
registered any more then its waiter is in the queue. -/
structure Serves (p : ℕ) (e : Event) (s s' : IOManager) : Prop where
  kept : s'.Has p e → s.Has p e ∧ (s'.contexts p).getContext e = (s.contexts p).getContext e
  served : s.Has p e → ¬s'.Has p e → (s.contexts p).task e ∈ s'.queue
  queue : ∀ t ∈ s.queue, t ∈ s'.queue

namespace Serves

variable {p q fd : ℕ} {e e' : Event} {s s' s'' : IOManager}

/-- Nothing that concerns the event has changed. -/
theorem of_same (hevents : (s'.contexts p).events.has e = (s.contexts p).events.has e)
    (hcontext : (s'.contexts p).getContext e = (s.contexts p).getContext e)
    (hqueue : ∀ t ∈ s.queue, t ∈ s'.queue) : Serves p e s s' := by
  refine ⟨fun h => ⟨hevents.symm.trans h, hcontext⟩, fun h h' => ?_, hqueue⟩
  exact absurd (hevents.trans h) h'

theorem refl (s : IOManager) : Serves p e s s := of_same rfl rfl fun _ h => h

theorem trans (h : Serves p e s s') (h' : Serves p e s' s'') : Serves p e s s'' := by
  refine ⟨?_, ?_, fun t ht => h'.queue t (h.queue t ht)⟩
  · intro hhas
    obtain ⟨hhas', hcontext'⟩ := h'.kept hhas
    obtain ⟨hhas, hcontext⟩ := h.kept hhas'
    exact ⟨hhas, hcontext'.trans hcontext⟩
  · intro hhas hnot
    by_cases hmid : s'.Has p e
    · have htask : (s'.contexts p).task e = (s.contexts p).task e := by
        simp only [FdContext.task, (h.kept hmid).2]
      exact htask ▸ h'.served hmid hnot
    · exact h'.queue _ (h.served hhas hmid)

/-- The context of another event changes. -/
theorem setCtx (ctx : FdContext) (hevents : q = p → ctx.events.has e =
      (s.contexts p).events.has e)
    (hcontext : q = p → ctx.getContext e = (s.contexts p).getContext e)
    (hs' : s'.contexts = (s.setCtx q ctx).contexts) (hqueue : ∀ t ∈ s.queue, t ∈ s'.queue) :
    Serves p e s s' := by
  by_cases hq : q = p
  · subst hq
    have hself : s'.contexts q = ctx := by
      rw [hs', contexts_setCtx_self]
    exact of_same (by rw [hself, hevents rfl]) (by rw [hself, hcontext rfl]) hqueue
  · have hsame : s'.contexts p = s.contexts p := by
      rw [hs', contexts_setCtx_of_ne s ctx (Ne.symm hq)]
    exact of_same (by rw [hsame]) (by rw [hsame]) hqueue

/-- Another event is cleared. -/
theorem clear (hne : q = p → e' ≠ e)
    (hs' : s'.contexts = (s.setCtx q ((s.contexts q).clear e')).contexts)
    (hqueue : ∀ t ∈ s.queue, t ∈ s'.queue) : Serves p e s s' := by
  refine setCtx _ ?_ ?_ hs' hqueue
  · rintro rfl
    rw [FdContext.events_clear, Events.has_del, decide_eq_false (Ne.symm (hne rfl)),
      Bool.not_false, Bool.true_and]
  · rintro rfl
    exact FdContext.getContext_clear_of_ne _ (Ne.symm (hne rfl))

theorem fire (hs : s.Sane) (q : ℕ) (e' : Event) : Serves p e s (s.fire q e') := by
  cases hrun : s.aborted with
  | true =>
      rw [fire_of_aborted hrun]
      exact of_same rfl rfl fun _ h => h
  | false =>
      cases hset : (s.contexts q).events.has e' with
      | false =>
          rw [fire_of_not_has hrun hset]
          exact of_same rfl rfl fun _ h => h
      | true =>
          rw [fire_of_has hrun (hs q) hset]
          by_cases hconcerns : q = p ∧ e' = e
          · obtain ⟨rfl, rfl⟩ := hconcerns
            refine ⟨?_, ?_, fun t ht => List.mem_append_left _ ht⟩
            · intro hhas
              simp only [Has, contexts_setCtx_self, FdContext.events_clear, Events.has_del,
                decide_true, Bool.not_true, Bool.false_and] at hhas
              cases hhas
            · exact fun _ _ => List.mem_append_right _ List.mem_cons_self
          · refine clear ?_ rfl fun t ht => List.mem_append_left _ ht
            exact fun hq he => hconcerns ⟨hq, he⟩

theorem withInterest (interest : ℕ → Option Interest)
    (h : Serves p e { s with interest } s') : Serves p e s s' :=
  ⟨h.kept, h.served, h.queue⟩

theorem register (who : Caller) (interest : ℕ → Option Interest) (hne : q = p → e' ≠ e) :
    Serves p e s (s.register q e' who interest) := by
  refine setCtx _ ?_ ?_ rfl fun _ h => h
  · rintro rfl
    rw [FdContext.events_setContext, Events.has_add, decide_eq_false (Ne.symm (hne rfl)),
      Bool.false_or]
  · rintro rfl
    rw [FdContext.getContext_setContext_of_ne _ _ (Ne.symm (hne rfl)),
      FdContext.getContext_events]

theorem addEvent (who : Caller) (ok : Bool) (hne : q = p → e' ≠ e) :
    Serves p e s (s.addEvent q fd e' who ok) := by
  unfold IOManager.addEvent
  dsimp only
  split
  · exact of_same rfl rfl fun _ h => h
  · split
    · exact refl s
    · split
      · exact register who _ hne
      · exact of_same rfl rfl fun _ h => h

theorem delEvent (ok : Bool) (hne : q = p → e' ≠ e) :
    Serves p e s (s.delEvent q fd e' ok) := by
  unfold IOManager.delEvent
  dsimp only
  split
  · split
    · exact refl s
    · exact clear hne rfl fun _ h => h
  · exact refl s

theorem cancelEvent (hs : s.Sane) (ok : Bool) : Serves p e s (s.cancelEvent q fd e' ok) := by
  unfold IOManager.cancelEvent
  dsimp only
  split
  · split
    · exact refl s
    case h_2 interest _ => exact withInterest interest (fire (interest_sane hs interest) q e')
  · exact refl s

theorem fireIfSet (hs : s.Sane) (q : ℕ) (e' : Event) :
    Serves p e s (s.fireIfSet q e') := by
  unfold IOManager.fireIfSet
  split
  · exact fire hs q e'
  · exact refl s

theorem cancelAll (hs : s.Sane) (ok : Bool) : Serves p e s (s.cancelAll q fd ok) := by
  unfold IOManager.cancelAll
  split
  · exact refl s
  · split
    · exact refl s
    case h_2 interest _ =>
      have hfirst : Serves p e { s with interest }
          ({ s with interest }.fireIfSet q .READ) :=
        fireIfSet (interest_sane hs interest) q .READ
      have hboth := withInterest interest (hfirst.trans
        (fireIfSet (fireIfSet_sane (interest_sane hs interest) q .READ) q .WRITE))
      dsimp only
      split
      · exact hboth
      · exact ⟨hboth.kept, hboth.served, hboth.queue⟩

theorem fireIf (hs : s.Sane) (real : Events) : Serves p e s (s.fireIf real q e') := by
  unfold IOManager.fireIf
  split
  · exact fire hs q e'
  · exact refl s

theorem dispatch (hs : s.Sane) (r : Report) (ok : Bool) :
    Serves p e s (s.dispatch q r ok) := by
  unfold IOManager.dispatch
  dsimp only
  split
  · exact refl s
  · split
    · exact refl s
    case h_2 interest _ =>
      have hfirst : Serves p e { s with interest }
          ({ s with interest }.fireIf r.real q .READ) :=
        fireIf (interest_sane hs interest) r.real
      exact withInterest interest (hfirst.trans
        (fireIf (fireIf_sane (interest_sane hs interest) r.real q .READ) r.real))

end Serves

/-- `cancelEvent` takes the event away, if `epoll_ctl` succeeds. -/
theorem not_has_cancelEvent {s : IOManager} (hs : s.Sane) (hrun : s.aborted = false)
    {p fd : ℕ} {e : Event} {ok : Bool}
    (hok : s.Has p e → (epollCtl ok (leftOp ((s.contexts p).events.del e)) fd
      ⟨(s.contexts p).events.del e, p⟩ s.interest).isSome = true) :
    ¬(s.cancelEvent p fd e ok).Has p e := by
  unfold cancelEvent
  dsimp only
  split
  case isTrue hset =>
    obtain ⟨interest, hinterest⟩ := Option.isSome_iff_exists.mp (hok hset)
    rw [hinterest]
    intro hhas
    have hfire := fire_of_has (s := { s with interest }) hrun (hs p) hset
    simp only [hfire, Has, contexts_setCtx_self, FdContext.events_clear, Events.has_del,
      decide_true, Bool.not_true, Bool.false_and] at hhas
    cases hhas
  case isFalse hset => exact hset

end IOManager

end Skt
