import Skt.IOManager.Model

/-!
# The contexts of an fd

What a bit of `fd_ctx->events` says about the `EventContext` that goes with it,
and that every call keeps it so, in any order of calls.
-/

namespace Skt

/-! ## Masks -/

namespace Events

theorem ext_has {m m' : Events} (h : ∀ e, m.has e = m'.has e) : m = m' := by
  obtain ⟨r, w⟩ := m
  obtain ⟨r', w'⟩ := m'
  have hr : r = r' := h .READ
  have hw : w = w' := h .WRITE
  rw [hr, hw]

@[simp] theorem has_none (e : Event) : none.has e = false := by
  cases e <;> rfl

@[simp] theorem has_add (m : Events) (e e' : Event) :
    (m.add e).has e' = (decide (e' = e) || m.has e') := by
  cases e <;> cases e' <;> simp [add, has]

@[simp] theorem has_del (m : Events) (e e' : Event) :
    (m.del e).has e' = (!decide (e' = e) && m.has e') := by
  cases e <;> cases e' <;> simp [del, has]

@[simp] theorem has_inter (m r : Events) (e : Event) :
    (m.inter r).has e = (m.has e && r.has e) := by
  cases e <;> rfl

@[simp] theorem has_diff (m r : Events) (e : Event) :
    (m.diff r).has e = (m.has e && !r.has e) := by
  cases e <;> rfl

theorem eq_none_iff {m : Events} : m = none ↔ ∀ e, m.has e = false := by
  constructor
  · rintro rfl e
    exact has_none e
  · intro h
    apply ext_has
    intro e
    rw [h e, has_none]

theorem count_eq_zero_iff {m : Events} : m.count = 0 ↔ m = none := by
  obtain ⟨r, w⟩ := m
  cases r <;> cases w <;> simp [count, none]

theorem count_add {m : Events} {e : Event} (h : m.has e = false) :
    (m.add e).count = m.count + 1 := by
  obtain ⟨r, w⟩ := m
  cases e
  · obtain rfl : r = false := h
    cases w <;> rfl
  · obtain rfl : w = false := h
    cases r <;> rfl

theorem count_del {m : Events} {e : Event} (h : m.has e = true) :
    (m.del e).count + 1 = m.count := by
  obtain ⟨r, w⟩ := m
  cases e
  · obtain rfl : r = true := h
    cases w <;> rfl
  · obtain rfl : w = true := h
    cases r <;> rfl

end Events

/-! ## Contexts -/

/-- A scheduler, and either a fiber or a callback. -/
def EventContext.Armed (c : EventContext) : Prop :=
  c.scheduler.isSome ∧ c.fiber.isSome ≠ c.cb.isSome

def EventContext.reset (c : EventContext) : EventContext :=
  { c with scheduler := none, fiber := none, cb := none }

namespace FdContext

/-- A bit of `events` is set exactly if its `EventContext` is armed, and the
`EventContext` is empty otherwise. -/
def Ok (ctx : FdContext) : Prop :=
  ∀ e, (ctx.events.has e = true → (ctx.getContext e).Armed) ∧
    (ctx.events.has e = false → (ctx.getContext e).isEmpty = true)

theorem new_ok (fd : ℕ) : (new fd).Ok := by
  intro e
  cases e <;> exact ⟨fun h => absurd h Bool.false_ne_true, fun _ => rfl⟩

@[simp] theorem events_setContext (ctx : FdContext) (c : EventContext) (e : Event) :
    (ctx.setContext c e).events = ctx.events := by
  cases e <;> rfl

@[simp] theorem fd_setContext (ctx : FdContext) (c : EventContext) (e : Event) :
    (ctx.setContext c e).fd = ctx.fd := by
  cases e <;> rfl

@[simp] theorem getContext_setContext_self (ctx : FdContext) (c : EventContext)
    (e : Event) : (ctx.setContext c e).getContext e = c := by
  cases e <;> rfl

theorem getContext_setContext_of_ne (ctx : FdContext) (c : EventContext)
    {e e' : Event} (h : e' ≠ e) :
    (ctx.setContext c e).getContext e' = ctx.getContext e' := by
  cases e <;> cases e' <;> first | rfl | exact absurd rfl h

@[simp] theorem getContext_events (ctx : FdContext) (m : Events) (e : Event) :
    { ctx with events := m }.getContext e = ctx.getContext e := by
  cases e <;> rfl

/-- What `triggerEvent` puts into the queue. -/
def task (ctx : FdContext) (e : Event) : Task :=
  let c := ctx.getContext e
  ⟨c.scheduler.getD 0, c.fiber, c.cb, c.ticket⟩

/-- What is left behind a trigger or a `delEvent`. -/
def clear (ctx : FdContext) (e : Event) : FdContext :=
  { ctx with events := ctx.events.del e }.setContext (ctx.getContext e).reset e

@[simp] theorem events_clear (ctx : FdContext) (e : Event) :
    (ctx.clear e).events = ctx.events.del e :=
  events_setContext _ _ _

theorem getContext_clear_of_ne (ctx : FdContext) {e e' : Event} (h : e' ≠ e) :
    (ctx.clear e).getContext e' = ctx.getContext e' := by
  rw [clear, getContext_setContext_of_ne _ _ h, getContext_events]

theorem task_clear_of_ne (ctx : FdContext) {e e' : Event} (h : e' ≠ e) :
    (ctx.clear e).task e' = ctx.task e' := by
  simp only [task, getContext_clear_of_ne ctx h]

theorem clear_ok {ctx : FdContext} (h : ctx.Ok) (e : Event) : (ctx.clear e).Ok := by
  intro e'
  by_cases he : e' = e
  · subst he
    rw [events_clear, clear, getContext_setContext_self]
    refine ⟨fun hset => ?_, fun _ => rfl⟩
    rw [Events.has_del, decide_eq_true rfl] at hset
    cases hset
  · rw [events_clear, getContext_clear_of_ne ctx he, Events.has_del,
      decide_eq_false he, Bool.not_false, Bool.true_and]
    exact h e'

theorem add_ok {ctx : FdContext} (h : ctx.Ok) {c : EventContext} (hc : c.Armed)
    (e : Event) :
    ({ ctx with events := ctx.events.add e }.setContext c e).Ok := by
  intro e'
  by_cases he : e' = e
  · subst he
    rw [events_setContext, getContext_setContext_self]
    refine ⟨fun _ => hc, fun hset => ?_⟩
    rw [Events.has_add, decide_eq_true rfl] at hset
    cases hset
  · rw [events_setContext, getContext_setContext_of_ne _ _ he, getContext_events,
      Events.has_add, decide_eq_false he, Bool.false_or]
    exact h e'

end FdContext

namespace IOManager

/-! ## Triggering an event -/

@[simp] theorem contexts_setCtx_self (s : IOManager) (p : ℕ) (ctx : FdContext) :
    (s.setCtx p ctx).contexts p = ctx :=
  Function.update_self _ _ _

theorem contexts_setCtx_of_ne (s : IOManager) {p q : ℕ} (ctx : FdContext)
    (h : q ≠ p) : (s.setCtx p ctx).contexts q = s.contexts q :=
  Function.update_of_ne h _ _

/-- Every context is in order. -/
def Sane (s : IOManager) : Prop := ∀ p, (s.contexts p).Ok

theorem setCtx_sane {s : IOManager} (h : s.Sane) {p : ℕ} {ctx : FdContext}
    (hctx : ctx.Ok) : (s.setCtx p ctx).Sane := by
  intro q
  by_cases hq : q = p
  · subst hq
    rw [contexts_setCtx_self]
    exact hctx
  · rw [contexts_setCtx_of_ne s ctx hq]
    exact h q

/-- A registered event: its fiber or callback moves into the queue. -/
theorem fire_of_has {s : IOManager} {p : ℕ} {e : Event} (hrun : s.aborted = false)
    (hctx : (s.contexts p).Ok) (hset : (s.contexts p).events.has e = true) :
    s.fire p e =
      { s.setCtx p ((s.contexts p).clear e) with
        queue := s.queue ++ [(s.contexts p).task e]
        pendingEventCount := s.pendingEventCount - 1 } := by
  obtain ⟨hsched, hone⟩ := (hctx e).1 hset
  obtain ⟨scheduler, hscheduler⟩ := Option.isSome_iff_exists.mp hsched
  rcases hcb : ((s.contexts p).getContext e).cb with _ | cb
  · rcases hfiber : ((s.contexts p).getContext e).fiber with _ | fiber
    · rw [hcb, hfiber] at hone
      exact absurd rfl hone
    · simp [fire, triggerEvent, hrun, hset, hscheduler, hcb, hfiber, FdContext.clear,
        FdContext.task, EventContext.reset, setCtx]
  · rcases hfiber : ((s.contexts p).getContext e).fiber with _ | fiber
    · simp [fire, triggerEvent, hrun, hset, hscheduler, hcb, hfiber, FdContext.clear,
        FdContext.task, EventContext.reset, setCtx]
    · rw [hcb, hfiber] at hone
      exact absurd rfl hone

/-- An event that is not registered: the assertion fails. -/
theorem fire_of_not_has {s : IOManager} {p : ℕ} {e : Event} (hrun : s.aborted = false)
    (hset : (s.contexts p).events.has e = false) :
    s.fire p e =
      { s with aborted := true, pendingEventCount := s.pendingEventCount - 1 } := by
  simp [fire, triggerEvent, hrun, hset, abort]

theorem fire_of_aborted {s : IOManager} {p : ℕ} {e : Event} (hrun : s.aborted = true) :
    s.fire p e = { s with pendingEventCount := s.pendingEventCount - 1 } := by
  simp [fire, triggerEvent, hrun]

theorem fire_sane {s : IOManager} (h : s.Sane) (p : ℕ) (e : Event) :
    (s.fire p e).Sane := by
  cases hrun : s.aborted with
  | true =>
      rw [fire_of_aborted hrun]
      exact h
  | false =>
      cases hset : (s.contexts p).events.has e with
      | true =>
          rw [fire_of_has hrun (h p) hset]
          exact setCtx_sane h (FdContext.clear_ok (h p) e)
      | false =>
          rw [fire_of_not_has hrun hset]
          exact h

/-! ## Every call keeps the contexts in order -/

theorem contextResize_sane {s : IOManager} (h : s.Sane) (size : ℕ) :
    (s.contextResize size).Sane := by
  intro p
  simp only [contextResize]
  split_ifs
  · exact FdContext.new_ok _
  · exact h p

theorem new_sane : new.Sane :=
  contextResize_sane (fun _ => FdContext.new_ok 0) 32

theorem register_sane {s : IOManager} (h : s.Sane) (p : ℕ) (e : Event)
    (who : Caller) (interest : ℕ → Option Interest) :
    (s.register p e who interest).Sane := by
  refine setCtx_sane h (FdContext.add_ok (h p) ⟨rfl, ?_⟩ e)
  cases who.cb <;> simp

theorem unregister_sane {s : IOManager} (h : s.Sane) (p : ℕ) (e : Event)
    (interest : ℕ → Option Interest) : (s.unregister p e interest).Sane :=
  setCtx_sane h (FdContext.clear_ok (h p) e)

theorem interest_sane {s : IOManager} (h : s.Sane) (interest : ℕ → Option Interest) :
    { s with interest }.Sane := h

theorem addEvent_sane {s : IOManager} (h : s.Sane) (p fd : ℕ) (e : Event)
    (who : Caller) (ok : Bool) : (s.addEvent p fd e who ok).Sane := by
  unfold addEvent
  dsimp only
  split
  · exact h
  · split
    · exact h
    · split
      · exact register_sane h p e who _
      · exact h

theorem delEvent_sane {s : IOManager} (h : s.Sane) (p fd : ℕ) (e : Event)
    (ok : Bool) : (s.delEvent p fd e ok).Sane := by
  unfold delEvent
  dsimp only
  split
  · split
    · exact h
    · exact unregister_sane h p e _
  · exact h

theorem cancelEvent_sane {s : IOManager} (h : s.Sane) (p fd : ℕ) (e : Event)
    (ok : Bool) : (s.cancelEvent p fd e ok).Sane := by
  unfold cancelEvent
  dsimp only
  split
  · split
    · exact h
    · exact fire_sane (interest_sane h _) p e
  · exact h

theorem fireIfSet_sane {s : IOManager} (h : s.Sane) (p : ℕ) (e : Event) :
    (s.fireIfSet p e).Sane := by
  unfold fireIfSet
  split
  · exact fire_sane h p e
  · exact h

theorem cancelAll_sane {s : IOManager} (h : s.Sane) (p fd : ℕ) (ok : Bool) :
    (s.cancelAll p fd ok).Sane := by
  unfold cancelAll
  split
  · exact h
  · split
    · exact h
    · dsimp only
      split
      · exact fireIfSet_sane (fireIfSet_sane (interest_sane h _) p .READ) p .WRITE
      · exact fireIfSet_sane (fireIfSet_sane (interest_sane h _) p .READ) p .WRITE

theorem fireIf_sane {s : IOManager} (h : s.Sane) (real : Events) (p : ℕ) (e : Event) :
    (s.fireIf real p e).Sane := by
  unfold fireIf
  split
  · exact fire_sane h p e
  · exact h

theorem dispatch_sane {s : IOManager} (h : s.Sane) (p : ℕ) (r : Report) (ok : Bool) :
    (s.dispatch p r ok).Sane := by
  unfold dispatch
  dsimp only
  split
  · exact h
  · split
    · exact h
    · exact fireIf_sane (fireIf_sane (interest_sane h _) _ p .READ) _ p .WRITE

end IOManager

namespace System

theorem locked_sane {s : IOManager} (h : s.Sane) (c : Call) (p : ℕ) (ok : Bool) :
    (c.locked s p ok).Sane := by
  cases c with
  | addEvent fd e who => exact IOManager.addEvent_sane h p fd e who ok
  | delEvent fd e => exact IOManager.delEvent_sane h p fd e ok
  | cancelEvent fd e => exact IOManager.cancelEvent_sane h p fd e ok
  | cancelAll fd => exact IOManager.cancelAll_sane h p fd ok

theorem took_sane {s s' : System} {l : Label} (h : s.io.Sane) (hstep : Took s l s') :
    s'.io.Sane := by
  cases hstep with
  | found | tooShort | returned | drained | waited => exact h
  | resized | outOfRange => exact IOManager.contextResize_sane h _
  | locked => exact locked_sane h _ _ _
  | dispatched => exact IOManager.dispatch_sane h _ _ _

/-- **The contexts are always in order**, whatever the calls and their order. -/
theorem reachable_sane {Ok : System → Label → Prop} {s : System}
    (h : machine.Reachable Ok s) : s.io.Sane := by
  apply h.invariant
  · exact IOManager.new_sane
  · intro s t l hs _ hstep
    exact took_sane hs (took_of_step hstep).2

end System

end Skt
