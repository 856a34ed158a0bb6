import Skt.IOManager.Dispatch
import Skt.IOManager.History

/-!
# The invariant of an `IOManager`

The pending count, the masks, the contexts, the interest of the kernel and the
queue stay in step, in any order of calls and dispatches. They do so as long as
the vector of contexts never loses a context that is in use: `addEvent` on a
large fd and on a smaller one at the same time can make it lose one.
-/

namespace Skt

set_option maxRecDepth 4000

namespace IOManager

/-- The number of bits that are set, over all the contexts of the vector. -/
def total (s : IOManager) : ℕ :=
  (s.fdContexts.map fun p => (s.contexts p).events.count).sum

/-- The interest that goes with a mask. -/
def interestOf (m : Events) (p : ℕ) : Option Interest :=
  if m = .none then none else some ⟨m, p⟩

/-- The interest that the kernel should have in an fd. -/
def wanted (s : IOManager) (fd : ℕ) : Option Interest :=
  match s.fdContexts[fd]? with
  | none => none
  | some p => interestOf (s.contexts p).events p

/-- All the pieces of the state agree. -/
structure Consistent (s : IOManager) : Prop where
  /-- no assertion has failed -/
  running : s.aborted = false
  pending : s.pendingEventCount = s.total
  interest : ∀ fd, s.interest fd = s.wanted fd
  contexts : s.Sane
  /-- what is in the queue was handed over by an `addEvent` that succeeded -/
  scheduled : ∀ task ∈ s.queue,
    ∃ who, s.added[task.ticket]? = some who ∧ task = who.task task.ticket
  once : (s.queue.map Task.ticket).Nodup
  removed : ∀ ticket ∈ s.deleted, ticket ∉ s.queue.map Task.ticket

/-- What holds between any two statements of a call, that is, all but the
interest of the kernel. -/
structure Core (s : IOManager) : Prop where
  running : s.aborted = false
  sane : s.Sane
  history : s.History
  indexed : s.Indexed
  waiting : ∀ p, (s.contexts p).events ≠ .none →
    s.fdContexts[(s.contexts p).fd]? = some p
  pending : s.pendingEventCount = s.total

def Synced (s : IOManager) : Prop := ∀ fd, s.interest fd = s.wanted fd

theorem Core.consistent {s : IOManager} (h : s.Core) (hsync : s.Synced) :
    s.Consistent :=
  ⟨h.running, h.pending, hsync, h.sane, h.history.scheduled, h.history.once,
    fun ticket ht => (h.history.removed ticket ht).2⟩

/-! ## The pending count -/

theorem Indexed.nodup {s : IOManager} (h : s.Indexed) : s.fdContexts.Nodup := by
  rw [List.nodup_iff_getElem?_ne_getElem?]
  intro i j hij hj heq
  rw [List.getElem?_eq_getElem hj] at heq
  have hi := (h i _ heq).2
  have hj' := (h j _ (List.getElem?_eq_getElem hj)).2
  exact absurd (hi.symm.trans hj') (Nat.ne_of_lt hij)

theorem sum_map_of_eq_off {l : List ℕ} {p : ℕ} {f f' : ℕ → ℕ} (hl : l.Nodup)
    (hp : p ∈ l) (h : ∀ q, q ≠ p → f' q = f q) :
    (l.map f').sum + f p = (l.map f).sum + f' p := by
  have hperm := List.perm_cons_erase hp
  have hrest : (l.erase p).map f' = (l.erase p).map f := by
    apply List.map_congr_left
    intro q hq
    exact h q (hl.mem_erase_iff.mp hq).1
  rw [(hperm.map f').sum_eq, (hperm.map f).sum_eq, List.map_cons, List.map_cons,
    List.sum_cons, List.sum_cons, hrest]
  ring

theorem Frame.total {s s' : IOManager} {p : ℕ} (h : Frame s s' p) (hs : s.Indexed)
    (hp : p ∈ s.fdContexts) :
    s'.total + (s.contexts p).events.count =
      s.total + (s'.contexts p).events.count := by
  unfold IOManager.total
  rw [h.fdContexts]
  apply sum_map_of_eq_off hs.nodup hp
  intro q hq
  rw [h.others q hq]

theorem Core.frame {s s' : IOManager} (hs : s.Core) {p fd : ℕ} (h : Frame s s' p)
    (hp : s.fdContexts[fd]? = some p) (hrun : s'.aborted = false) (hsane : s'.Sane)
    (hhistory : s'.History)
    (hpending : s'.pendingEventCount + (s.contexts p).events.count =
      s.pendingEventCount + (s'.contexts p).events.count) : s'.Core := by
  refine ⟨hrun, hsane, hhistory, h.indexed hs.indexed, ?_, ?_⟩
  · intro q hq
    rw [h.fd_eq, h.fdContexts]
    by_cases hqp : q = p
    · rw [hqp, (hs.indexed fd p hp).2]
      exact hp
    · apply hs.waiting
      rw [← h.others q hqp]
      exact hq
  · have htotal := h.total hs.indexed (List.mem_of_getElem? hp)
    have := hs.pending
    omega

theorem Core.mem_of_has {s : IOManager} (hs : s.Core) {p : ℕ} {e : Event}
    (h : (s.contexts p).events.has e = true) :
    s.fdContexts[(s.contexts p).fd]? = some p := by
  apply hs.waiting
  intro hnone
  rw [Events.eq_none_iff.mp hnone e] at h
  cases h

theorem Core.fire {s : IOManager} (hs : s.Core) {p : ℕ} {e : Event}
    (h : (s.contexts p).events.has e = true) : (s.fire p e).Core := by
  have heq := fire_of_has hs.running (hs.sane p) h
  apply hs.frame (fire_frame s p e) (hs.mem_of_has h)
  · rw [heq]
    exact hs.running
  · exact fire_sane hs.sane p e
  · exact hs.history.fire hs.sane hs.running h
  · rw [heq]
    simp only [contexts_setCtx_self, FdContext.events_clear]
    have := Events.count_del h
    omega

theorem Core.withInterest {s : IOManager} (hs : s.Core)
    (interest : ℕ → Option Interest) : { s with interest }.Core :=
  ⟨hs.running, hs.sane, hs.history.of_waits (fun h => h) rfl rfl rfl, hs.indexed,
    hs.waiting, hs.pending⟩

theorem Core.fireIf {s : IOManager} (hs : s.Core) {real : Events} {p : ℕ} {e : Event}
    (h : real.has e = true → (s.contexts p).events.has e = true) :
    (s.fireIf real p e).Core := by
  unfold IOManager.fireIf
  split
  case isTrue he => exact hs.fire (h he)
  case isFalse => exact hs

/-! ## The interest of the kernel -/

theorem interest_fire (s : IOManager) (p : ℕ) (e : Event) :
    (s.fire p e).interest = s.interest := by
  unfold fire triggerEvent
  dsimp only
  split
  · rfl
  · split
    · split <;> rfl
    · rfl

theorem interest_fireIf (s : IOManager) (real : Events) (p : ℕ) (e : Event) :
    (s.fireIf real p e).interest = s.interest := by
  unfold fireIf
  split
  · exact interest_fire s p e
  · rfl

theorem epollCtl_leftOp {ok : Bool} {m : Events} {fd p : ℕ}
    {interest interest' : ℕ → Option Interest}
    (h : epollCtl ok (leftOp m) fd ⟨m, p⟩ interest = some interest') :
    interest' = Function.update interest fd (interestOf m p) := by
  cases ok with
  | false => cases h
  | true =>
      unfold leftOp interestOf at *
      by_cases hm : m = .none
      · rw [if_pos hm] at h ⊢
        cases hi : interest fd <;> simp [epollCtl, hi] at h
        exact h.symm
      · rw [if_neg hm] at h ⊢
        cases hi : interest fd <;> simp [epollCtl, hi] at h
        exact h.symm

theorem epollCtl_add {ok : Bool} {op : EpollOp} {m : Events} {e : Event} {fd p : ℕ}
    {interest interest' : ℕ → Option Interest} (hop : op ≠ .DEL)
    (h : epollCtl ok op fd ⟨m.add e, p⟩ interest = some interest') :
    interest' = Function.update interest fd (interestOf (m.add e) p) := by
  have hne : m.add e ≠ .none := by
    intro hnone
    have := Events.eq_none_iff.mp hnone e
    rw [Events.has_add, decide_eq_true rfl] at this
    cases this
  rw [interestOf, if_neg hne]
  cases ok with
  | false => cases h
  | true =>
      cases op with
      | DEL => exact absurd rfl hop
      | ADD | MOD =>
          cases hi : interest fd <;> simp [epollCtl, hi] at h
          exact h.symm

/-- The interest in the fd of the context that has changed is the new one. -/
theorem Synced.frame {s s' : IOManager} (hs : s.Core) (hsync : s.Synced) {p fd : ℕ}
    (h : Frame s s' p) (hp : s.fdContexts[fd]? = some p)
    (hinterest : s'.interest =
      Function.update s.interest fd (interestOf (s'.contexts p).events p)) :
    s'.Synced := by
  intro fd'
  rw [hinterest, wanted, h.fdContexts]
  by_cases hfd : fd' = fd
  · rw [hfd, Function.update_self, hp]
  · rw [Function.update_of_ne hfd, hsync fd', wanted]
    cases hq : s.fdContexts[fd']? with
    | none => rfl
    | some q =>
        -- Two fds do not share a context.
        have hqp : q ≠ p := by
          rintro rfl
          exact hfd ((hs.indexed fd' q hq).2.symm.trans (hs.indexed fd q hp).2)
        dsimp only
        rw [h.others q hqp]

/-! ## The calls -/

section calls

variable {s : IOManager} {p fd : ℕ}

theorem addEvent_inv (hs : s.Core) (hsync : s.Synced)
    (hp : s.fdContexts[fd]? = some p) {e : Event}
    (he : (s.contexts p).events.has e = false) (who : Caller) (ok : Bool) :
    (s.addEvent p fd e who ok).Core ∧ (s.addEvent p fd e who ok).Synced := by
  have hframe := addEvent_frame s p fd e who ok
  unfold addEvent at hframe ⊢
  dsimp only at hframe ⊢
  rw [if_neg (by rw [he]; exact Bool.false_ne_true)] at hframe ⊢
  split
  · exact ⟨hs, hsync⟩
  case h_2 interest hctl =>
    simp only [hctl] at hframe
    -- The assertion on the context holds, since the bit is not set.
    have hempty := (hs.sane p e).2 he
    rw [if_pos hempty] at hframe ⊢
    have hop : (if (s.contexts p).events = .none then EpollOp.ADD else .MOD) ≠ .DEL := by
      split
      · exact EpollOp.noConfusion
      · exact EpollOp.noConfusion
    have hevents : ((s.register p e who interest).contexts p).events =
        (s.contexts p).events.add e := by
      simp only [register, contexts_setCtx_self, FdContext.events_setContext]
    constructor
    · apply hs.frame hframe hp hs.running (register_sane hs.sane p e who interest)
        (hs.history.register p e who interest)
      have hcount := Events.count_add he
      rw [hevents, hcount]
      simp only [register]
      push_cast
      ring
    · apply hsync.frame hs hframe hp
      rw [hevents]
      exact epollCtl_add hop hctl

theorem delEvent_inv (hs : s.Core) (hsync : s.Synced)
    (hp : s.fdContexts[fd]? = some p) (e : Event) (ok : Bool) :
    (s.delEvent p fd e ok).Core ∧ (s.delEvent p fd e ok).Synced := by
  have hframe := delEvent_frame s p fd e ok
  unfold delEvent at hframe ⊢
  dsimp only at hframe ⊢
  split
  case isFalse => exact ⟨hs, hsync⟩
  case isTrue he =>
    rw [if_pos he] at hframe
    split
    · exact ⟨hs, hsync⟩
    case h_2 interest hctl =>
      simp only [hctl] at hframe
      have hevents : ((s.unregister p e interest).contexts p).events =
          (s.contexts p).events.del e := by
        simp only [unregister, contexts_setCtx_self, FdContext.events_setContext]
      constructor
      · apply hs.frame hframe hp hs.running (unregister_sane hs.sane p e interest)
          (hs.history.unregister he interest)
        have hcount := Events.count_del he
        rw [hevents, ← hcount]
        simp only [unregister]
        push_cast
        ring
      · apply hsync.frame hs hframe hp
        rw [hevents]
        exact epollCtl_leftOp hctl

theorem cancelEvent_inv (hs : s.Core) (hsync : s.Synced)
    (hp : s.fdContexts[fd]? = some p) (e : Event) (ok : Bool) :
    (s.cancelEvent p fd e ok).Core ∧ (s.cancelEvent p fd e ok).Synced := by
  have hframe := cancelEvent_frame s p fd e ok
  unfold cancelEvent at hframe ⊢
  dsimp only at hframe ⊢
  split
  case isFalse => exact ⟨hs, hsync⟩
  case isTrue he =>
    rw [if_pos he] at hframe
    split
    · exact ⟨hs, hsync⟩
    case h_2 interest hctl =>
      simp only [hctl] at hframe
      have hmid := hs.withInterest interest
      refine ⟨hmid.fire he, ?_⟩
      apply hsync.frame hs hframe hp
      rw [interest_fire, fire_of_has hmid.running (hmid.sane p) he]
      simp only [contexts_setCtx_self, FdContext.events_clear]
      exact epollCtl_leftOp hctl

theorem has_fire_of_ne (s : IOManager) (p : ℕ) {e e' : Event} (h : e' ≠ e) :
    ((s.fire p e).contexts p).events.has e' = (s.contexts p).events.has e' := by
  unfold fire triggerEvent
  dsimp only
  split
  · rfl
  · split
    · split
      · rfl
      · rw [contexts_setCtx_self, FdContext.events_setContext, Events.has_del,
          decide_eq_false h, Bool.not_false, Bool.true_and]
    · rfl

theorem has_fireIf_of_ne (s : IOManager) (real : Events) (p : ℕ) {e e' : Event}
    (h : e' ≠ e) :
    ((s.fireIf real p e).contexts p).events.has e' = (s.contexts p).events.has e' := by
  unfold fireIf
  split
  · exact has_fire_of_ne s p h
  · rfl

theorem fireIf_both_core (hs : s.Core) {real : Events}
    (h : ∀ e, real.has e = true → (s.contexts p).events.has e = true) :
    ((s.fireIf real p .READ).fireIf real p .WRITE).Core := by
  apply (hs.fireIf (h .READ)).fireIf
  intro hw
  rw [has_fireIf_of_ne s real p Event.noConfusion]
  exact h .WRITE hw

/-- `cancelAll` triggers by the mask it has found. -/
theorem fireIfSet_both (s : IOManager) (p : ℕ) :
    (s.fireIfSet p .READ).fireIfSet p .WRITE =
      (s.fireIf (s.contexts p).events p .READ).fireIf (s.contexts p).events p .WRITE := by
  have hread : s.fireIfSet p .READ = s.fireIf (s.contexts p).events p .READ := rfl
  rw [hread, fireIfSet]
  conv_rhs => rw [fireIf]
  rw [has_fireIf_of_ne s _ p Event.noConfusion]

theorem cancelAll_inv (hs : s.Core) (hsync : s.Synced)
    (hp : s.fdContexts[fd]? = some p) (ok : Bool) :
    (s.cancelAll p fd ok).Core ∧ (s.cancelAll p fd ok).Synced := by
  have hframe := cancelAll_frame s p fd ok
  unfold cancelAll at hframe ⊢
  split
  case isTrue => exact ⟨hs, hsync⟩
  case isFalse hne =>
    rw [if_neg hne] at hframe
    split
    · exact ⟨hs, hsync⟩
    case h_2 interest hctl =>
      simp only [hctl] at hframe
      have hmid := hs.withInterest interest
      have hcore := fireIf_both_core (p := p) hmid (fun _ h => h)
      have hnone := (fireIf_both (p := p) hmid.sane hmid.running (fun _ h => h)).2.2.2
      rw [← fireIfSet_both] at hcore hnone
      have hdiff : (s.contexts p).events.diff (s.contexts p).events = .none := by
        apply Events.eq_none_iff.mpr
        intro e
        rw [Events.has_diff, Bool.and_not_self]
      rw [hdiff] at hnone
      dsimp only at hframe ⊢
      rw [if_pos hnone] at hframe ⊢
      refine ⟨hcore, ?_⟩
      apply hsync.frame hs hframe hp
      rw [hnone, fireIfSet_both, interest_fireIf, interest_fireIf]
      exact epollCtl_leftOp hctl

theorem dispatch_inv (hs : s.Core) (hsync : s.Synced) {r : Report}
    (h : ∀ e, r.real.has e = true → (s.contexts p).events.has e = true) (ok : Bool) :
    (s.dispatch p r ok).Core ∧ (s.dispatch p r ok).Synced := by
  have hframe := dispatch_frame s p r ok
  unfold dispatch at hframe ⊢
  dsimp only at hframe ⊢
  split
  case isTrue => exact ⟨hs, hsync⟩
  case isFalse hhit =>
    rw [if_neg hhit] at hframe
    split
    · exact ⟨hs, hsync⟩
    case h_2 interest hctl =>
      simp only [hctl] at hframe
      have hmid := hs.withInterest interest
      have hp : s.fdContexts[(s.contexts p).fd]? = some p := by
        apply hs.waiting
        intro hnone
        apply hhit
        rw [hnone]
        rfl
      refine ⟨fireIf_both_core hmid h, ?_⟩
      apply hsync.frame hs hframe hp
      rw [(fireIf_both hmid.sane hmid.running h).2.2.2, interest_fireIf,
        interest_fireIf]
      exact epollCtl_leftOp hctl

end calls

/-! ## Resizing -/

theorem mem_drop_of_getElem? {l : List ℕ} {n i p : ℕ} (h : l[i]? = some p)
    (hn : n ≤ i) : p ∈ l.drop n := by
  apply List.mem_of_getElem? (i := i - n)
  rw [List.getElem?_drop, Nat.add_sub_cancel' hn]
  exact h

theorem total_contextResize {s : IOManager} (hs : s.Core) {size : ℕ}
    (h : ∀ p ∈ s.fdContexts.drop size, (s.contexts p).events = .none) :
    (s.contextResize size).total = s.total := by
  have hold : ∀ p ∈ s.fdContexts.take size,
      ((s.contextResize size).contexts p).events.count =
        (s.contexts p).events.count := by
    intro p hp
    obtain ⟨fd, hfd⟩ := List.mem_iff_getElem?.mp (List.mem_of_mem_take hp)
    rw [contextResize_context s (hs.indexed fd p hfd).1]
  have hdrop : ((s.fdContexts.drop size).map
      fun p => (s.contexts p).events.count).sum = 0 := by
    apply List.sum_eq_zero
    intro n hn
    obtain ⟨p, hp, rfl⟩ := List.mem_map.mp hn
    exact Events.count_eq_zero_iff.mpr (h p hp)
  have hnew : (((List.range (size - s.fdContexts.length)).map (s.next + ·)).map
      fun p => ((s.contextResize size).contexts p).events.count).sum = 0 := by
    apply List.sum_eq_zero
    intro n hn
    obtain ⟨p, hp, rfl⟩ := List.mem_map.mp hn
    obtain ⟨i, hi, rfl⟩ := List.mem_map.mp hp
    have hi := List.mem_range.mp hi
    have hi' : s.fdContexts.length + i < size := by omega
    have hfresh := contextResize_fresh s hi' (Nat.le_add_right _ _)
    rw [Nat.add_sub_cancel_left] at hfresh
    rw [hfresh]
    rfl
  calc (s.contextResize size).total
      = ((s.fdContexts.take size).map
          fun p => ((s.contextResize size).contexts p).events.count).sum + 0 := by
        rw [← hnew, ← List.sum_append, ← List.map_append]
        rfl
    _ = ((s.fdContexts.take size).map fun p => (s.contexts p).events.count).sum +
          ((s.fdContexts.drop size).map fun p => (s.contexts p).events.count).sum := by
        rw [List.map_congr_left hold, hdrop]
    _ = s.total := by
        rw [← List.sum_append, ← List.map_append, List.take_append_drop]
        rfl

theorem contextResize_core {s : IOManager} (hs : s.Core) {size : ℕ}
    (h : ∀ p ∈ s.fdContexts.drop size, (s.contexts p).events = .none) :
    (s.contextResize size).Core := by
  refine ⟨hs.running, contextResize_sane hs.sane size, hs.history.contextResize size,
    contextResize_indexed hs.indexed size, ?_, ?_⟩
  · intro p hp
    have hset : ∃ e, ((s.contextResize size).contexts p).events.has e = true := by
      by_contra hnot
      apply hp
      apply Events.eq_none_iff.mpr
      intro e
      exact Bool.eq_false_iff.mpr fun he => hnot ⟨e, he⟩
    obtain ⟨e, he⟩ := hset
    have hold : s.Waits p e _ := Waits.of_contextResize ⟨he, rfl⟩
    have hfd := hs.mem_of_has hold.1
    obtain ⟨hlt, -⟩ := hs.indexed _ _ hfd
    rw [contextResize_context s hlt] at hp ⊢
    have hsize : (s.contexts p).fd < size := by
      by_contra hge
      exact hp (h p (mem_drop_of_getElem? hfd (Nat.le_of_not_lt hge)))
    rw [contextResize_old s hsize (List.getElem?_eq_some_iff.mp hfd).1]
    exact hfd
  · rw [total_contextResize hs h]
    exact hs.pending

theorem contextResize_synced {s : IOManager} (hs : s.Core) (hsync : s.Synced) {size : ℕ}
    (h : ∀ p ∈ s.fdContexts.drop size, (s.contexts p).events = .none) :
    (s.contextResize size).Synced := by
  intro fd
  change s.interest fd = _
  rw [hsync fd, wanted, wanted]
  rcases Nat.lt_or_ge fd size with hsize | hsize
  · rcases Nat.lt_or_ge fd s.fdContexts.length with hold | hnew
    · rw [contextResize_old s hsize hold]
      cases hp : s.fdContexts[fd]? with
      | none => rfl
      | some p =>
          dsimp only
          rw [contextResize_context s (hs.indexed fd p hp).1]
    · rw [contextResize_new s hsize hnew, List.getElem?_eq_none hnew]
      dsimp only
      rw [contextResize_fresh s hsize hnew]
      rfl
  · have hnone : (s.contextResize size).fdContexts[fd]? = none := by
      apply List.getElem?_eq_none
      rw [length_contextResize]
      exact hsize
    rw [hnone]
    cases hp : s.fdContexts[fd]? with
    | none => rfl
    | some p =>
        dsimp only
        rw [h p (mem_drop_of_getElem? hp hsize)]
        rfl

end IOManager

/-! ## Runs -/

/-- How the calls are to be used: an event is added only if it is not registered,
and what `epoll_wait` reported is still registered. -/
def Phase.Orderly (io : IOManager) : Phase → Prop
  | .located (.addEvent _ event _) p => (io.contexts p).events.has event = false
  | .reported ((p, r) :: _) =>
      ∀ e, r.real.has e = true → (io.contexts p).events.has e = true
  | _ => True

instance (io : IOManager) : DecidablePred (Phase.Orderly io)
  | .located (.addEvent _ event _) p =>
      inferInstanceAs (Decidable ((io.contexts p).events.has event = false))
  | .reported ((p, r) :: _) => inferInstanceAs
      (Decidable (∀ e, r.real.has e = true → (io.contexts p).events.has e = true))
  | .ready | .resize _ _ _ | .located (.delEvent _ _) _ | .located (.cancelEvent _ _) _
  | .located (.cancelAll _) _ | .reported [] => inferInstanceAs (Decidable True)

namespace System

def Orderly (s : System) : Label → Prop
  | .lock t _ => (s.threads t).Orderly s.io
  | _ => True

instance (s : System) : DecidablePred (Orderly s)
  | .lock t _ => inferInstanceAs (Decidable ((s.threads t).Orderly s.io))
  | .call _ _ | .resize _ | .wait _ _ => inferInstanceAs (Decidable True)

/-- A resize takes no context out of the vector that has a waiter or is about
to get one. -/
def Keeping (s : System) : Label → Prop
  | .resize t => ∀ fd event who, s.threads t = .resize fd event who →
      ∀ p ∈ s.io.fdContexts.drop (3 * fd / 2), (s.io.contexts p).events = .none ∧
        ∀ u fd' event' who', s.threads u ≠ .located (.addEvent fd' event' who') p
  | _ => True

theorem Growing.keeping {s : System} {l : Label} (h : Growing s l) : Keeping s l := by
  cases l with
  | resize t =>
      intro fd event who hphase p hp
      rw [List.drop_eq_nil_of_le (h.le hphase)] at hp
      cases hp
  | call | lock | wait => trivial

structure Inv (s : System) : Prop where
  core : s.io.Core
  synced : s.io.Synced
  length : 32 ≤ s.io.fdContexts.length
  resizing : ∀ {t fd event who}, s.threads t = .resize fd event who → 32 ≤ fd
  adding : ∀ {t fd event who p}, s.threads t = .located (.addEvent fd event who) p →
    s.io.fdContexts[fd]? = some p
  located : ∀ {t c p}, s.threads t = .located c p →
    p < s.io.next ∧ (s.io.contexts p).fd = c.fd

theorem eq_or_of_goto {s : System} {io : IOManager} {t u : ℕ} {phase phase' : Phase}
    (h : (s.goto io t phase).threads u = phase') :
    phase = phase' ∨ s.threads u = phase' := by
  by_cases hu : u = t
  · rw [hu, threads_goto_self] at h
    exact Or.inl h
  · rw [threads_goto_of_ne s io phase hu] at h
    exact Or.inr h

/-- A thread moves on, and at most one context changes. -/
theorem Inv.goto {s : System} (hs : s.Inv) {io : IOManager} {t p : ℕ} {phase : Phase}
    (hframe : IOManager.Frame s.io io p) (hcore : io.Core) (hsync : io.Synced)
    (hresize : ∀ {fd event who}, phase = .resize fd event who → 32 ≤ fd)
    (hlocated : ∀ {c q}, phase = .located c q → s.io.fdContexts[c.fd]? = some q) :
    (s.goto io t phase).Inv := by
  refine ⟨hcore, hsync, ?_, ?_, ?_, ?_⟩
  · change 32 ≤ io.fdContexts.length
    rw [hframe.fdContexts]
    exact hs.length
  · intro u fd event who hu
    rcases eq_or_of_goto hu with hu | hu
    · exact hresize hu
    · exact hs.resizing hu
  · intro u fd event who q hu
    change io.fdContexts[fd]? = some q
    rw [hframe.fdContexts]
    rcases eq_or_of_goto hu with hu | hu
    · exact hlocated hu
    · exact hs.adding hu
  · intro u c q hu
    change q < io.next ∧ (io.contexts q).fd = c.fd
    rw [hframe.next, hframe.fd_eq]
    rcases eq_or_of_goto hu with hu | hu
    · exact hs.core.indexed _ _ (hlocated hu)
    · exact hs.located hu

theorem Inv.resize {s : System} (hs : s.Inv) {t fd p : ℕ} {event : Event} {who : Caller}
    (hphase : s.threads t = .resize fd event who) (hok : Keeping s (.resize t))
    (hp : (s.io.contextResize (3 * fd / 2)).fdContexts[fd]? = some p) :
    (s.goto (s.io.contextResize (3 * fd / 2)) t
      (.located (.addEvent fd event who) p)).Inv := by
  have hkeep := hok fd event who hphase
  have hfd := hs.resizing hphase
  have hnone := fun q hq => (hkeep q hq).1
  have hindexed := IOManager.contextResize_indexed hs.core.indexed (3 * fd / 2)
  refine ⟨IOManager.contextResize_core hs.core hnone,
    IOManager.contextResize_synced hs.core hs.synced hnone, ?_, ?_, ?_, ?_⟩
  · change 32 ≤ (s.io.contextResize (3 * fd / 2)).fdContexts.length
    rw [IOManager.length_contextResize]
    omega
  · intro u fd' event' who' hu
    rcases eq_or_of_goto hu with hu | hu
    · cases hu
    · exact hs.resizing hu
  · intro u fd' event' who' q hu
    rcases eq_or_of_goto hu with hu | hu
    · cases hu
      exact hp
    · -- The context of another `addEvent` stays in the vector.
      have hq := hs.adding hu
      have hsize : fd' < 3 * fd / 2 := by
        by_contra hge
        exact (hkeep q (IOManager.mem_drop_of_getElem? hq (Nat.le_of_not_lt hge))).2
          u fd' event' who' hu
      change (s.io.contextResize (3 * fd / 2)).fdContexts[fd']? = some q
      rw [IOManager.contextResize_old s.io hsize (List.getElem?_eq_some_iff.mp hq).1]
      exact hq
  · intro u c q hu
    rcases eq_or_of_goto hu with hu | hu
    · cases hu
      exact hindexed _ _ hp
    · obtain ⟨hlt, hq⟩ := hs.located hu
      refine ⟨Nat.lt_of_lt_of_le hlt (Nat.le_add_right _ _), ?_⟩
      change ((s.io.contextResize (3 * fd / 2)).contexts q).fd = c.fd
      rw [IOManager.contextResize_context s.io hlt]
      exact hq

/-- A call other than `addEvent` does nothing to a context without a waiter. -/
theorem locked_of_none {io : IOManager} {c : Call} {p : ℕ} {ok : Bool}
    (hc : ∀ fd event who, c ≠ .addEvent fd event who)
    (h : (io.contexts p).events = .none) : c.locked io p ok = io := by
  cases c with
  | addEvent fd event who => exact absurd rfl (hc fd event who)
  | delEvent fd event => simp [Call.locked, IOManager.delEvent, h]
  | cancelEvent fd event => simp [Call.locked, IOManager.cancelEvent, h]
  | cancelAll fd => simp [Call.locked, IOManager.cancelAll, h]

theorem Inv.locked {s : System} (hs : s.Inv) {t p : ℕ} {c : Call} {ok : Bool}
    (hphase : s.threads t = .located c p) (hok : Orderly s (.lock t ok)) :
    (c.locked s.io p ok).Core ∧ (c.locked s.io p ok).Synced := by
  simp only [Orderly, hphase] at hok
  by_cases hadd : ∃ fd event who, c = .addEvent fd event who
  · obtain ⟨fd, event, who, rfl⟩ := hadd
    exact IOManager.addEvent_inv hs.core hs.synced (hs.adding hphase) hok who ok
  · have hadd' : ∀ fd event who, c ≠ .addEvent fd event who :=
      fun fd event who h => hadd ⟨fd, event, who, h⟩
    by_cases hnone : (s.io.contexts p).events = .none
    · rw [locked_of_none hadd' hnone]
      exact ⟨hs.core, hs.synced⟩
    · have hp := hs.core.waiting p hnone
      rw [(hs.located hphase).2] at hp
      cases c with
      | addEvent fd event who => exact absurd rfl (hadd' fd event who)
      | delEvent fd event => exact IOManager.delEvent_inv hs.core hs.synced hp event ok
      | cancelEvent fd event =>
          exact IOManager.cancelEvent_inv hs.core hs.synced hp event ok
      | cancelAll fd => exact IOManager.cancelAll_inv hs.core hs.synced hp ok

theorem took_inv {s s' : System} {l : Label} (hs : s.Inv)
    (hok : Orderly s l ∧ Keeping s l) (h : Took s l s') : s'.Inv := by
  cases h with
  | found h hp =>
      apply hs.goto (p := 0) (.same rfl rfl rfl) hs.core hs.synced
      · rintro fd event who ⟨⟩
      · rintro c p ⟨⟩
        exact hp
  | @tooShort t fd event who h hfd =>
      apply hs.goto (p := 0) (.same rfl rfl rfl) hs.core hs.synced
      · rintro fd event who ⟨⟩
        exact Nat.le_trans hs.length (List.getElem?_eq_none_iff.mp hfd)
      · rintro c p ⟨⟩
  | returned => exact hs
  | drained | waited =>
      apply hs.goto (p := 0) (.same rfl rfl rfl) hs.core hs.synced
      · rintro fd event who ⟨⟩
      · rintro c p ⟨⟩
  | resized h hp => exact hs.resize h hok.2 hp
  | @outOfRange t fd event who h hp =>
      -- 3/2 of an fd is beyond the fd, as it is at least 32.
      have hfd := hs.resizing h
      have hlen := List.getElem?_eq_none_iff.mp hp
      rw [IOManager.length_contextResize] at hlen
      omega
  | locked h =>
      obtain ⟨hcore, hsync⟩ := hs.locked h hok.1
      apply hs.goto (IOManager.locked_frame _ _ _ _) hcore hsync
      · rintro fd event who ⟨⟩
      · rintro c p ⟨⟩
  | @dispatched t p ok r events h =>
      have hsub := hok.1
      simp only [Orderly, h] at hsub
      obtain ⟨hcore, hsync⟩ := IOManager.dispatch_inv hs.core hs.synced hsub ok
      apply hs.goto (IOManager.dispatch_frame _ _ _ _) hcore hsync
      · rintro fd event who ⟨⟩
      · rintro c p ⟨⟩

theorem start_inv : machine.start.Inv := by
  have hcore : IOManager.Core
      { contexts := fun _ => .new 0, next := 0, fdContexts := []
        pendingEventCount := 0, interest := fun _ => .none, queue := []
        added := [], deleted := [], aborted := false } := by
    refine ⟨rfl, fun _ => FdContext.new_ok 0, IOManager.History.initial, ?_, ?_, rfl⟩
    · intro fd p hp
      cases hp
    · intro p hp
      exact absurd rfl hp
  have hsync : IOManager.Synced
      { contexts := fun _ => .new 0, next := 0, fdContexts := []
        pendingEventCount := 0, interest := fun _ => .none, queue := []
        added := [], deleted := [], aborted := false } := fun fd => rfl
  have hnone : ∀ p ∈ ([] : List ℕ).drop 32, (FdContext.new 0).events = .none :=
    fun _ _ => rfl
  refine ⟨IOManager.contextResize_core hcore hnone,
    IOManager.contextResize_synced hcore hsync hnone, ?_, ?_, ?_, ?_⟩
  · exact Nat.le_of_eq (IOManager.length_contextResize _ 32).symm
  · rintro t fd event who ⟨⟩
  · rintro t fd event who p ⟨⟩
  · rintro t c p ⟨⟩

/-- The call fails, and so the state is as it was. -/
theorem lock_failed {s s' : System} {t : ℕ} (hok : Orderly s (.lock t false))
    (h : machine.step s (.lock t false) = some s') : s'.io = s.io := by
  cases (took_of_step h).2 with
  | drained => rfl
  | dispatched =>
      change s.io.dispatch _ _ false = s.io
      simp [IOManager.dispatch, epollCtl]
  | @locked _ p _ c hphase =>
      simp only [Orderly, hphase] at hok
      change c.locked s.io p false = s.io
      cases c with
      | addEvent fd event who =>
          change (s.io.contexts p).events.has event = false at hok
          simp [Call.locked, IOManager.addEvent, epollCtl, hok]
      | delEvent fd event => simp [Call.locked, IOManager.delEvent, epollCtl]
      | cancelEvent fd event => simp [Call.locked, IOManager.cancelEvent, epollCtl]
      | cancelAll fd => simp [Call.locked, IOManager.cancelAll, epollCtl]

/-- **The invariant.** In every run in which no resize takes a context out of the
vector that is in use, all the pieces of the state agree at all times, and a call
whose `epoll_ctl` fails changes nothing. -/
theorem reachable_consistent {s : System}
    (h : machine.Reachable (fun s l => Orderly s l ∧ Keeping s l) s) :
    s.io.Consistent ∧
      ∀ t s', Orderly s (.lock t false) → machine.step s (.lock t false) = some s' →
        s'.io = s.io := by
  have hinv : s.Inv := by
    apply h.invariant start_inv
    intro s t l hs hok hstep
    exact took_inv hs hok (took_of_step hstep).2
  exact ⟨hinv.core.consistent hinv.synced, fun t s' hok hstep => lock_failed hok hstep⟩

/-- A fiber waits for `READ` of fd 64, is woken up by `cancelEvent`, and waits
again. -/
theorem reachable_consistent_waiting :
    ∃ s, machine.Reachable (fun s l => Orderly s l ∧ Keeping s l) s ∧
      s.io.pendingEventCount = 1 ∧ s.io.queue = [⟨0, some 7, none, 0⟩] ∧
      s.io.Consistent := by
  obtain ⟨s, h, hpending, hqueue⟩ :
      ∃ s, machine.Reachable (fun s l => Orderly s l ∧ Keeping s l) s ∧
        s.io.pendingEventCount = 1 ∧ s.io.queue = [⟨0, some 7, none, 0⟩] := by
    obtain ⟨s, h, hs⟩ : ∃ s, machine.Reachable (fun s l => Orderly s l ∧ Growing s l) s ∧
        s.io.pendingEventCount = 1 ∧ s.io.queue = [⟨0, some 7, none, 0⟩] :=
      Lib.Machine.exists_of_exec
      [.call 0 (.addEvent 64 .READ ⟨0, 7, none⟩), .resize 0, .lock 0 true,
        .call 1 (.cancelEvent 64 .READ), .lock 1 true,
        .call 0 (.addEvent 64 .READ ⟨0, 7, none⟩), .lock 0 true] (by decide)
    exact ⟨s, h.mono fun _ _ hok => ⟨hok.1, hok.2.keeping⟩, hs⟩
  exact ⟨s, h, hpending, hqueue, (reachable_consistent h).1⟩

/-- Two calls of `addEvent`, on fds 64 and 33, find the vector too short. The one
on fd 33 takes the context of fd 64 out again, which has a waiter by now. -/
theorem resize_loses_waiter :
    ∃ s, machine.Reachable Orderly s ∧ s.io.pendingEventCount = 1 ∧ s.io.total = 0 ∧
      s.io.interest 64 = some ⟨⟨true, false⟩, 64⟩ ∧ s.io.wanted 64 = none ∧
      ¬s.io.Consistent := by
  obtain ⟨s, h, hpending, htotal, hinterest, hwanted⟩ :
      ∃ s, machine.Reachable Orderly s ∧ s.io.pendingEventCount = 1 ∧ s.io.total = 0 ∧
        s.io.interest 64 = some ⟨⟨true, false⟩, 64⟩ ∧ s.io.wanted 64 = none :=
    Lib.Machine.exists_of_exec
      [.call 0 (.addEvent 64 .READ ⟨0, 7, none⟩),
        .call 1 (.addEvent 33 .READ ⟨0, 8, none⟩), .resize 0, .lock 0 true, .resize 1]
      (by decide)
  refine ⟨s, h, hpending, htotal, hinterest, hwanted, ?_⟩
  intro hs
  have := hs.pending
  rw [hpending, htotal] at this
  cases this

end System

end Skt
