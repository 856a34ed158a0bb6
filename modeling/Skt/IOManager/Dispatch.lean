import Skt.IOManager.Context

/-!
# The dispatch of `idle`

`idle` compares the events that `epoll_wait` reports with those registered in
`fd_ctx->events` once, to see whether they have an event in common. Then it goes
by the report: an event that is reported but not registered is triggered too,
and `triggerEvent` asserts that it is registered.
-/

namespace Skt

/-- What goes into the queue for the events of a mask. -/
def FdContext.tasks (ctx : FdContext) (m : Events) : List Task :=
  (if m.read then [ctx.task .READ] else []) ++
    (if m.write then [ctx.task .WRITE] else [])

namespace IOManager

/-- From `s` to `s'` exactly the events that are both registered and reported
have been triggered, and the pending count has gone down by their number. -/
structure Dispatched (s s' : IOManager) (p : ℕ) (r : Report) : Prop where
  running : s'.aborted = false
  queue_eq : s'.queue =
    s.queue ++ (s.contexts p).tasks ((s.contexts p).events.inter r.real)
  pending_eq : s'.pendingEventCount =
    s.pendingEventCount - ((s.contexts p).events.inter r.real).count
  events_eq : (s'.contexts p).events = (s.contexts p).events.diff r.real

theorem fire_aborted {s : IOManager} {p : ℕ} {e : Event}
    (h : s.aborted = true ∨ (s.contexts p).events.has e = false) :
    (s.fire p e).aborted = true := by
  cases hrun : s.aborted with
  | true =>
      rw [fire_of_aborted hrun]
      exact hrun
  | false =>
      rcases h with h | h
      · rw [hrun] at h
        cases h
      · rw [fire_of_not_has hrun h]

theorem fireIf_aborted {s : IOManager} {real : Events} {p : ℕ} {e : Event}
    (h : s.aborted = true) : (s.fireIf real p e).aborted = true := by
  unfold fireIf
  split
  · exact fire_aborted (Or.inl h)
  · exact h

/-- Triggering an event registers no other. -/
theorem has_of_fireIf {s : IOManager} (hs : s.Sane) {real : Events} {p : ℕ}
    {e e' : Event} (h : ((s.fireIf real p e).contexts p).events.has e' = true) :
    (s.contexts p).events.has e' = true := by
  unfold fireIf at h
  split at h
  · cases hrun : s.aborted with
    | true =>
        rw [fire_of_aborted hrun] at h
        exact h
    | false =>
        cases hset : (s.contexts p).events.has e with
        | true =>
            rw [fire_of_has hrun (hs p) hset] at h
            simp only [contexts_setCtx_self, FdContext.events_clear, Events.has_del,
              Bool.and_eq_true] at h
            exact h.2
        | false =>
            rw [fire_of_not_has hrun hset] at h
            exact h
  · exact h

/-- A dispatch that does not fail has found every event it was told of. -/
theorem subset_of_running {s : IOManager} (hs : s.Sane) {real : Events} {p : ℕ}
    (h : ((s.fireIf real p .READ).fireIf real p .WRITE).aborted = false) (e : Event)
    (he : real.has e = true) : (s.contexts p).events.has e = true := by
  cases e with
  | READ =>
      by_contra hn
      have habort : (s.fireIf real p .READ).aborted = true := by
        unfold fireIf
        rw [if_pos he]
        exact fire_aborted (Or.inr (by simpa using hn))
      rw [fireIf_aborted habort] at h
      cases h
  | WRITE =>
      by_contra hn
      have hset : ((s.fireIf real p .READ).contexts p).events.has .WRITE = false := by
        rw [Bool.eq_false_iff]
        exact fun hset => hn (has_of_fireIf hs hset)
      have habort : ((s.fireIf real p .READ).fireIf real p .WRITE).aborted = true := by
        conv_lhs => rw [fireIf, if_pos he]
        exact fire_aborted (Or.inr hset)
      rw [habort] at h
      cases h

theorem inter_eq_of_subset {m real : Events}
    (h : ∀ e, real.has e = true → m.has e = true) : m.inter real = real := by
  apply Events.ext_has
  intro e
  rw [Events.has_inter]
  cases hr : real.has e with
  | true => rw [h e hr, Bool.and_self]
  | false => rw [Bool.and_false]

theorem fireIf_of_has {s : IOManager} {real : Events} {p : ℕ} {e : Event}
    (h : real.has e = true) : s.fireIf real p e = s.fire p e :=
  if_pos h

theorem fireIf_of_not_has {s : IOManager} {real : Events} {p : ℕ} {e : Event}
    (h : real.has e = false) : s.fireIf real p e = s :=
  if_neg (by rw [h]; exact Bool.false_ne_true)

/-- Triggering events that are all registered. -/
theorem fireIf_both {s : IOManager} (hs : s.Sane) (hrun : s.aborted = false)
    {real : Events} {p : ℕ}
    (h : ∀ e, real.has e = true → (s.contexts p).events.has e = true) :
    let s' := (s.fireIf real p .READ).fireIf real p .WRITE
    s'.aborted = false ∧ s'.queue = s.queue ++ (s.contexts p).tasks real ∧
      s'.pendingEventCount = s.pendingEventCount - real.count ∧
      (s'.contexts p).events = (s.contexts p).events.diff real := by
  obtain ⟨r, w⟩ := real
  have hne : Event.WRITE ≠ Event.READ := by decide
  -- First `READ`, if it is reported.
  have hread : ∃ s₁, s.fireIf ⟨r, w⟩ p .READ = s₁ ∧ s₁.Sane ∧ s₁.aborted = false ∧
      s₁.queue = s.queue ++ (if r then [(s.contexts p).task .READ] else []) ∧
      s₁.pendingEventCount = s.pendingEventCount - r.toNat ∧
      (s₁.contexts p).events = (s.contexts p).events.diff ⟨r, false⟩ ∧
      (s₁.contexts p).task .WRITE = (s.contexts p).task .WRITE := by
    refine ⟨_, rfl, fireIf_sane hs _ p .READ, ?_⟩
    cases r with
    | true =>
        rw [fireIf_of_has rfl, fire_of_has hrun (hs p) (h .READ rfl)]
        refine ⟨hrun, rfl, rfl, ?_, ?_⟩
        · simp only [contexts_setCtx_self, FdContext.events_clear]
          simp [Events.del, Events.diff]
        · simp only [contexts_setCtx_self]
          exact FdContext.task_clear_of_ne _ hne
    | false =>
        rw [fireIf_of_not_has rfl]
        simp [hrun, Events.diff]
  obtain ⟨s₁, heq, hs₁, hrun₁, hqueue₁, hpending₁, hevents₁, htask₁⟩ := hread
  dsimp only
  rw [heq]
  cases w with
  | true =>
      have hset : (s₁.contexts p).events.has .WRITE = true := by
        rw [hevents₁, Events.has_diff, h .WRITE rfl]
        rfl
      rw [fireIf_of_has rfl, fire_of_has hrun₁ (hs₁ p) hset]
      refine ⟨hrun₁, ?_, ?_, ?_⟩
      · simp only [hqueue₁, htask₁, FdContext.tasks, List.append_assoc, if_true]
      · simp only [hpending₁, Events.count, Bool.toNat_true]
        push_cast
        ring
      · simp only [contexts_setCtx_self, FdContext.events_clear, hevents₁]
        simp [Events.del, Events.diff]
  | false =>
      rw [fireIf_of_not_has rfl]
      refine ⟨hrun₁, ?_, ?_, hevents₁⟩
      · simp [hqueue₁, FdContext.tasks]
      · simp [hpending₁, Events.count]

theorem isSome_epollCtl_leftOp (left : Events) (i : Interest) {ok : Bool} {fd : ℕ}
    {interest : ℕ → Option Interest} :
    (epollCtl ok (leftOp left) fd i interest).isSome ↔
      ok = true ∧ (interest fd).isSome := by
  have hop : leftOp left = .DEL ∨ leftOp left = .MOD := by
    unfold leftOp
    split
    · exact Or.inl rfl
    · exact Or.inr rfl
  cases ok with
  | false => simp [epollCtl]
  | true =>
      rcases hop with hop | hop <;> rw [hop] <;>
        cases hi : interest fd <;> simp [epollCtl, hi]

theorem dispatch_iff {s : IOManager} (hs : s.Sane) (hrun : s.aborted = false)
    (p : ℕ) (r : Report) (ok : Bool) :
    Dispatched s (s.dispatch p r ok) p r ↔
      (s.contexts p).events.inter r.real = .none ∨
        (∀ e, r.real.has e = true → (s.contexts p).events.has e = true) ∧
          ok = true ∧ (s.interest (s.contexts p).fd).isSome := by
  by_cases hhit : (s.contexts p).events.inter r.real = .none
  · have hsame : s.dispatch p r ok = s := by
      simp only [dispatch, if_pos hhit]
    refine iff_of_true ?_ (Or.inl hhit)
    rw [hsame]
    refine ⟨hrun, ?_, ?_, ?_⟩
    · rw [hhit]
      simp [FdContext.tasks, Events.none]
    · rw [hhit]
      simp [Events.count, Events.none]
    · apply Events.ext_has
      intro e
      have hmiss := Events.eq_none_iff.mp hhit e
      rw [Events.has_inter] at hmiss
      rw [Events.has_diff]
      cases hm : (s.contexts p).events.has e with
      | true =>
          rw [hm, Bool.true_and] at hmiss
          rw [hmiss]
          rfl
      | false => rfl
  · rw [or_iff_right hhit]
    rw [← isSome_epollCtl_leftOp ((s.contexts p).events.diff r.real)
      ⟨(s.contexts p).events.diff r.real, p⟩]
    cases hctl : epollCtl ok (leftOp ((s.contexts p).events.diff r.real))
        (s.contexts p).fd ⟨(s.contexts p).events.diff r.real, p⟩ s.interest with
    | none =>
        have hsame : s.dispatch p r ok = s := by
          simp only [dispatch, if_neg hhit, hctl]
        rw [hsame]
        refine ⟨fun h => absurd ?_ hhit, fun h => absurd h.2 Bool.false_ne_true⟩
        -- The count is as before, so nothing was to be triggered.
        have := h.pending_eq
        rw [← Events.count_eq_zero_iff]
        omega
    | some interest =>
        have heq : s.dispatch p r ok =
            ({ s with interest }.fireIf r.real p .READ).fireIf r.real p .WRITE := by
          simp only [dispatch, if_neg hhit, hctl]
        rw [heq]
        constructor
        · intro h
          exact ⟨subset_of_running (interest_sane hs interest) h.running, rfl⟩
        · rintro ⟨hsub, -⟩
          obtain ⟨h₁, h₂, h₃, h₄⟩ := fireIf_both (interest_sane hs interest) hrun hsub
          have hinter := inter_eq_of_subset hsub
          refine ⟨h₁, ?_, ?_, h₄⟩
          · rw [hinter]
            exact h₂
          · rw [hinter]
            exact h₃

end IOManager

namespace System

/-- **Dispatch.** In every reachable state, for every context and every report,
the dispatch triggers exactly what is registered and reported if and only if
nothing is, or all that is reported is registered and `epoll_ctl` succeeds. -/
theorem dispatch_exact_iff {s : System} (h : machine.Reachable (fun _ _ => True) s)
    (hrun : s.io.aborted = false) (p : ℕ) (r : IOManager.Report) (ok : Bool) :
    IOManager.Dispatched s.io (s.io.dispatch p r ok) p r ↔
      (s.io.contexts p).events.inter r.real = .none ∨
        (∀ e, r.real.has e = true → (s.io.contexts p).events.has e = true) ∧
          ok = true ∧ (s.io.interest (s.io.contexts p).fd).isSome :=
  IOManager.dispatch_iff (reachable_sane h) hrun p r ok

/-- A fiber registers `READ` of fd 5. -/
def registerRead : List Label :=
  [.call 0 (.addEvent 5 .READ ⟨0, 7, none⟩), .lock 0 true]

/-- The fd is readable, and the fiber is woken up. -/
theorem dispatch_exact_readable :
    ∃ s, machine.Reachable (fun _ _ => True) s ∧
      IOManager.Dispatched s.io (s.io.dispatch 5 ⟨true, false, false, false⟩ true) 5
        ⟨true, false, false, false⟩ := by
  obtain ⟨s, h, hrun, hfd, hevents, hinterest⟩ :
      ∃ s, machine.Reachable (fun _ _ => True) s ∧ s.io.aborted = false ∧
        (s.io.contexts 5).fd = 5 ∧ (s.io.contexts 5).events = ⟨true, false⟩ ∧
        (s.io.interest 5).isSome :=
    Lib.Machine.exists_of_exec registerRead (by decide)
  refine ⟨s, h, (dispatch_exact_iff h hrun 5 _ true).mpr (Or.inr ⟨?_, rfl, ?_⟩)⟩
  · intro e he
    cases e with
    | READ => rw [hevents]; rfl
    | WRITE => cases he
  · rw [hfd]
    exact hinterest

/-- The peer hangs up while the fiber waits for `READ`: the dispatch triggers
`WRITE` too, and the assertion of `triggerEvent` ends the process. -/
theorem dispatch_hang_up :
    ∃ s, machine.Reachable (fun _ _ => True) s ∧ s.io.aborted = false ∧
      (s.io.contexts 5).events = ⟨true, false⟩ ∧
      (s.io.dispatch 5 ⟨false, false, false, true⟩ true).aborted = true ∧
      ¬IOManager.Dispatched s.io (s.io.dispatch 5 ⟨false, false, false, true⟩ true) 5
        ⟨false, false, false, true⟩ := by
  obtain ⟨s, h, hrun, hevents, habort⟩ :
      ∃ s, machine.Reachable (fun _ _ => True) s ∧ s.io.aborted = false ∧
        (s.io.contexts 5).events = ⟨true, false⟩ ∧
        (s.io.dispatch 5 ⟨false, false, false, true⟩ true).aborted = true :=
    Lib.Machine.exists_of_exec registerRead (by decide)
  refine ⟨s, h, hrun, hevents, habort, ?_⟩
  intro hd
  rw [hd.running] at habort
  cases habort

end System

end Skt
