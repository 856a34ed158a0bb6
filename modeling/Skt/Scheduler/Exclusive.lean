import Skt.Scheduler.Safety

/-!
# Runs of the scheduler

Every step keeps the invariant, if fibers are handed over as they should be.
-/

namespace Skt

namespace Scheduler

/-! ## How fibers are handed over -/

/-- Fiber `f` is suspended or on its way to be, and has not been handed over for
it: it was made by someone and has never run, or it is on hold, or it is running
and will call `YieldToHold`. -/
def Handable (s : Scheduler) (f : ℕ) : Prop :=
  s.request f = none ∧
    (s.state f = .HOLD ∨ s.state f = .EXEC ∨
      s.state f = .INIT ∧ ∀ w, (s.workers w).cbFiber ≠ some f)

/-- Every fiber of a list of jobs may be handed over, one after the other. -/
def HandsOnce : Scheduler → List (Option Job × Option ℕ) → Prop
  | _, [] => True
  | s, (fc, thread) :: jobs =>
      (∀ f, fc = some (.fiber f) → s.Handable f) ∧
        HandsOnce (s.scheduleNoLock fc thread).1 jobs

/-- A fiber is handed over at most once for each time it is suspended. One that
was handed over ahead of time does suspend, and not by `YieldToReady`, for which
the worker hands it over. -/
def Once (s : Scheduler) : Label → Prop
  | .schedule _ jobs => HandsOnce s jobs
  | .yield w y => y ≠ .hold → ∀ f k, (s.workers w).phase = .exec f k → s.request f = none
  | _ => True

namespace Inv

variable {s s' : Scheduler} {loc : ℕ → Loc}

theorem push (h : Inv s loc) {job : Job} {thread : Option ℕ}
    (honce : ∀ f, job = .fiber f → s.Handable f ∧ f < s.created) :
    Inv (s.push job thread) loc := by
  have hqueued : ∀ g k, s.Queued g k → (s.push job thread).Queued g k := by
    rintro g k ⟨ft, hft, hjob⟩
    exact ⟨ft, List.mem_append_left _ hft, hjob⟩
  cases job with
  | cb c =>
      refine h.env 0 rfl (fun _ _ => rfl) (fun _ _ => rfl) hqueued rfl ?_ ?_ ?_
        (h.tickets.push (.cb c) thread) h.fresh h.running
      · exact fun w hw => ((h.worker w).runs 0 hw).2
      · exact (h.fiber 0).congr rfl rfl (hqueued 0) fun _ _ => ⟨rfl, rfl, rfl⟩
      · intro ft hft g hg
        rcases List.mem_append.mp hft with hft | hft
        · exact h.queue ft hft g hg
        · obtain rfl := List.mem_singleton.mp hft
          cases hg
  | fiber f =>
      obtain ⟨⟨hnone, hst⟩, hlt⟩ := honce f rfl
      have hrequest : (s.push (.fiber f) thread).request f = some s.tickets :=
        Function.update_self _ _ _
      have hnew : (s.push (.fiber f) thread).Queued f s.tickets :=
        ⟨⟨.fiber f, thread, s.tickets⟩,
          List.mem_append_right _ (List.mem_singleton.mpr rfl), rfl, rfl⟩
      refine h.env f rfl (fun _ _ => rfl) ?_ hqueued rfl ?_ ?_ ?_
        (h.tickets.push (.fiber f) thread) ?_ h.running
      · exact fun g hg => Function.update_of_ne hg _ _
      · -- A fiber that runs is in state `EXEC`, or its worker hands it over.
        intro w hw
        obtain ⟨-, hstage⟩ := (h.worker w).runs f hw
        apply hstage.handed hw
        rcases hstage.cases hw with hexec | ⟨hst' | hst' | hst', -⟩
        · exact hexec
        all_goals
          rw [hst'] at hst
          rcases hst with hst | hst | ⟨hst, -⟩ <;> cases hst
      · have hfiber := h.fiber f
        cases hloc : loc f with
        | free =>
            rw [hloc] at hfiber
            refine ⟨hfiber.1, ?_⟩
            intro k hk
            rw [hrequest] at hk
            cases hk
            refine ⟨?_, hnew⟩
            rcases hst with hst | hst | ⟨hst, -⟩
            · exact Or.inr (Or.inl hst)
            · exact absurd hst hfiber.1
            · exact Or.inl hst
        | carried w k =>
            rw [hloc] at hfiber
            rw [hfiber.1] at hnone
            cases hnone
        | spare w =>
            rw [hloc] at hfiber
            rw [hfiber.2.1] at hst
            rcases hst with hst | hst | ⟨-, hst⟩
            · cases hst
            · cases hst
            · exact absurd hfiber.2.2 (hst w)
        | running w =>
            rw [hloc] at hfiber
            refine ⟨hfiber.1, ?_⟩
            intro k hk
            rw [hrequest] at hk
            cases hk
            exact hnew
      · intro ft hft g hg
        rcases List.mem_append.mp hft with hft | hft
        · have hgf : g ≠ f := by
            intro hgf
            rw [← hgf, h.queue ft hft g hg] at hnone
            cases hnone
          rw [show (s.push (.fiber f) thread).request g = s.request g from
            Function.update_of_ne hgf _ _]
          exact h.queue ft hft g hg
        · obtain rfl := List.mem_singleton.mp hft
          cases hg
          exact hrequest
      · intro g hg
        obtain ⟨hfree, hnone'⟩ := h.fresh g hg
        have hgf : g ≠ f := by
          rintro rfl
          exact absurd hlt (Nat.not_lt.mpr hg)
        exact ⟨hfree, (Function.update_of_ne hgf _ _).trans hnone'⟩

theorem scheduleAll : ∀ {jobs : List (Option Job × Option ℕ)} {s : Scheduler},
    Inv s loc → HandsOnce s jobs → s.jobsExist jobs = true →
      Inv (s.scheduleAll jobs).1 loc
  | [], _, h, _, _ => h
  | (none, thread) :: jobs, s, h, honce, hexist => by
      have ih : Inv (s.scheduleAll jobs).1 loc := scheduleAll h honce.2 hexist
      exact ih
  | (some job, thread) :: jobs, s, h, honce, hexist => by
      have hboth := Bool.and_eq_true_iff.mp hexist
      have hpush : Inv (s.push job thread) loc := by
        apply h.push
        rintro f rfl
        exact ⟨honce.1 f rfl, of_decide_eq_true hboth.1⟩
      have ih : Inv ((s.push job thread).scheduleAll jobs).1 loc :=
        scheduleAll hpush honce.2 hboth.2
      exact ih

theorem tickle (h : Inv s loc) : Inv s.tickle loc := by
  unfold Scheduler.tickle
  split
  · exact h.same rfl rfl rfl rfl rfl rfl rfl h.running
  · exact h

theorem create (h : Inv s loc) :
    Inv { s.setState s.created .INIT with created := s.created + 1 } loc := by
  obtain ⟨hfree, hnone⟩ := h.fresh s.created le_rfl
  refine h.env s.created rfl ?_ (fun _ _ => rfl) (fun _ _ hq => hq) rfl ?_ ?_ h.queue
    (h.tickets.same rfl rfl rfl) ?_ h.running
  · exact fun g hg => Function.update_of_ne hg _ _
  · intro w hw
    rw [((h.worker w).runs _ hw).1] at hfree
    cases hfree
  · rw [hfree]
    refine ⟨?_, ?_⟩
    · simp only [setState, Function.update_self]
      exact FiberState.noConfusion
    · intro k hk
      rw [show ({ s.setState s.created .INIT with created := s.created + 1 } :
        Scheduler).request s.created = s.request s.created from rfl, hnone] at hk
      cases hk
  · exact fun g hg => h.fresh g (Nat.le_of_succ_le hg)

/-- The steps of a worker around the fibers it runs. -/
theorem work (h : Inv s loc) {w : ℕ} (hwork : s.work w = some s') :
    ∃ loc', Inv s' loc' := by
  unfold Scheduler.work at hwork
  split at hwork
  case h_1 hphase =>
    cases hwork
    exact h.dequeue hphase
  case h_2 ft hphase =>
    cases hwork
    refine ⟨loc, ?_⟩
    have hphase' : (s.tickle.workers w).phase = .tickle (some ft) := by
      rw [tickle_workers, hphase]
    refine h.tickle.advance rfl rfl rfl rfl rfl rfl rfl ?_ ?_ ?_ ?_ ?_
      (fun _ => h.tickle.idleFiber_ne hphase' rfl) h.tickle.running
    · rw [hphase']
      obtain ⟨job, thread, k⟩ := ft
      cases job <;> rfl
    · rw [hphase']
      rfl
    · rw [hphase']
      rfl
    · rw [hphase']
      rfl
    · rw [hphase']
      rintro f ⟨⟩
  case h_3 hphase =>
    cases hwork
    have hphase' : (s.tickle.workers w).phase = .tickle none := by
      rw [tickle_workers, hphase]
    exact ⟨loc, h.tickle.gotoIdle (by rw [hphase']; exact ⟨rfl, rfl, rfl⟩) ⟨rfl, rfl, rfl⟩
      rfl rfl rfl rfl rfl rfl rfl (fun _ => h.tickle.idleFiber_ne hphase' rfl)
      h.tickle.running⟩
  case h_4 ft hphase =>
    cases hwork
    exact h.prepare hphase
  case h_5 f k hphase =>
    cases hwork
    exact h.swapIn hphase
  case h_6 => cases hwork
  case h_7 f k hphase =>
    cases hwork
    refine ⟨loc, h.advance rfl rfl rfl rfl rfl rfl rfl ?_ ?_ ?_ ?_ ?_
      (fun _ => h.idleFiber_ne hphase rfl) h.running⟩
    · rw [hphase]
      rfl
    · rw [hphase]
      rfl
    · rw [hphase]
      rfl
    · rw [hphase]
      cases k <;> rfl
    · intro g hg
      have hstage := ((h.worker w).runs g hg).2
      rw [hphase] at hstage
      exact hstage
  case h_8 f k hphase =>
    cases hwork
    refine ⟨loc, h.advance rfl rfl rfl rfl rfl rfl rfl ?_ ?_ ?_ ?_ ?_
      (fun _ => h.idleFiber_ne hphase rfl) h.running⟩
    · rw [hphase]
      rfl
    · rw [hphase]
      rfl
    · rw [hphase]
      rfl
    · rw [hphase]
      cases k <;> rfl
    · intro g hg
      have hstage := ((h.worker w).runs g hg).2
      rw [hphase] at hstage
      exact hstage
  case h_9 f k hphase =>
    cases hwork
    exact h.look hphase
  case h_10 f k hphase =>
    cases hwork
    refine ⟨_, h.requeue hphase ?_⟩
    split
    · exact Or.inl rfl
    · exact Or.inr rfl
  case h_11 hphase =>
    cases hwork
    have hphase' : (s.tickle.workers w).phase = .retickle := by
      rw [tickle_workers, hphase]
    exact ⟨loc, h.tickle.gotoIdle (by rw [hphase']; exact ⟨rfl, rfl, rfl⟩) ⟨rfl, rfl, rfl⟩
      rfl rfl rfl rfl rfl rfl rfl (fun _ => h.tickle.idleFiber_ne hphase' rfl)
      h.tickle.running⟩
  case h_12 f k hphase =>
    cases hwork
    exact ⟨_, h.hold hphase⟩
  case h_13 f hphase =>
    cases hwork
    exact ⟨_, h.recycle hphase⟩
  case h_14 hphase =>
    cases hwork
    exact ⟨loc, h.gotoIdle (by rw [hphase]; exact ⟨rfl, rfl, rfl⟩) ⟨rfl, rfl, rfl⟩
      rfl rfl rfl rfl rfl rfl rfl (fun _ => h.idleFiber_ne hphase rfl) h.running⟩
  case h_15 hphase =>
    split at hwork
    · cases hwork
      exact ⟨loc, h.gotoIdle (by rw [hphase]; exact ⟨rfl, rfl, rfl⟩) ⟨rfl, rfl, rfl⟩
        rfl rfl rfl rfl rfl rfl rfl (fun _ => h.idleFiber_ne hphase rfl) h.running⟩
    · cases hwork
      exact ⟨loc, h.gotoIdle (by rw [hphase]; exact ⟨rfl, rfl, rfl⟩) ⟨rfl, rfl, rfl⟩
        rfl rfl rfl rfl rfl rfl rfl (fun _ => h.idleFiber_ne hphase rfl) h.running⟩
  case h_16 hphase =>
    rw [if_neg (h.idleFiber_ne hphase rfl)] at hwork
    cases hwork
    exact ⟨loc, h.gotoIdle (by rw [hphase]; exact ⟨rfl, rfl, rfl⟩) ⟨rfl, rfl, rfl⟩
      rfl rfl rfl rfl rfl rfl rfl (fun hp => Bool.noConfusion hp) h.running⟩
  case h_17 hphase =>
    cases hwork
    exact ⟨loc, h.gotoIdle (by rw [hphase]; exact ⟨rfl, rfl, rfl⟩) ⟨rfl, rfl, rfl⟩
      rfl rfl rfl rfl rfl rfl rfl (fun hp => Bool.noConfusion hp) h.running⟩
  case h_18 hphase =>
    cases hwork
    exact ⟨loc, h.gotoIdle (by rw [hphase]; exact ⟨rfl, rfl, rfl⟩) ⟨rfl, rfl, rfl⟩
      rfl rfl rfl rfl rfl rfl rfl (fun hp => Bool.noConfusion hp) h.running⟩
  case h_19 hphase =>
    cases hwork
    exact ⟨loc, h.gotoIdle (by rw [hphase]; exact ⟨rfl, rfl, rfl⟩) ⟨rfl, rfl, rfl⟩
      rfl rfl rfl rfl rfl rfl rfl (fun hp => Bool.noConfusion hp) h.running⟩
  case h_20 hphase =>
    cases hwork
    refine ⟨loc, h.gotoIdle (by rw [hphase]; exact ⟨rfl, rfl, rfl⟩) ⟨rfl, rfl, rfl⟩
      rfl rfl rfl rfl rfl rfl rfl ?_ h.running⟩
    intro _
    cases (s.workers w).idleFiber <;> exact FiberState.noConfusion
  case h_21 => cases hwork

theorem next (h : Inv s loc) {l : Label} (honce : Once s l)
    (hnext : s.next l = some s') : ∃ loc', Inv s' loc' := by
  cases l with
  | schedule c jobs =>
      simp only [Scheduler.next] at hnext
      split at hnext
      · cases hnext
      case isFalse hfree =>
        cases hnext
        have hexist : s.jobsExist jobs = true := by
          cases hj : s.jobsExist jobs with
          | true => rfl
          | false =>
              rw [hj] at hfree
              exact absurd (Bool.or_true _) hfree
        have hall := h.scheduleAll honce hexist
        exact ⟨loc, hall.same rfl rfl rfl rfl rfl rfl rfl hall.running⟩
  | tickle c =>
      simp only [Scheduler.next] at hnext
      split at hnext
      · cases hnext
        exact ⟨loc, h.tickle.same rfl rfl rfl rfl rfl rfl rfl h.tickle.running⟩
      · cases hnext
  | create =>
      cases hnext
      exact ⟨loc, h.create⟩
  | autoStop | stop =>
      cases hnext
      exact ⟨loc, h.same rfl rfl rfl rfl rfl rfl rfl h.running⟩
  | work w => exact h.work hnext
  | yield w y =>
      simp only [Scheduler.next] at hnext
      split at hnext
      case h_1 f k hphase =>
        cases hnext
        exact h.giveBack hphase fun hy => honce hy f k hphase
      · cases hnext
  | leave w =>
      simp only [Scheduler.next] at hnext
      split at hnext
      case isTrue hleave =>
        cases hnext
        exact ⟨loc, h.gotoIdle (by rw [hleave.1]; exact ⟨rfl, rfl, rfl⟩) ⟨rfl, rfl, rfl⟩
          rfl rfl rfl rfl rfl rfl rfl (fun hp => Bool.noConfusion hp) h.running⟩
      · cases hnext
  | drain w =>
      simp only [Scheduler.next] at hnext
      split at hnext
      case isTrue hwoken =>
        cases hnext
        exact ⟨loc, h.gotoIdle (by rw [hwoken]; exact ⟨rfl, rfl, rfl⟩) ⟨rfl, rfl, rfl⟩
          rfl rfl rfl rfl rfl rfl rfl (fun hp => Bool.noConfusion hp) h.running⟩
      · cases hnext

theorem start (n : ℕ) : Inv (Scheduler.start n) fun _ => .free := by
  have hempty : ∀ w, ((Scheduler.start n).workers w).phase.carries = none ∧
      ((Scheduler.start n).workers w).phase.starts = none ∧
      ((Scheduler.start n).workers w).phase.runs = none ∧
      ((Scheduler.start n).workers w).phase.runsOwn = none := by
    intro w
    simp only [Scheduler.start]
    split <;> exact ⟨rfl, rfl, rfl, rfl⟩
  refine ⟨?_, ?_, ?_, start_tickets n, fun _ _ => ⟨rfl, rfl⟩, rfl⟩
  · intro w
    obtain ⟨h₁, h₂, h₃, h₄⟩ := hempty w
    refine ⟨?_, ?_, ?_, ?_, ?_, ?_⟩
    · rw [h₁]
      rintro f k ⟨⟩
    · rw [h₂]
      rintro f ⟨⟩
    · rw [h₃]
      rintro f ⟨⟩
    · rw [h₄]
      rintro f ⟨⟩
    · rintro f ⟨⟩
    · exact fun _ => FiberState.noConfusion
  · intro f
    refine ⟨FiberState.noConfusion, ?_⟩
    rintro k ⟨⟩
  · rintro ft ⟨⟩

end Inv

theorem reachable_inv {n : ℕ} {s : Scheduler} (h : (machine n).Reachable Once s) :
    ∃ loc, Inv s loc := by
  apply h.invariant
  · exact ⟨_, Inv.start n⟩
  · rintro s s' l ⟨loc, hs⟩ honce hstep
    exact hs.next honce (next_of_step hstep)

/-! ## No request is lost -/

theorem tickle_request (s : Scheduler) : s.tickle.request = s.request := by
  unfold tickle
  split <;> rfl

theorem reset_request (s : Scheduler) (f : ℕ) : (s.reset f).request = s.request := by
  unfold reset
  split <;> rfl

theorem dequeue_request (s : Scheduler) (w : ℕ) : (s.dequeue w).request = s.request := by
  cases h : (scan s.state w s.fibers).taken with
  | none =>
      rw [dequeue_none h]
      rfl
  | some ft =>
      rw [dequeue_some h]
      rfl

theorem prepare_request (s : Scheduler) (w : ℕ) (ft : FiberAndThread) :
    (s.prepare w ft).request = s.request := by
  unfold prepare
  split
  · split <;> rfl
  · split
    · exact reset_request s _
    · rfl

theorem look_request (s : Scheduler) (w f : ℕ) (k : Option ℕ) :
    (s.look w f k).request = s.request := by
  unfold look
  split
  · rfl
  · split
    · cases k <;> rfl
    · rfl

theorem scheduleAll_request {f k : ℕ} : ∀ {jobs : List (Option Job × Option ℕ)}
    {s : Scheduler}, HandsOnce s jobs → s.request f = some k →
      (s.scheduleAll jobs).1.request f = some k
  | [], _, _, h => h
  | (none, thread) :: jobs, s, honce, h => by
      have ih : (s.scheduleAll jobs).1.request f = some k := scheduleAll_request honce.2 h
      exact ih
  | (some (.cb c), thread) :: jobs, s, honce, h => by
      have ih : ((s.push (.cb c) thread).scheduleAll jobs).1.request f = some k :=
        scheduleAll_request honce.2 h
      exact ih
  | (some (.fiber g), thread) :: jobs, s, honce, h => by
      have hfg : f ≠ g := by
        rintro rfl
        rw [(honce.1 f rfl).1] at h
        cases h
      have ih : ((s.push (.fiber g) thread).scheduleAll jobs).1.request f = some k :=
        scheduleAll_request honce.2 ((Function.update_of_ne hfg _ _).trans h)
      exact ih

/-- A request stands until the fiber runs. -/
theorem work_request {s s' : Scheduler} {loc : ℕ → Loc} (hs : Inv s loc) {w f k : ℕ}
    (hwork : s.work w = some s') (h : s.request f = some k) :
    s'.request f = some k ∨ ∃ w k', (s'.workers w).phase = .exec f k' := by
  unfold work at hwork
  split at hwork
  case h_1 =>
    cases hwork
    rw [dequeue_request]
    exact Or.inl h
  case h_2 | h_3 | h_11 =>
    cases hwork
    left
    rw [show ∀ p, (s.tickle.goto w p).request = s.tickle.request from fun _ => rfl,
      tickle_request]
    exact h
  case h_4 =>
    cases hwork
    rw [prepare_request]
    exact Or.inl h
  case h_5 g k' hphase =>
    cases hwork
    unfold swapIn
    split
    · exact Or.inl h
    · by_cases hfg : f = g
      · subst hfg
        refine Or.inr ⟨w, k', ?_⟩
        simp only [goto, setWorker, Function.update_self]
      · exact Or.inl ((Function.update_of_ne hfg _ _).trans h)
  case h_9 =>
    cases hwork
    rw [look_request]
    exact Or.inl h
  case h_10 g k' hphase =>
    -- The fiber that is put back has not been handed over.
    cases hwork
    have hstage := ((hs.worker w).runs g (by rw [hphase]; rfl)).2
    rw [hphase] at hstage
    have hfg : f ≠ g := by
      rintro rfl
      rw [hstage.2] at h
      cases h
    left
    cases k' <;> exact (Function.update_of_ne hfg _ _).trans h
  case h_12 g k' _ =>
    cases hwork
    cases k' <;> exact Or.inl h
  case h_13 g _ =>
    cases hwork
    left
    rw [show ((s.reset g).goto w .scan).request = (s.reset g).request from rfl,
      reset_request]
    exact h
  case h_15 | h_16 =>
    split at hwork <;> cases hwork <;> exact Or.inl h
  case h_7 | h_8 | h_14 | h_17 | h_18 | h_19 | h_20 =>
    cases hwork
    exact Or.inl h
  case h_6 | h_21 => cases hwork

theorem next_request {s s' : Scheduler} {loc : ℕ → Loc} (hs : Inv s loc) {l : Label}
    (honce : Once s l) (hnext : s.next l = some s') {f k : ℕ} (h : s.request f = some k) :
    s'.request f = some k ∨ ∃ w k', (s'.workers w).phase = .exec f k' := by
  cases l with
  | schedule c jobs =>
      simp only [next] at hnext
      split at hnext
      · cases hnext
      · cases hnext
        exact Or.inl (scheduleAll_request honce h)
  | tickle c =>
      simp only [next] at hnext
      split at hnext
      · cases hnext
        left
        rw [show ({ s.tickle with callers := Function.update s.callers c false } :
          Scheduler).request = s.tickle.request from rfl, tickle_request]
        exact h
      · cases hnext
  | create | autoStop | stop =>
      cases hnext
      exact Or.inl h
  | work w => exact work_request hs hnext h
  | yield w y =>
      simp only [next] at hnext
      split at hnext
      · cases hnext
        cases y <;> simp only [giveBack] <;> first | exact Or.inl h | skip
        all_goals split <;> exact Or.inl h
      · cases hnext
  | leave w | drain w =>
      simp only [next] at hnext
      split at hnext
      · cases hnext
        exact Or.inl h
      · cases hnext

/-! ## The theorem -/

/-- The fiber whose stack a worker is on. -/
def Phase.executes : Phase → Option ℕ
  | .exec f _ | .leaving f _ => some f
  | _ => none

/-- What workers never get wrong. -/
structure Safe (s : Scheduler) : Prop where
  /-- no assertion of `swapIn`, `reset` or `YieldTo…` has failed -/
  running : s.aborted = false
  exclusive : ∀ w w' f, (s.workers w).phase.executes = some f →
    (s.workers w').phase.executes = some f → w = w'
  /-- an entry is in the queue or has been taken, by one worker and not by one that
  it is barred to -/
  tickets : s.Tickets
  /-- a fiber that is to be resumed is in the queue, or taken by a worker -/
  kept : ∀ f k, s.request f = some k →
    s.Queued f k ∨ ∃ w, (s.workers w).phase.carries = some (f, k)

theorem Phase.runs_of_executes {p : Phase} {f : ℕ} (h : p.executes = some f) :
    p.runs = some f := by
  cases p <;> first | exact h | cases h

theorem Inv.safe {s : Scheduler} {loc : ℕ → Loc} (h : Inv s loc) : s.Safe := by
  refine ⟨h.running, ?_, h.tickets, ?_⟩
  · intro w w' f hw hw'
    have hloc := ((h.worker w).runs f (Phase.runs_of_executes hw)).1
    rw [((h.worker w').runs f (Phase.runs_of_executes hw')).1] at hloc
    cases hloc
    rfl
  · intro f k hk
    have hfiber := h.fiber f
    cases hloc : loc f with
    | free =>
        rw [hloc] at hfiber
        exact Or.inl (hfiber.2 k hk).2
    | carried w k' =>
        rw [hloc] at hfiber
        rw [hfiber.1] at hk
        cases hk
        exact Or.inr ⟨w, hfiber.2.2⟩
    | spare w =>
        rw [hloc] at hfiber
        rw [hfiber.1] at hk
        cases hk
    | running w =>
        rw [hloc] at hfiber
        exact Or.inl (hfiber.2 k hk)

/-- **Fibers run one at a time.** With any number of workers, in every run in which
a fiber is handed over at most once for each time it is suspended: no two workers
execute one fiber, no assertion fails, every entry is taken once and by a worker
that it is meant for, and a fiber handed over is in the queue or taken until it
runs. -/
theorem reachable_safe {n : ℕ} {s : Scheduler} (h : (machine n).Reachable Once s) :
    s.Safe ∧
      ∀ l s' f k, Once s l → (machine n).step s l = some s' → s.request f = some k →
        s'.request f = some k ∨ ∃ w k', (s'.workers w).phase = .exec f k' := by
  obtain ⟨loc, hs⟩ := reachable_inv h
  refine ⟨hs.safe, ?_⟩
  intro l s' f k honce hstep hk
  exact next_request hs honce (next_of_step hstep) hk

/-- Someone makes a fiber and hands it over. -/
def firstFiber : Scheduler :=
  { (({ (start 2).setState 0 .INIT with created := 1 } : Scheduler).push (.fiber 0) none)
    with callers := Function.update (fun _ => false) 0 true }

theorem firstFiber_reachable : (machine 2).Reachable Once firstFiber := by
  refine .tail (.schedule 0 [(some (.fiber 0), none)])
    (.tail .create (.refl _) trivial rfl) ⟨?_, trivial⟩ rfl
  rintro f ⟨⟩
  exact ⟨rfl, Or.inr (Or.inr ⟨rfl, fun w hw => Option.noConfusion rfl (heq_of_eq hw)⟩)⟩

/-- A fiber is handed over while it runs on worker 0, yields, and goes on on
worker 1. -/
theorem reachable_safe_moved :
    ∃ s, (machine 2).Reachable Once s ∧ (s.workers 1).phase = .exec 0 (some 1) ∧
      s.Safe := by
  obtain ⟨s, h, hphase⟩ : ∃ s, (machine 2).Runs (fun s l =>
      (l = .schedule 1 [(some (.fiber 0), none)] ∧ s.request 0 = none ∧ s.state 0 = .EXEC) ∨
        l ∈ [.yield 0 .hold, .tickle 0, .work 0, .work 1]) firstFiber s ∧
      (s.workers 1).phase = .exec 0 (some 1) :=
    Lib.Machine.exists_of_exec
      [.tickle 0, .work 0, .work 0, .work 0, .schedule 1 [(some (.fiber 0), none)],
        .yield 0 .hold, .work 0, .work 0, .work 0, .work 0, .work 1, .work 1, .work 1]
      (by decide)
  have honce : (machine 2).Runs Once firstFiber s := by
    refine h.mono fun s l hl => ?_
    rcases hl with ⟨rfl, hnone, hexec⟩ | hl
    · refine ⟨?_, trivial⟩
      rintro f ⟨⟩
      exact ⟨hnone, Or.inr (Or.inl hexec)⟩
    · simp only [List.mem_cons, List.not_mem_nil, or_false] at hl
      rcases hl with rfl | rfl | rfl | rfl
      · exact fun hy => absurd rfl hy
      · trivial
      · trivial
      · trivial
  have hreach : (machine 2).Reachable Once s := firstFiber_reachable.trans honce
  exact ⟨s, hreach, hphase, (reachable_safe hreach).1⟩

end Scheduler

end Skt
