import Skt.Scheduler.Counts

/-!
# The stop test

`stopping()` looks at the queue and at `m_activeThreadCount`. A worker counts down
before it puts a fiber that has yielded with `YieldToReady` back into the queue, and
in between the test takes no notice of that fiber.
-/

namespace Skt

namespace Scheduler

/-- Worker `w` has counted down and is about to put a fiber back. -/
def AboutToRequeue (s : Scheduler) (w : ℕ) : Prop :=
  (∃ f k, (s.workers w).phase = .requeue f k) ∨
    ∃ f k, (s.workers w).phase = .settle f k ∧ s.state f = .READY

/-- Nothing is queued, executed or taken, or about to be queued again. -/
structure Quiet (s : Scheduler) : Prop where
  fibers : s.fibers = []
  active : ∀ w, (s.workers w).phase.active = false
  requeue : ∀ w, ¬s.AboutToRequeue w

/-- The step does not let the stop test succeed while a fiber is on its way back
into the queue. -/
def Steady (s : Scheduler) : Label → Prop
  | .autoStop => s.stopFlag = true → s.fibers = [] → s.activeThreadCount = 0 →
      ∀ w, ¬s.AboutToRequeue w
  | .stop => s.autoStop = true → s.fibers = [] → s.activeThreadCount = 0 →
      ∀ w, ¬s.AboutToRequeue w
  | .work w =>
      -- the last worker counts down
      s.autoStop = true → s.stopFlag = true → s.fibers = [] → s.activeThreadCount = 1 →
        ((s.workers w).phase = .drop → ∀ w', ¬s.AboutToRequeue w') ∧
        ∀ f k, (s.workers w).phase = .left f k →
          s.state f ≠ .READY ∧ ∀ w', ¬s.AboutToRequeue w'
  | _ => True

theorem stopping_iff {s : Scheduler} : s.stopping = true ↔
    s.autoStop = true ∧ s.stopFlag = true ∧ s.fibers = [] ∧ s.activeThreadCount = 0 := by
  simp only [stopping, Bool.and_eq_true, List.isEmpty_iff, beq_iff_eq]
  tauto

/-- Nothing that the test looks at has changed. -/
theorem stopping_congr {s s' : Scheduler} (h₁ : s'.autoStop = s.autoStop)
    (h₂ : s'.stopFlag = s.stopFlag) (h₃ : s'.fibers = s.fibers)
    (h₄ : s'.activeThreadCount = s.activeThreadCount) : s'.stopping = s.stopping := by
  unfold stopping
  rw [h₁, h₂, h₃, h₄]

/-- A worker moves to a phase in which it puts back nothing, and no fiber becomes
`READY`. -/
theorem not_aboutToRequeue {s s' : Scheduler} {w : ℕ} {worker : Worker}
    (hs : ∀ v, ¬s.AboutToRequeue v)
    (hworkers : s'.workers = Function.update s.workers w worker)
    (hstate : ∀ f, s'.state f = .READY → s.state f = .READY)
    (hrequeue : ∀ f k, worker.phase ≠ .requeue f k)
    (hsettle : ∀ f k, worker.phase = .settle f k → s'.state f ≠ .READY) (v : ℕ) :
    ¬s'.AboutToRequeue v := by
  by_cases hv : v = w
  · subst hv
    unfold AboutToRequeue
    rw [hworkers, Function.update_self]
    rintro (⟨f, k, hp⟩ | ⟨f, k, hp, hst⟩)
    · exact hrequeue f k hp
    · exact hsettle f k hp hst
  · intro h
    apply hs v
    unfold AboutToRequeue at h ⊢
    rw [hworkers, Function.update_of_ne hv] at h
    rcases h with h | ⟨f, k, hp, hst⟩
    · exact Or.inl h
    · exact Or.inr ⟨f, k, hp, hstate f hst⟩

theorem not_ready_setState {s : Scheduler} {f : ℕ} {st : FiberState} (hst : st ≠ .READY)
    (g : ℕ) (h : (s.setState f st).state g = .READY) : s.state g = .READY := by
  by_cases hg : g = f
  · subst hg
    simp only [setState, Function.update_self] at h
    exact absurd h hst
  · simp only [setState, Function.update_of_ne hg] at h
    exact h

theorem not_ready_reset {s : Scheduler} {f : ℕ} (g : ℕ)
    (h : (s.reset f).state g = .READY) : s.state g = .READY := by
  unfold reset at h
  split at h
  · exact not_ready_setState FiberState.noConfusion g h
  · exact h

/-- What the stop test and the fibers on their way back have to do with a step. -/
def Watched (s : Scheduler) : Prop := s.stopping = true → ∀ w, ¬s.AboutToRequeue w

/-- A step of a worker that no longer counts, and does not change the test. -/
theorem Watched.goto {s s' : Scheduler} {w : ℕ} {worker : Worker} (hs : s.Watched)
    (hstopping : s'.stopping = s.stopping)
    (hworkers : s'.workers = Function.update s.workers w worker)
    (hstate : ∀ f, s'.state f = .READY → s.state f = .READY)
    (hrequeue : ∀ f k, worker.phase ≠ .requeue f k)
    (hsettle : ∀ f k, worker.phase ≠ .settle f k) : s'.Watched := by
  intro hstop
  rw [hstopping] at hstop
  exact not_aboutToRequeue (hs hstop) hworkers hstate hrequeue
    fun f k hp => absurd hp (hsettle f k)

/-- A worker counts after the step, so the test fails. -/
theorem Watched.of_active {n : ℕ} {s : Scheduler} (hs : Counted n s) {w : ℕ}
    (h : (s.workers w).phase.active = true) : s.Watched := by
  intro hstop
  rw [hs.not_active (stopping_iff.mp hstop).2.2.2 w] at h
  cases h

theorem tickle_stopping (s : Scheduler) : s.tickle.stopping = s.stopping := by
  obtain ⟨-, h₂, -, -, h₅, h₆, h₇, -⟩ := tickle_frame s
  exact stopping_congr h₆ h₇ h₅ h₂

theorem reset_stopping (s : Scheduler) (f : ℕ) : (s.reset f).stopping = s.stopping := by
  unfold reset
  split <;> rfl

theorem work_watched {n : ℕ} {s s' : Scheduler} {w : ℕ} (hs : s.Watched)
    (hcounted : Counted n s') (hok : Steady s (.work w)) (h : s.work w = some s') :
    s'.Watched := by
  unfold work at h
  split at h
  case h_1 hphase =>
    cases h
    cases htaken : (scan s.state w s.fibers).taken with
    | none =>
        rw [dequeue_none htaken]
        refine hs.goto rfl rfl (fun _ h => h) ?_ ?_ <;> intro f k <;> split <;> rintro ⟨⟩
    | some ft =>
        rw [dequeue_some htaken] at hcounted ⊢
        apply Watched.of_active hcounted (w := w)
        rw [phase_goto]
        split <;> rfl
  case h_2 ft _ =>
    cases h
    apply Watched.of_active hcounted (w := w)
    rw [phase_goto]
    rfl
  case h_3 | h_11 =>
    cases h
    obtain ⟨-, -, -, h₄, -⟩ := tickle_frame s
    refine hs.goto (tickle_stopping s) (workers_tickle_goto s w _) ?_ ?_ ?_
    · intro f hf
      rw [← h₄]
      exact hf
    · rintro f k ⟨⟩
    · rintro f k ⟨⟩
  case h_4 ft hphase =>
    cases h
    have hactive : ((s.prepare w ft).workers w).phase.active = true := by
      unfold prepare
      split
      · split <;> rw [phase_goto] <;> rfl
      · split
        · rw [phase_goto]
          rfl
        · simp only [setWorker, Function.update_self]
          rfl
    exact Watched.of_active hcounted hactive
  case h_5 f k hphase =>
    cases h
    have hactive : ((s.swapIn w f k).workers w).phase.active = true := by
      unfold swapIn
      split
      · change (s.workers w).phase.active = true
        rw [hphase]
        rfl
      · rw [phase_goto]
        rfl
    exact Watched.of_active hcounted hactive
  case h_6 => cases h
  case h_7 =>
    cases h
    apply Watched.of_active hcounted (w := w)
    rw [phase_goto]
    rfl
  case h_8 f k hphase =>
    cases h
    intro hstop
    obtain ⟨h₁, h₂, h₃, h₄⟩ := stopping_iff.mp hstop
    have hone : s.activeThreadCount = 1 := by
      change s.activeThreadCount - 1 = 0 at h₄
      omega
    obtain ⟨-, hleft⟩ := hok h₁ h₂ h₃ hone
    obtain ⟨hready, hnone⟩ := hleft f k hphase
    refine not_aboutToRequeue hnone rfl (fun _ h => h) ?_ ?_
    · rintro g k' ⟨⟩
    · rintro g k' ⟨⟩
      exact hready
  case h_9 f k hphase =>
    cases h
    unfold look
    split
    case isTrue hready =>
      intro hstop
      exact absurd (Or.inr ⟨f, k, hphase, hready⟩) (hs hstop w)
    · split
      · cases k with
        | some k =>
            refine hs.goto rfl rfl (fun _ h => h) ?_ ?_ <;> rintro g k' ⟨⟩
        | none =>
            refine hs.goto rfl rfl (fun _ h => h) ?_ ?_ <;> rintro g k' ⟨⟩
      · refine hs.goto rfl rfl (fun _ h => h) ?_ ?_ <;> rintro g k' ⟨⟩
  case h_10 f k _ =>
    cases h
    intro hstop
    obtain ⟨-, -, h₃, -⟩ := stopping_iff.mp hstop
    have hfibers : ∀ p : Phase, (((s.push (.fiber f) none).dropCbFiber w k).goto w p).fibers =
        s.fibers ++ [⟨.fiber f, none, s.tickets⟩] := by
      intro p
      cases k <;> rfl
    rw [hfibers] at h₃
    exact absurd h₃ (List.append_ne_nil_of_right_ne_nil _ (List.cons_ne_nil _ _))
  case h_12 f k _ =>
    cases h
    obtain ⟨-, -, h₃, -, h₅, -⟩ := drop_frame (s.setState f .HOLD) w k
    refine hs.goto h₅ (workers_drop_goto (s.setState f .HOLD) w k _) ?_ ?_ ?_
    · intro g hg
      change ((s.setState f .HOLD).dropCbFiber w k).state g = .READY at hg
      rw [h₃] at hg
      exact not_ready_setState FiberState.noConfusion g hg
    · rintro g k' ⟨⟩
    · rintro g k' ⟨⟩
  case h_13 f _ =>
    cases h
    refine hs.goto (reset_stopping s f) (workers_reset_goto s f w _) not_ready_reset ?_ ?_
    · rintro g k' ⟨⟩
    · rintro g k' ⟨⟩
  case h_14 hphase =>
    cases h
    intro hstop
    obtain ⟨h₁, h₂, h₃, h₄⟩ := stopping_iff.mp hstop
    have hone : s.activeThreadCount = 1 := by
      change s.activeThreadCount - 1 = 0 at h₄
      omega
    obtain ⟨hdrop, -⟩ := hok h₁ h₂ h₃ hone
    refine not_aboutToRequeue (hdrop hphase) rfl (fun _ h => h) ?_ ?_
    · rintro g k' ⟨⟩
    · rintro g k' ⟨⟩
  case h_15 =>
    split at h
    · cases h
      refine hs.goto rfl rfl (fun _ h => h) ?_ ?_ <;> rintro g k' ⟨⟩
    · cases h
      refine hs.goto rfl rfl (fun _ h => h) ?_ ?_ <;> rintro g k' ⟨⟩
  case h_16 =>
    split at h
    · cases h
      exact hs
    · cases h
      refine hs.goto rfl rfl (fun _ h => h) ?_ ?_ <;> rintro g k' ⟨⟩
  case h_17 | h_18 | h_19 | h_20 =>
    cases h
    refine hs.goto rfl rfl (fun _ h => h) ?_ ?_ <;> rintro g k' ⟨⟩
  case h_21 => cases h

theorem scheduleAll_stopping : ∀ (jobs : List (Option Job × Option ℕ)) (s : Scheduler),
    (s.scheduleAll jobs).1.stopping = true → s.stopping = true ∧ (s.scheduleAll jobs).1 = s
  | [], _, h => ⟨h, rfl⟩
  | (none, _) :: jobs, s, h => scheduleAll_stopping jobs s h
  | (some job, thread) :: jobs, s, h => by
      -- Once something is in the queue the test fails.
      obtain ⟨hstop, -⟩ := scheduleAll_stopping jobs (s.push job thread) h
      obtain ⟨-, -, hempty, -⟩ := stopping_iff.mp hstop
      exact absurd hempty (List.append_ne_nil_of_right_ne_nil _ (List.cons_ne_nil _ _))

theorem next_watched {n : ℕ} {s s' : Scheduler} {l : Label} (hs : s.Watched)
    (hcounted : Counted n s') (hok : Steady s l) (h : s.next l = some s') :
    s'.Watched := by
  cases l with
  | schedule c jobs =>
      simp only [next] at h
      split at h
      · cases h
      · cases h
        intro hstop
        obtain ⟨hstop', hsame⟩ := scheduleAll_stopping jobs s hstop
        intro w hw
        apply hs hstop' w
        rw [← hsame]
        exact hw
  | tickle c =>
      simp only [next] at h
      split at h
      · cases h
        obtain ⟨h₁, -, -, h₄, -⟩ := tickle_frame s
        intro hstop w hw
        apply hs ((tickle_stopping s).symm.trans hstop) w
        unfold AboutToRequeue at hw ⊢
        rw [← h₁, ← h₄]
        exact hw
      · cases h
  | create =>
      cases h
      intro hstop w hw
      apply hs hstop w
      rcases hw with hw | ⟨f, k, hp, hst⟩
      · exact Or.inl hw
      · exact Or.inr ⟨f, k, hp, not_ready_setState FiberState.noConfusion f hst⟩
  | autoStop =>
      cases h
      intro hstop
      obtain ⟨-, h₂, h₃, h₄⟩ := stopping_iff.mp hstop
      exact hok h₂ h₃ h₄
  | stop =>
      cases h
      intro hstop
      obtain ⟨h₁, -, h₃, h₄⟩ := stopping_iff.mp hstop
      exact hok h₁ h₃ h₄
  | work w => exact work_watched hs hcounted hok h
  | yield w y =>
      simp only [next] at h
      split at h
      case h_1 f k hphase =>
        cases h
        have hactive : ((s.giveBack w f k y).workers w).phase.active = true := by
          cases y with
          | hold | ready =>
              simp only [giveBack]
              split
              · rw [phase_goto]
                rfl
              · change (s.workers w).phase.active = true
                rw [hphase]
                rfl
          | term | except =>
              simp only [giveBack]
              rw [phase_goto]
              rfl
        exact Watched.of_active hcounted hactive
      · cases h
  | leave w | drain w =>
      simp only [next] at h
      split at h
      · cases h
        refine hs.goto rfl rfl (fun _ h => h) ?_ ?_ <;> rintro f k ⟨⟩
      · cases h

/-- A step that is not steady leads to a state in which the test succeeds and a
fiber is on its way back into the queue. -/
theorem next_of_not_steady {s s' : Scheduler} {l : Label} (h : s.next l = some s')
    (hnot : ¬Steady s l) : s'.stopping = true ∧ ∃ w, s'.AboutToRequeue w := by
  cases l with
  | autoStop =>
      cases h
      simp only [Steady, Classical.not_imp, not_forall, not_not] at hnot
      obtain ⟨h₂, h₃, h₄, w, hw⟩ := hnot
      exact ⟨stopping_iff.mpr ⟨rfl, h₂, h₃, h₄⟩, w, hw⟩
  | stop =>
      cases h
      simp only [Steady, Classical.not_imp, not_forall, not_not] at hnot
      obtain ⟨h₁, h₃, h₄, w, hw⟩ := hnot
      exact ⟨stopping_iff.mpr ⟨h₁, rfl, h₃, h₄⟩, w, hw⟩
  | work w =>
      simp only [Steady, Classical.not_imp] at hnot
      obtain ⟨h₁, h₂, h₃, h₄, hnot⟩ := hnot
      have hzero : s.activeThreadCount - 1 = 0 := by omega
      -- Another worker is where it was.
      have hother : ∀ (p : Phase) (v : ℕ), s.AboutToRequeue v →
          (∀ f k, (s.workers w).phase ≠ .requeue f k) →
          (∀ f k, (s.workers w).phase ≠ .settle f k) →
          ({ s with activeThreadCount := s.activeThreadCount - 1 }.goto w p).AboutToRequeue
            v := by
        intro p v hv hrequeue hsettle
        have hvw : v ≠ w := by
          rintro rfl
          rcases hv with ⟨f, k, hp⟩ | ⟨f, k, hp, -⟩
          · exact hrequeue f k hp
          · exact hsettle f k hp
        unfold AboutToRequeue at hv ⊢
        simp only [goto, setWorker, Function.update_of_ne hvw]
        exact hv
      by_cases hdrop : (s.workers w).phase = .drop → ∀ w', ¬s.AboutToRequeue w'
      · have hleft := fun hl => hnot ⟨hdrop, hl⟩
        simp only [imp_false, not_forall, not_and_or, not_not] at hleft
        obtain ⟨f, k, hphase, hw⟩ := hleft
        simp only [next, work, hphase] at h
        cases h
        refine ⟨stopping_iff.mpr ⟨h₁, h₂, h₃, hzero⟩, ?_⟩
        rcases hw with hready | ⟨v, hv⟩
        · exact ⟨w, Or.inr ⟨f, k, phase_goto _ _ _, hready⟩⟩
        · refine ⟨v, hother _ v hv ?_ ?_⟩ <;> rw [hphase] <;> rintro g k' ⟨⟩
      · simp only [Classical.not_imp, not_forall, not_not] at hdrop
        obtain ⟨hphase, v, hv⟩ := hdrop
        simp only [next, work, hphase] at h
        cases h
        refine ⟨stopping_iff.mpr ⟨h₁, h₂, h₃, hzero⟩, v, hother _ v hv ?_ ?_⟩ <;>
          rw [hphase] <;> rintro g k' ⟨⟩
  | schedule | tickle | create | yield | leave | drain => exact absurd trivial hnot

/-- **The stop test.** In every run whose steps are all steady, `stopping()` succeeds
only where nothing is queued, executed, taken or about to be queued again; and a step
that is not steady ends in a state in which it succeeds too early. -/
theorem stopping_quiet {n : ℕ} {s : Scheduler} (h : (machine n).Reachable Steady s) :
    (s.stopping = true → s.Quiet) ∧
      ∀ l s', (machine n).step s l = some s' → ¬Steady s l →
        s'.stopping = true ∧ ¬s'.Quiet := by
  obtain ⟨hcounted, hwatched⟩ : Counted n s ∧ s.Watched := by
    apply h.invariant
    · refine ⟨start_counted n, ?_⟩
      intro hstop
      cases hstop
    · rintro s s' l ⟨hcounted, hwatched⟩ hok hstep
      have hcounted' := next_counted hcounted (next_of_step hstep)
      exact ⟨hcounted', next_watched hwatched hcounted' hok (next_of_step hstep)⟩
  constructor
  · intro hstop
    obtain ⟨-, -, hfibers, hzero⟩ := stopping_iff.mp hstop
    exact ⟨hfibers, hcounted.not_active hzero, hwatched hstop⟩
  · intro l s' hs hnot
    obtain ⟨hstop, w, hw⟩ := next_of_not_steady (next_of_step hs) hnot
    exact ⟨hstop, fun hquiet => hquiet.requeue w hw⟩

/-- The worker has run a callback and waits; `stop` then finds it quiet. -/
theorem stopping_quiet_stopped :
    ∃ s, (machine 1).Reachable Steady s ∧ s.taken ≠ [] ∧ s.stopping = true ∧ s.Quiet := by
  obtain ⟨s, h, hphase, htaken, hauto, hfibers, hactive, hrun⟩ :
      ∃ s, (machine 1).Reachable (fun s l => s.stopFlag = false ∧ l ≠ .stop) s ∧
        (s.workers 0).phase = .blocked ∧ s.taken ≠ [] ∧ s.autoStop = true ∧ s.fibers = [] ∧ s.activeThreadCount = 0 ∧
        s.aborted = false :=
    Lib.Machine.exists_of_exec
      [.schedule 0 [(some (.cb 0), none)], .tickle 0, .work 0, .work 0, .work 0,
        .yield 0 .term, .work 0, .work 0, .work 0, .work 0, .work 0, .work 0, .work 0,
        .work 0, .autoStop]
      (by decide)
  have hnone : ∀ w, ¬s.AboutToRequeue w := by
    intro w
    have hp : (s.workers w).phase = .blocked ∨ (s.workers w).phase = .gone := by
      rcases Nat.eq_zero_or_pos w with rfl | hw
      · exact Or.inl hphase
      · exact Or.inr ((reachable_counted h).gone w hw)
    rintro (⟨f, k, hq⟩ | ⟨f, k, hq, -⟩) <;> rcases hp with hp | hp <;> rw [hq] at hp <;>
      cases hp
  have hstep : (machine 1).step s .stop = some { s with stopFlag := true } := by
    change (if s.aborted = true then none else s.next .stop) = _
    rw [if_neg (Bool.eq_false_iff.mp hrun)]
    rfl
  have hsteady : (machine 1).Reachable Steady s := by
    refine h.mono fun s l hl => ?_
    cases l with
    | autoStop => exact fun hflag => absurd (hl.1.symm.trans hflag) Bool.false_ne_true
    | stop => exact absurd rfl hl.2
    | work w => exact fun _ hflag => absurd (hl.1.symm.trans hflag) Bool.false_ne_true
    | schedule | tickle | create | yield | leave | drain => trivial
  have hreach : (machine 1).Reachable Steady { s with stopFlag := true } :=
    .tail .stop hsteady (fun _ _ _ => hnone) hstep
  have hstop : ({ s with stopFlag := true } : Scheduler).stopping = true :=
    stopping_iff.mpr ⟨hauto, rfl, hfibers, hactive⟩
  exact ⟨_, hreach, htaken, hstop, (stopping_quiet hreach).1 hstop⟩

/-- A fiber yields with `YieldToReady` and its worker counts down: the test succeeds
with the fiber on its way back into the queue. -/
theorem stopping_too_early :
    ∃ s, (machine 1).Reachable (fun _ _ => True) s ∧ s.stopping = true ∧
      (s.workers 0).phase = .requeue 0 (some 0) := by
  exact Lib.Machine.exists_of_exec
    [.create, .schedule 0 [(some (.fiber 0), none)], .tickle 0, .autoStop, .stop,
      .work 0, .work 0, .work 0, .yield 0 .ready, .work 0, .work 0, .work 0]
    (by decide)

end Scheduler

end Skt
