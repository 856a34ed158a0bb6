import Skt.Lib.Tally
import Skt.Scheduler.Queue

/-!
# The two counters

`m_activeThreadCount` is the number of workers between the scan that took an entry
and the count-down behind the switch; `m_idleThreadCount` is the number of workers
around their idle fibers. Both hold in every run, however fibers are handed over.
-/

namespace Skt

namespace Scheduler

namespace Phase

/-- The worker counts for `m_activeThreadCount`. -/
def active : Phase → Bool
  | .tickle (some _) | .take _ | .enter _ _ | .exec _ _ | .leaving _ _ | .left _ _
  | .drop => true
  | _ => false

/-- The worker counts for `m_idleThreadCount`. -/
def counted : Phase → Bool
  | .enterIdle | .idle | .blocked | .woken | .leftIdle => true
  | _ => false

end Phase

/-- What a step does to the counters if worker `w` is `worker` after it. -/
structure Effect (s s' : Scheduler) (w : ℕ) (worker : Worker) : Prop where
  workers : s'.workers = Function.update s.workers w worker
  active : s'.activeThreadCount + (s.workers w).phase.active.toNat =
    s.activeThreadCount + worker.phase.active.toNat
  idle : s'.idleThreadCount + (s.workers w).phase.counted.toNat =
    s.idleThreadCount + worker.phase.counted.toNat

/-- No counter changes, and the worker counts as before. -/
theorem Effect.goto {s s' : Scheduler} {w : ℕ} {worker : Worker}
    (hworkers : s'.workers = Function.update s.workers w worker)
    (hactive : s'.activeThreadCount = s.activeThreadCount)
    (hidle : s'.idleThreadCount = s.idleThreadCount)
    (hphase : worker.phase.active = (s.workers w).phase.active)
    (hphase' : worker.phase.counted = (s.workers w).phase.counted) :
    Effect s s' w worker := by
  refine ⟨hworkers, ?_, ?_⟩
  · rw [hactive, hphase]
  · rw [hidle, hphase']

theorem Effect.stay {s s' : Scheduler} {w : ℕ} (hworkers : s'.workers = s.workers)
    (hactive : s'.activeThreadCount = s.activeThreadCount)
    (hidle : s'.idleThreadCount = s.idleThreadCount) :
    Effect s s' w (s.workers w) := by
  refine .goto ?_ hactive hidle rfl rfl
  rw [hworkers]
  exact (Function.update_eq_self w s.workers).symm

theorem tickle_frame (s : Scheduler) : s.tickle.workers = s.workers ∧
    s.tickle.activeThreadCount = s.activeThreadCount ∧
    s.tickle.idleThreadCount = s.idleThreadCount ∧ s.tickle.state = s.state ∧
    s.tickle.fibers = s.fibers ∧ s.tickle.autoStop = s.autoStop ∧
    s.tickle.stopFlag = s.stopFlag ∧ s.tickle.callers = s.callers ∧
    s.tickle.created = s.created := by
  unfold tickle
  split <;> exact ⟨rfl, rfl, rfl, rfl, rfl, rfl, rfl, rfl, rfl⟩

theorem scheduleAll_frame : ∀ (jobs : List (Option Job × Option ℕ)) (s : Scheduler),
    (s.scheduleAll jobs).1.workers = s.workers ∧
    (s.scheduleAll jobs).1.activeThreadCount = s.activeThreadCount ∧
    (s.scheduleAll jobs).1.idleThreadCount = s.idleThreadCount ∧
    (s.scheduleAll jobs).1.state = s.state ∧
    (s.scheduleAll jobs).1.created = s.created ∧
    (s.scheduleAll jobs).1.pipe = s.pipe ∧ (s.scheduleAll jobs).1.callers = s.callers
  | [], _ => ⟨rfl, rfl, rfl, rfl, rfl, rfl, rfl⟩
  | (none, _) :: jobs, s => scheduleAll_frame jobs s
  | (some job, thread) :: jobs, s => scheduleAll_frame jobs (s.push job thread)

theorem reset_frame (s : Scheduler) (f : ℕ) :
    (s.reset f).activeThreadCount = s.activeThreadCount ∧
    (s.reset f).idleThreadCount = s.idleThreadCount ∧
    (s.reset f).fibers = s.fibers ∧ (s.reset f).created = s.created ∧
    (s.reset f).pipe = s.pipe ∧ (s.reset f).callers = s.callers := by
  unfold reset
  split <;> exact ⟨rfl, rfl, rfl, rfl, rfl, rfl⟩

theorem drop_frame (s : Scheduler) (w : ℕ) (k : Option ℕ) :
    (s.dropCbFiber w k).activeThreadCount = s.activeThreadCount ∧
    (s.dropCbFiber w k).idleThreadCount = s.idleThreadCount ∧
    (s.dropCbFiber w k).state = s.state ∧ (s.dropCbFiber w k).fibers = s.fibers ∧
    (s.dropCbFiber w k).stopping = s.stopping ∧ (s.dropCbFiber w k).pipe = s.pipe ∧
    (s.dropCbFiber w k).callers = s.callers ∧
    (s.dropCbFiber w k).created = s.created := by
  cases k <;> exact ⟨rfl, rfl, rfl, rfl, rfl, rfl, rfl, rfl⟩

/-- The phase of a worker after a step of its own. -/
theorem work_effect {s s' : Scheduler} {w : ℕ} (h : s.work w = some s') :
    ∃ worker, Effect s s' w worker := by
  unfold work at h
  split at h
  case h_1 hphase =>
    cases h
    cases htaken : (scan s.state w s.fibers).taken with
    | none =>
        rw [dequeue_none htaken]
        refine ⟨_, .goto rfl rfl rfl ?_ ?_⟩ <;> rw [hphase] <;> split <;> rfl
    | some ft =>
        rw [dequeue_some htaken]
        refine ⟨_, rfl, ?_, ?_⟩
        · rw [hphase]
          split <;> simp [Scheduler.goto, setWorker, Phase.active]
        · rw [hphase]
          split <;> rfl
  case h_2 ft hphase =>
    cases h
    obtain ⟨-, h₂, h₃, -⟩ := tickle_frame s
    exact ⟨_, .goto (workers_tickle_goto s w _) h₂ h₃ (by rw [hphase]; rfl)
      (by rw [hphase]; rfl)⟩
  case h_3 hphase =>
    cases h
    obtain ⟨-, h₂, h₃, -⟩ := tickle_frame s
    exact ⟨_, .goto (workers_tickle_goto s w _) h₂ h₃ (by rw [hphase]; rfl)
      (by rw [hphase]; rfl)⟩
  case h_4 ft hphase =>
    cases h
    unfold prepare
    split
    · split
      · exact ⟨_, .goto rfl rfl rfl (by rw [hphase]; rfl) (by rw [hphase]; rfl)⟩
      · exact ⟨_, .goto rfl rfl rfl (by rw [hphase]; rfl) (by rw [hphase]; rfl)⟩
    · split
      case h_1 f _ =>
        obtain ⟨h₂, h₃, -⟩ := reset_frame s f
        exact ⟨_, .goto (workers_reset_goto s f w _) h₂ h₃ (by rw [hphase]; rfl)
          (by rw [hphase]; rfl)⟩
      · exact ⟨_, .goto rfl rfl rfl (by rw [hphase]; rfl) (by rw [hphase]; rfl)⟩
  case h_5 f k hphase =>
    cases h
    unfold swapIn
    split
    · exact ⟨_, .stay rfl rfl rfl⟩
    · exact ⟨_, .goto rfl rfl rfl (by rw [hphase]; rfl) (by rw [hphase]; rfl)⟩
  case h_6 => cases h
  case h_7 hphase =>
    cases h
    exact ⟨_, .goto rfl rfl rfl (by rw [hphase]; rfl) (by rw [hphase]; rfl)⟩
  case h_8 hphase =>
    cases h
    refine ⟨_, rfl, ?_, ?_⟩
    · rw [hphase]
      simp [Scheduler.goto, setWorker, Phase.active]
    · rw [hphase]
      rfl
  case h_9 f k hphase =>
    cases h
    unfold look
    split
    · exact ⟨_, .goto rfl rfl rfl (by rw [hphase]; rfl) (by rw [hphase]; rfl)⟩
    · split
      · cases k with
        | some k => exact ⟨_, .goto rfl rfl rfl (by rw [hphase]; rfl) (by rw [hphase]; rfl)⟩
        | none => exact ⟨_, .goto rfl rfl rfl (by rw [hphase]; rfl) (by rw [hphase]; rfl)⟩
      · exact ⟨_, .goto rfl rfl rfl (by rw [hphase]; rfl) (by rw [hphase]; rfl)⟩
  case h_10 f k hphase =>
    cases h
    obtain ⟨h₂, h₃, -⟩ := drop_frame (s.push (.fiber f) none) w k
    refine ⟨_, .goto (workers_drop_goto (s.push (.fiber f) none) w k _) h₂ h₃ ?_ ?_⟩ <;>
      rw [hphase] <;> split <;> rfl
  case h_11 hphase =>
    cases h
    obtain ⟨-, h₂, h₃, -⟩ := tickle_frame s
    exact ⟨_, .goto (workers_tickle_goto s w _) h₂ h₃ (by rw [hphase]; rfl)
      (by rw [hphase]; rfl)⟩
  case h_12 f k hphase =>
    cases h
    obtain ⟨h₂, h₃, -⟩ := drop_frame (s.setState f .HOLD) w k
    exact ⟨_, .goto (workers_drop_goto (s.setState f .HOLD) w k _) h₂ h₃
      (by rw [hphase]; rfl) (by rw [hphase]; rfl)⟩
  case h_13 f hphase =>
    cases h
    obtain ⟨h₂, h₃, -⟩ := reset_frame s f
    exact ⟨_, .goto (workers_reset_goto s f w _) h₂ h₃ (by rw [hphase]; rfl)
      (by rw [hphase]; rfl)⟩
  case h_14 hphase =>
    cases h
    refine ⟨_, rfl, ?_, ?_⟩
    · rw [hphase]
      simp [Scheduler.goto, setWorker, Phase.active]
    · rw [hphase]
      rfl
  case h_15 hphase =>
    split at h
    · cases h
      exact ⟨_, .goto rfl rfl rfl (by rw [hphase]; rfl) (by rw [hphase]; rfl)⟩
    · cases h
      refine ⟨_, rfl, ?_, ?_⟩
      · rw [hphase]
        rfl
      · rw [hphase]
        simp [Scheduler.goto, setWorker, Phase.counted]
  case h_16 hphase =>
    split at h
    · cases h
      exact ⟨_, .stay rfl rfl rfl⟩
    · cases h
      exact ⟨_, .goto rfl rfl rfl (by rw [hphase]; rfl) (by rw [hphase]; rfl)⟩
  case h_17 hphase =>
    cases h
    exact ⟨_, .goto rfl rfl rfl (by rw [hphase]; rfl) (by rw [hphase]; rfl)⟩
  case h_18 hphase =>
    cases h
    exact ⟨_, .goto rfl rfl rfl (by rw [hphase]; rfl) (by rw [hphase]; rfl)⟩
  case h_19 hphase =>
    cases h
    exact ⟨_, .goto rfl rfl rfl (by rw [hphase]; rfl) (by rw [hphase]; rfl)⟩
  case h_20 hphase =>
    cases h
    refine ⟨_, rfl, ?_, ?_⟩
    · rw [hphase]
      rfl
    · rw [hphase]
      simp [setWorker, Phase.counted]
  case h_21 => cases h

/-- The phase of a worker after a step of its own or of its fiber. -/
theorem next_effect {s s' : Scheduler} {l : Label} (h : s.next l = some s') :
    ∃ w worker, Effect s s' w worker := by
  cases l with
  | schedule c jobs =>
      simp only [next] at h
      split at h
      · cases h
      · cases h
        obtain ⟨h₁, h₂, h₃, -⟩ := scheduleAll_frame jobs s
        exact ⟨0, _, .stay h₁ h₂ h₃⟩
  | tickle c =>
      simp only [next] at h
      split at h
      · cases h
        obtain ⟨h₁, h₂, h₃, -⟩ := tickle_frame s
        exact ⟨0, _, .stay h₁ h₂ h₃⟩
      · cases h
  | create | autoStop | stop =>
      cases h
      exact ⟨0, _, .stay rfl rfl rfl⟩
  | work w => exact ⟨w, work_effect h⟩
  | yield w y =>
      simp only [next] at h
      split at h
      case h_1 f k hphase =>
        cases h
        cases y with
        | hold | ready =>
            simp only [giveBack]
            split
            · exact ⟨w, _, .goto rfl rfl rfl (by rw [hphase]; rfl) (by rw [hphase]; rfl)⟩
            · exact ⟨w, _, .stay rfl rfl rfl⟩
        | term | except =>
            exact ⟨w, _, .goto rfl rfl rfl (by rw [hphase]; rfl) (by rw [hphase]; rfl)⟩
      · cases h
  | leave w =>
      simp only [next] at h
      split at h
      case isTrue hleave =>
        cases h
        exact ⟨w, _, .goto rfl rfl rfl (by rw [hleave.1]; rfl) (by rw [hleave.1]; rfl)⟩
      · cases h
  | drain w =>
      simp only [next] at h
      split at h
      case isTrue hwoken =>
        cases h
        exact ⟨w, _, .goto rfl rfl rfl (by rw [hwoken]; rfl) (by rw [hwoken]; rfl)⟩
      · cases h

/-! ## Runs -/

/-- Both counters are right, and there are no more than `n` workers. -/
structure Counted (n : ℕ) (s : Scheduler) : Prop where
  active : s.activeThreadCount =
    ∑ w ∈ Finset.range n, ((s.workers w).phase.active.toNat : ℤ)
  idle : s.idleThreadCount =
    ∑ w ∈ Finset.range n, ((s.workers w).phase.counted.toNat : ℤ)
  gone : ∀ w, n ≤ w → (s.workers w).phase = .gone

/-- What a worker that is gone does: nothing. -/
theorem gone_of_effect {s s' : Scheduler} {l : Label} (h : s.next l = some s') {v : ℕ}
    (hv : (s.workers v).phase = .gone) : s'.workers v = s.workers v := by
  have hwork : ∀ {w}, s.work w = some s' → s'.workers v = s.workers v := by
    intro w hw
    by_cases hvw : v = w
    · subst hvw
      simp only [work, hv] at hw
      cases hw
    · obtain ⟨worker, heffect⟩ := work_effect hw
      rw [heffect.workers, Function.update_of_ne hvw]
  cases l with
  | schedule c jobs =>
      simp only [next] at h
      split at h
      · cases h
      · cases h
        exact congrFun (scheduleAll_frame jobs s).1 v
  | tickle c =>
      simp only [next] at h
      split at h
      · cases h
        exact congrFun (tickle_frame s).1 v
      · cases h
  | create | autoStop | stop =>
      cases h
      rfl
  | work w => exact hwork h
  | yield w y =>
      simp only [next] at h
      split at h
      case h_1 f k hphase =>
        have hvw : v ≠ w := by
          rintro rfl
          rw [hv] at hphase
          cases hphase
        cases h
        cases y with
        | hold | ready =>
            simp only [giveBack]
            split
            · exact Function.update_of_ne hvw _ _
            · rfl
        | term | except => exact Function.update_of_ne hvw _ _
      · cases h
  | leave w =>
      simp only [next] at h
      split at h
      case isTrue hleave =>
        cases h
        apply Function.update_of_ne
        rintro rfl
        rw [hv] at hleave
        cases hleave.1
      · cases h
  | drain w =>
      simp only [next] at h
      split at h
      case isTrue hwoken =>
        cases h
        apply Function.update_of_ne
        rintro rfl
        rw [hv] at hwoken
        cases hwoken
      · cases h

theorem next_counted {n : ℕ} {s s' : Scheduler} {l : Label} (hs : Counted n s)
    (h : s.next l = some s') : Counted n s' := by
  obtain ⟨w, worker, heffect⟩ := next_effect h
  have hgone : ∀ v, n ≤ v → (s'.workers v).phase = .gone := by
    intro v hv
    rw [gone_of_effect h (hs.gone v hv)]
    exact hs.gone v hv
  rcases Nat.lt_or_ge w n with hw | hw
  · refine ⟨?_, ?_, hgone⟩
    · have hsum := Lib.tally_update hw (fun v : Worker => v.phase.active) s.workers worker
      simp only [Lib.tally] at hsum
      have := heffect.active
      have := hs.active
      rw [heffect.workers]
      linarith
    · have hsum := Lib.tally_update hw (fun v : Worker => v.phase.counted) s.workers worker
      simp only [Lib.tally] at hsum
      have := heffect.idle
      have := hs.idle
      rw [heffect.workers]
      linarith
  · -- A worker that does not exist has done nothing.
    have hsame : worker = s.workers w := by
      have := gone_of_effect h (hs.gone w hw)
      rw [heffect.workers, Function.update_self] at this
      exact this
    subst hsame
    have hworkers : s'.workers = s.workers := by
      rw [heffect.workers]
      exact Function.update_eq_self w s.workers
    refine ⟨?_, ?_, hgone⟩
    · rw [hworkers, ← hs.active]
      exact add_right_cancel heffect.active
    · rw [hworkers, ← hs.idle]
      exact add_right_cancel heffect.idle

theorem start_counted (n : ℕ) : Counted n (start n) := by
  refine ⟨?_, ?_, ?_⟩
  · symm
    apply Finset.sum_eq_zero
    intro w _
    simp only [start]
    split <;> rfl
  · symm
    apply Finset.sum_eq_zero
    intro w _
    simp only [start]
    split <;> rfl
  · intro w hw
    simp only [start]
    rw [if_neg (Nat.not_lt.mpr hw)]

theorem reachable_counted {n : ℕ} {Ok : Scheduler → Label → Prop} {s : Scheduler}
    (h : (machine n).Reachable Ok s) : Counted n s := by
  apply h.invariant (start_counted n)
  intro s s' l hs _ hstep
  exact next_counted hs (next_of_step hstep)

/-- A counter at zero: no worker counts for it. -/
theorem Counted.not_active {n : ℕ} {s : Scheduler} (hs : Counted n s)
    (h : s.activeThreadCount = 0) (w : ℕ) : (s.workers w).phase.active = false := by
  rcases Nat.lt_or_ge w n with hw | hw
  · have hzero : Lib.tally n (fun v : Worker => v.phase.active) s.workers ≤ 0 :=
      (hs.active.symm.trans h).le
    exact Lib.eq_false_of_tally hw hzero
  · rw [hs.gone w hw]
    rfl

theorem Counted.idle_pos {n : ℕ} {s : Scheduler} (hs : Counted n s) {w : ℕ}
    (h : (s.workers w).phase.counted = true) : 0 < s.idleThreadCount := by
  have hw : w < n := by
    by_contra hge
    rw [hs.gone w (Nat.le_of_not_lt hge)] at h
    cases h
  rw [hs.idle]
  exact Lib.tally_pos (p := fun v : Worker => v.phase.counted) hw h

end Scheduler

end Skt
