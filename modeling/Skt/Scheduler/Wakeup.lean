import Skt.Scheduler.Counts

/-!
# Waking up a worker

A call of `schedule` that finds the queue empty calls `tickle`, and a scan that
leaves something behind does. Both can come to nothing: `tickle` does nothing as long
as no worker counts as idle, also if one has scanned the queue and is about to; and
`schedule` does not call it for a queue that holds entries for others only.
-/

namespace Skt

namespace Scheduler

/-! ## Fibers that exist -/

def FiberAndThread.Below (N : ℕ) (ft : FiberAndThread) : Prop :=
  ∀ f, ft.job = .fiber f → f < N

def Phase.Below (N : ℕ) : Phase → Prop
  | .tickle (some ft) | .take ft => ft.Below N
  | .enter f _ | .exec f _ | .leaving f _ | .left f _ | .settle f _ | .requeue f _
  | .hold f _ | .recycle f => f < N
  | _ => True

/-- Whatever the scheduler holds has been made; in particular no fiber is `EXEC`
before it is made. -/
structure Made (s : Scheduler) : Prop where
  fibers : ∀ ft ∈ s.fibers, ft.Below s.created
  phase : ∀ w, (s.workers w).phase.Below s.created
  cbFiber : ∀ w f, (s.workers w).cbFiber = some f → f < s.created
  exec : ∀ f, s.state f = .EXEC → f < s.created

theorem FiberAndThread.Below.mono {N M : ℕ} {ft : FiberAndThread} (h : ft.Below N)
    (hle : N ≤ M) : ft.Below M :=
  fun f hf => lt_of_lt_of_le (h f hf) hle

theorem Phase.Below.mono {N M : ℕ} {p : Phase} (h : p.Below N) (hle : N ≤ M) :
    p.Below M := by
  unfold Phase.Below at h ⊢
  split
  · exact FiberAndThread.Below.mono h hle
  · exact FiberAndThread.Below.mono h hle
  all_goals first | exact lt_of_lt_of_le h hle | trivial

/-- A step of worker `w`. -/
theorem Made.step {s s' : Scheduler} {w : ℕ} {worker : Worker} (hs : s.Made)
    (hworkers : s'.workers = Function.update s.workers w worker)
    (hcreated : s.created ≤ s'.created)
    (hfibers : ∀ ft ∈ s'.fibers, ft ∈ s.fibers ∨ ft.Below s'.created)
    (hexec : ∀ f, s'.state f = .EXEC → s.state f = .EXEC ∨ f < s'.created)
    (hphase : worker.phase.Below s'.created)
    (hcb : ∀ f, worker.cbFiber = some f → (s.workers w).cbFiber = some f ∨ f < s'.created) :
    s'.Made := by
  refine ⟨?_, ?_, ?_, ?_⟩
  · intro ft hft
    rcases hfibers ft hft with h | h
    · exact (hs.fibers ft h).mono hcreated
    · exact h
  · intro v
    rw [hworkers]
    by_cases hv : v = w
    · subst hv
      rw [Function.update_self]
      exact hphase
    · rw [Function.update_of_ne hv]
      exact (hs.phase v).mono hcreated
  · intro v f hf
    rw [hworkers] at hf
    by_cases hv : v = w
    · subst hv
      rw [Function.update_self] at hf
      rcases hcb f hf with h | h
      · exact lt_of_lt_of_le (hs.cbFiber v f h) hcreated
      · exact h
    · rw [Function.update_of_ne hv] at hf
      exact lt_of_lt_of_le (hs.cbFiber v f hf) hcreated
  · intro f hf
    rcases hexec f hf with h | h
    · exact lt_of_lt_of_le (hs.exec f h) hcreated
    · exact h

/-- A step of worker `w` that makes nothing, adds nothing and starts nothing. -/
theorem Made.goto {s s' : Scheduler} {w : ℕ} {worker : Worker} (hs : s.Made)
    (hworkers : s'.workers = Function.update s.workers w worker)
    (hcreated : s'.created = s.created)
    (hfibers : ∀ ft ∈ s'.fibers, ft ∈ s.fibers)
    (hexec : ∀ f, s'.state f = .EXEC → s.state f = .EXEC)
    (hphase : worker.phase.Below s.created)
    (hcb : ∀ f, worker.cbFiber = some f → (s.workers w).cbFiber = some f) : s'.Made := by
  rw [← hcreated] at hphase
  exact hs.step hworkers hcreated.ge (fun ft h => Or.inl (hfibers ft h))
    (fun f h => Or.inl (hexec f h)) hphase fun f h => Or.inl (hcb f h)

theorem exec_of_setState {s : Scheduler} {f : ℕ} {st : FiberState} (hst : st ≠ .EXEC)
    (g : ℕ) (h : (s.setState f st).state g = .EXEC) : s.state g = .EXEC := by
  by_cases hg : g = f
  · subst hg
    simp only [setState, Function.update_self] at h
    exact absurd h hst
  · simp only [setState, Function.update_of_ne hg] at h
    exact h

theorem exec_of_reset {s : Scheduler} {f : ℕ} (g : ℕ)
    (h : (s.reset f).state g = .EXEC) : s.state g = .EXEC := by
  unfold reset at h
  split at h
  · exact exec_of_setState FiberState.noConfusion g h
  · exact h

theorem of_keptCb {k cb : Option ℕ} {f : ℕ} (h : keptCb k cb = some f) : cb = some f := by
  cases k with
  | none => cases h
  | some _ => exact h

theorem mem_scheduleAll : ∀ (jobs : List (Option Job × Option ℕ)) (s : Scheduler)
    (ft : FiberAndThread), ft ∈ (s.scheduleAll jobs).1.fibers →
      ft ∈ s.fibers ∨ (some ft.job, ft.thread) ∈ jobs
  | [], _, _, h => Or.inl h
  | (none, _) :: jobs, s, ft, h => by
      rcases mem_scheduleAll jobs s ft h with h | h
      · exact Or.inl h
      · exact Or.inr (List.mem_cons_of_mem _ h)
  | (some job, thread) :: jobs, s, ft, h => by
      rcases mem_scheduleAll jobs (s.push job thread) ft h with h | h
      · rcases List.mem_append.mp h with h | h
        · exact Or.inl h
        · cases List.mem_singleton.mp h
          exact Or.inr List.mem_cons_self
      · exact Or.inr (List.mem_cons_of_mem _ h)

theorem work_made {s s' : Scheduler} {w : ℕ} (hs : s.Made) (h : s.work w = some s') :
    s'.Made := by
  have hp := hs.phase w
  unfold work at h
  split at h
  case h_1 hphase =>
    cases h
    cases htaken : (scan s.state w s.fibers).taken with
    | none =>
        rw [dequeue_none htaken]
        refine hs.goto rfl rfl (fun _ h => h) (fun _ h => h) ?_ fun _ h => h
        split <;> trivial
    | some ft =>
        rw [dequeue_some htaken]
        have hft : ft.Below s.created :=
          hs.fibers ft ((scan_perm s.fibers).mem_iff.mpr
            (List.mem_append_left _ (Option.mem_toList.mpr htaken)))
        refine hs.goto rfl rfl (fun _ h => mem_of_mem_scan h) (fun _ h => h) ?_ fun _ h => h
        split <;> exact hft
  case h_2 ft hphase =>
    cases h
    rw [hphase] at hp
    obtain ⟨-, -, -, h₄, h₅, -, -, -, h₉⟩ := tickle_frame s
    exact hs.goto (workers_tickle_goto s w _) h₉ (fun _ h => h₅ ▸ h) (fun _ h => h₄ ▸ h)
      hp fun _ h => h
  case h_3 | h_11 =>
    cases h
    obtain ⟨-, -, -, h₄, h₅, -, -, -, h₉⟩ := tickle_frame s
    exact hs.goto (workers_tickle_goto s w _) h₉ (fun _ h => h₅ ▸ h) (fun _ h => h₄ ▸ h)
      trivial fun _ h => h
  case h_4 ft hphase =>
    cases h
    rw [hphase] at hp
    unfold prepare
    split
    case h_1 f hjob =>
      split
      · exact hs.goto rfl rfl (fun _ h => h) (fun _ h => h) trivial fun _ h => h
      · exact hs.goto rfl rfl (fun _ h => h) (fun _ h => h) (hp f hjob) fun _ h => h
    · split
      case h_1 f hcb =>
        obtain ⟨-, -, h₃, h₄, -⟩ := reset_frame s f
        exact hs.goto (workers_reset_goto s f w _) h₄ (fun _ h => h₃ ▸ h) exec_of_reset
          (hs.cbFiber w f hcb) fun _ h => h
      · refine hs.step rfl (Nat.le_succ _) (fun _ h => Or.inl h) ?_ (Nat.lt_succ_self _) ?_
        · exact fun f h => Or.inl (exec_of_setState FiberState.noConfusion f h)
        · rintro f ⟨⟩
          exact Or.inr (Nat.lt_succ_self _)
  case h_5 f k hphase =>
    cases h
    rw [hphase] at hp
    unfold swapIn
    split
    · exact ⟨hs.fibers, hs.phase, hs.cbFiber, hs.exec⟩
    · refine hs.step rfl le_rfl (fun _ h => Or.inl h) ?_ hp fun _ h => Or.inl h
      intro g hg
      by_cases hgf : g = f
      · exact Or.inr (hgf ▸ hp)
      · simp only [Scheduler.goto, setWorker, setState, Function.update_of_ne hgf] at hg
        exact Or.inl hg
  case h_6 | h_21 => cases h
  case h_7 hphase | h_8 hphase =>
    cases h
    rw [hphase] at hp
    exact hs.goto rfl rfl (fun _ h => h) (fun _ h => h) hp fun _ h => h
  case h_9 f k hphase =>
    cases h
    rw [hphase] at hp
    unfold look
    split
    · exact hs.goto rfl rfl (fun _ h => h) (fun _ h => h) hp fun _ h => h
    · split
      · cases k with
        | some k => exact hs.goto rfl rfl (fun _ h => h) (fun _ h => h) trivial fun _ h => h
        | none => exact hs.goto rfl rfl (fun _ h => h) (fun _ h => h) hp fun _ h => h
      · exact hs.goto rfl rfl (fun _ h => h) (fun _ h => h) hp fun _ h => h
  case h_10 f k hphase =>
    cases h
    rw [hphase] at hp
    obtain ⟨-, -, h₃, h₄, -, -, -, h₈⟩ := drop_frame (s.push (.fiber f) none) w k
    refine hs.step (workers_drop_goto (s.push (.fiber f) none) w k _) h₈.ge ?_ ?_ ?_ ?_
    · intro ft hft
      rcases List.mem_append.mp (h₄ ▸ hft) with hft | hft
      · exact Or.inl hft
      · cases List.mem_singleton.mp hft
        refine Or.inr ?_
        rintro g ⟨⟩
        exact lt_of_lt_of_le hp h₈.ge
    · exact fun _ h => Or.inl (h₃ ▸ h)
    · split <;> trivial
    · exact fun _ h => Or.inl (of_keptCb h)
  case h_12 f k hphase =>
    cases h
    obtain ⟨-, -, h₃, h₄, -, -, -, h₈⟩ := drop_frame (s.setState f .HOLD) w k
    exact hs.goto (workers_drop_goto (s.setState f .HOLD) w k _) h₈ (fun _ h => h₄ ▸ h)
      (fun g h => exec_of_setState FiberState.noConfusion g (h₃ ▸ h)) trivial
      fun _ h => of_keptCb h
  case h_13 f hphase =>
    cases h
    obtain ⟨-, -, h₃, h₄, -⟩ := reset_frame s f
    exact hs.goto (workers_reset_goto s f w _) h₄ (fun _ h => h₃ ▸ h) exec_of_reset
      trivial fun _ h => h
  case h_14 | h_17 | h_18 | h_19 | h_20 =>
    cases h
    exact hs.goto rfl rfl (fun _ h => h) (fun _ h => h) trivial fun _ h => h
  case h_15 =>
    split at h <;> cases h
    · exact hs.goto rfl rfl (fun _ h => h) (fun _ h => h) trivial fun _ h => h
    · exact hs.goto rfl rfl (fun _ h => h) (fun _ h => h) trivial fun _ h => h
  case h_16 =>
    split at h <;> cases h
    · exact ⟨hs.fibers, hs.phase, hs.cbFiber, hs.exec⟩
    · exact hs.goto rfl rfl (fun _ h => h) (fun _ h => h) trivial fun _ h => h

theorem next_made {s s' : Scheduler} {l : Label} (hs : s.Made) (h : s.next l = some s') :
    s'.Made := by
  cases l with
  | schedule c jobs =>
      simp only [next] at h
      split at h
      · cases h
      case isFalse hexist =>
        cases h
        obtain ⟨h₁, -, -, h₄, h₅, -⟩ := scheduleAll_frame jobs s
        simp only [Bool.or_eq_true, not_or, Bool.not_eq_true', Bool.not_eq_false] at hexist
        refine ⟨?_, ?_, ?_, ?_⟩
        · intro ft hft f hf
          rcases mem_scheduleAll jobs s ft hft with hft | hft
          · exact lt_of_lt_of_eq (hs.fibers ft hft f hf) h₅.symm
          · have hlt := List.all_eq_true.mp hexist.2 _ hft
            simp only [hf] at hlt
            exact lt_of_lt_of_eq (of_decide_eq_true hlt) h₅.symm
        · simp only [h₁, h₅]
          exact hs.phase
        · simp only [h₁, h₅]
          exact hs.cbFiber
        · simp only [h₄, h₅]
          exact hs.exec
  | tickle c =>
      simp only [next] at h
      split at h
      · cases h
        obtain ⟨h₁, -, -, h₄, h₅, -, -, -, h₉⟩ := tickle_frame s
        refine ⟨?_, ?_, ?_, ?_⟩
        · simp only [h₅, h₉]
          exact hs.fibers
        · simp only [h₁, h₉]
          exact hs.phase
        · simp only [h₁, h₉]
          exact hs.cbFiber
        · simp only [h₄, h₉]
          exact hs.exec
      · cases h
  | create =>
      cases h
      refine hs.step (w := 0) (Function.update_eq_self 0 s.workers).symm (Nat.le_succ _)
        (fun _ h => Or.inl h) ?_ ((hs.phase 0).mono (Nat.le_succ _)) fun _ h => Or.inl h
      exact fun f h => Or.inl (exec_of_setState FiberState.noConfusion f h)
  | autoStop | stop =>
      cases h
      exact ⟨hs.fibers, hs.phase, hs.cbFiber, hs.exec⟩
  | work w => exact work_made hs h
  | yield w y =>
      have hp := hs.phase w
      simp only [next] at h
      split at h
      case h_1 f k hphase =>
        cases h
        rw [hphase] at hp
        cases y with
        | hold =>
            simp only [giveBack]
            split
            · exact hs.goto rfl rfl (fun _ h => h) (fun _ h => h) hp fun _ h => h
            · exact ⟨hs.fibers, hs.phase, hs.cbFiber, hs.exec⟩
        | ready =>
            simp only [giveBack]
            split
            · exact hs.goto rfl rfl (fun _ h => h)
                (exec_of_setState FiberState.noConfusion) hp fun _ h => h
            · exact ⟨hs.fibers, hs.phase, hs.cbFiber, hs.exec⟩
        | term | except =>
            exact hs.goto rfl rfl (fun _ h => h) (exec_of_setState FiberState.noConfusion)
              hp fun _ h => h
      · cases h
  | leave w | drain w =>
      simp only [next] at h
      split at h
      · cases h
        exact hs.goto rfl rfl (fun _ h => h) (fun _ h => h) trivial fun _ h => h
      · cases h

theorem start_made (n : ℕ) : (start n).Made := by
  refine ⟨?_, ?_, ?_, ?_⟩
  · intro ft hft
    cases hft
  · intro w
    simp only [start]
    split <;> trivial
  · rintro w f ⟨⟩
  · rintro f ⟨⟩

/-! ## Wake-ups -/

/-- The worker is about to call `tickle`. -/
def Phase.aboutToTickle : Phase → Bool
  | .tickle _ | .retickle => true
  | _ => false

/-- The worker is awake and on its way to the scan of the queue. -/
def Phase.aboutToScan : Phase → Bool
  | .scan | .leaving _ _ | .left _ _ | .settle _ _ | .requeue _ _ | .hold _ _
  | .recycle _ | .drop | .woken | .leftIdle => true
  | _ => false

/-- The worker has scanned the queue in vain and waits, or is about to. -/
def Phase.waits : Phase → Bool
  | .rest | .enterIdle | .idle | .blocked => true
  | _ => false

/-- A byte is in the pipe, or someone will see to it. -/
def Announced (s : Scheduler) : Prop :=
  0 < s.pipe ∨ (∃ c, s.callers c = true) ∨
    ∃ w, (s.workers w).phase.aboutToTickle = true ∨ (s.workers w).phase.aboutToScan = true

/-- No worker waits for an entry it could take. -/
def Heard (s : Scheduler) : Prop :=
  ∀ w ft, (s.workers w).phase.waits = true → ft ∈ s.fibers → Takeable s.state w ft →
    s.Announced

/-- Worker `w` could take something from the queue. -/
def Wanted (s : Scheduler) (w : ℕ) : Prop := ∃ ft ∈ s.fibers, Takeable s.state w ft

/-- The step is none of those by which a wake-up is lost. -/
def Heeded (s : Scheduler) : Label → Prop
  | .schedule _ jobs =>
      s.fibers = [] ∨ s.Announced ∨
        ∀ w job thread, (s.workers w).phase.waits = true → (some job, thread) ∈ jobs →
          ¬Takeable s.state w ⟨job, thread, s.tickets⟩
  | .tickle _ =>
      0 < s.idleThreadCount ∨ ∀ w, (s.workers w).phase = .rest → ¬s.Wanted w
  | .work w =>
      (∃ ft, (s.workers w).phase = .tickle ft) →
        0 < s.idleThreadCount ∨
          ∀ v, (s.workers v).phase = .rest ∨ (s.workers v).phase = .tickle none →
            ¬s.Wanted v
  | _ => True

theorem executing_mono {state state' : ℕ → FiberState}
    (h : ∀ f, state f = .EXEC → state' f = .EXEC) {ft : FiberAndThread}
    (hft : executing state' ft = false) : executing state ft = false := by
  unfold executing at hft ⊢
  split
  case h_1 f hjob =>
    simp only [hjob, decide_eq_false_iff_not] at hft ⊢
    exact fun hf => hft (h f hf)
  · rfl

theorem Heard.of_announces {s : Scheduler} {w : ℕ}
    (h : (s.workers w).phase.aboutToTickle = true ∨
      (s.workers w).phase.aboutToScan = true) : s.Heard :=
  fun _ _ _ _ _ => Or.inr (Or.inr ⟨w, h⟩)

theorem Heard.of_goto {s : Scheduler} {w : ℕ} {p : Phase}
    (h : p.aboutToTickle = true ∨ p.aboutToScan = true) : (s.goto w p).Heard := by
  apply Heard.of_announces (w := w)
  rw [phase_goto]
  exact h

/-- A worker that announces nothing takes a step by which it does not begin to wait,
and no entry becomes takeable. -/
theorem Heard.move {s s' : Scheduler} {w : ℕ} {worker : Worker} (hs : s.Heard)
    (hworkers : s'.workers = Function.update s.workers w worker)
    (hpipe : s'.pipe = s.pipe) (hcallers : s'.callers = s.callers)
    (hfibers : s'.fibers = s.fibers)
    (hstate : ∀ f, s.state f = .EXEC → s'.state f = .EXEC)
    (hold : (s.workers w).phase.aboutToTickle = false ∧
      (s.workers w).phase.aboutToScan = false)
    (hwaits : worker.phase.waits = true → (s.workers w).phase.waits = true) :
    s'.Heard := by
  intro v ft hv hft htake
  have hv' : (s.workers v).phase.waits = true := by
    rw [hworkers] at hv
    by_cases hvw : v = w
    · subst hvw
      rw [Function.update_self] at hv
      exact hwaits hv
    · rw [Function.update_of_ne hvw] at hv
      exact hv
  rw [hfibers] at hft
  rcases hs v ft hv' hft ⟨htake.1, executing_mono hstate htake.2⟩ with h | ⟨c, hc⟩ | ⟨u, hu⟩
  · exact Or.inl (hpipe ▸ h)
  · exact Or.inr (Or.inl ⟨c, hcallers ▸ hc⟩)
  · have huw : u ≠ w := by
      rintro rfl
      rcases hu with hu | hu
      · exact Bool.false_ne_true (hold.1.symm.trans hu)
      · exact Bool.false_ne_true (hold.2.symm.trans hu)
    refine Or.inr (Or.inr ⟨u, ?_⟩)
    rw [hworkers, Function.update_of_ne huw]
    exact hu

theorem Announced.same {s s' : Scheduler} (hs : s.Announced)
    (hworkers : s'.workers = s.workers) (hpipe : s'.pipe = s.pipe)
    (hcallers : ∀ c, s.callers c = true → s'.callers c = true) : s'.Announced := by
  rcases hs with h | ⟨c, hc⟩ | h
  · exact Or.inl (hpipe ▸ h)
  · exact Or.inr (Or.inl ⟨c, hcallers c hc⟩)
  · exact Or.inr (Or.inr (hworkers ▸ h))

/-- The workers stay where they are, and no entry becomes takeable. -/
theorem Heard.same {s s' : Scheduler} (hs : s.Heard) (hworkers : s'.workers = s.workers)
    (hpipe : s'.pipe = s.pipe) (hcallers : s'.callers = s.callers)
    (hfibers : s'.fibers = s.fibers)
    (hstate : ∀ f, s.state f = .EXEC → s'.state f = .EXEC) : s'.Heard := by
  intro v ft hv hft htake
  rw [hworkers] at hv
  rw [hfibers] at hft
  exact (hs v ft hv hft ⟨htake.1, executing_mono hstate htake.2⟩).same hworkers hpipe
    fun c hc => hcallers ▸ hc

/-- After `tickle` with no idle worker, those who wait have not counted up. -/
theorem Heard.tickle {n : ℕ} {s s' : Scheduler}
    (hpipe : s'.pipe = s.tickle.pipe) (hidle : s'.idleThreadCount = s.idleThreadCount)
    (hcounted' : Counted n s') (hfibers : s'.fibers = s.fibers)
    (hstate : s'.state = s.state)
    (hrest : 0 < s.idleThreadCount ∨
      ∀ w, (s'.workers w).phase = .rest → ¬s.Wanted w) : s'.Heard := by
  intro w ft hw hft htake
  by_cases hpos : 0 < s.idleThreadCount
  · refine Or.inl ?_
    rw [hpipe, Scheduler.tickle, if_pos hpos]
    exact Nat.succ_pos _
  · have hnone := hrest.resolve_left hpos
    rw [← hidle] at hpos
    have hnot : (s'.workers w).phase.counted ≠ true :=
      fun hc => hpos (hcounted'.idle_pos hc)
    cases hp : (s'.workers w).phase with
    | rest => exact absurd ⟨ft, hfibers ▸ hft, hstate ▸ htake⟩ (hnone w hp)
    | enterIdle | idle | blocked =>
        rw [hp] at hnot
        exact absurd rfl hnot
    | _ =>
        rw [hp] at hw
        cases hw

theorem not_exec_reset {s : Scheduler} {f : ℕ} (g : ℕ) (h : s.state g = .EXEC) :
    (s.reset f).state g = .EXEC := by
  unfold reset
  split
  case isTrue hf =>
    have hgf : g ≠ f := by
      rintro rfl
      rw [h] at hf
      rcases hf with hf | hf | hf <;> cases hf
    simp only [setState, Function.update_of_ne hgf]
    exact h
  · exact h

theorem work_heard {n : ℕ} {s s' : Scheduler} {w : ℕ} (hs : s.Heard) (hmade : s.Made)
    (hcounted' : Counted n s') (hok : Heeded s (.work w)) (h : s.work w = some s') : s'.Heard := by
  unfold work at h
  split at h
  case h_1 hphase =>
    cases h
    -- What a scan without `tickle` leaves is executing.
    cases htickle : (scan s.state w s.fibers).tickleMe with
    | true =>
        cases htaken : (scan s.state w s.fibers).taken with
        | none =>
            rw [dequeue_none htaken, htickle]
            exact .of_goto (Or.inl rfl)
        | some ft =>
            rw [dequeue_some htaken, htickle]
            exact .of_goto (Or.inl rfl)
    | false =>
        intro v ft _ hft htake
        have hleft := scan_tickleMe htickle ft
        cases htaken : (scan s.state w s.fibers).taken with
        | none =>
            rw [dequeue_none htaken] at hft htake
            rw [scan_fibers_of_none htaken] at hleft
            exact absurd (htake.2.symm.trans (hleft hft)) Bool.false_ne_true
        | some ft' =>
            rw [dequeue_some htaken] at hft htake
            exact absurd (htake.2.symm.trans (hleft hft)) Bool.false_ne_true
  case h_2 ft hphase =>
    cases h
    obtain ⟨-, -, h₃, h₄, h₅, -⟩ := tickle_frame s
    refine .tickle rfl h₃ hcounted' h₅ h₄ ?_
    rcases hok ⟨_, hphase⟩ with hpos | hrest
    · exact Or.inl hpos
    · refine Or.inr fun v hv => hrest v (Or.inl ?_)
      rw [workers_tickle_goto] at hv
      by_cases hvw : v = w
      · subst hvw
        rw [Function.update_self] at hv
        cases hv
      · rw [Function.update_of_ne hvw] at hv
        exact hv
  case h_3 hphase =>
    cases h
    obtain ⟨-, -, h₃, h₄, h₅, -⟩ := tickle_frame s
    refine .tickle rfl h₃ hcounted' h₅ h₄ ?_
    rcases hok ⟨_, hphase⟩ with hpos | hrest
    · exact Or.inl hpos
    · refine Or.inr fun v hv => hrest v ?_
      by_cases hvw : v = w
      · exact Or.inr (hvw ▸ hphase)
      · rw [workers_tickle_goto, Function.update_of_ne hvw] at hv
        exact Or.inl hv
  case h_4 ft hphase =>
    cases h
    have hold : (s.workers w).phase.aboutToTickle = false ∧
        (s.workers w).phase.aboutToScan = false := by
      rw [hphase]
      exact ⟨rfl, rfl⟩
    unfold prepare
    split
    · split
      · exact .of_goto (Or.inr rfl)
      · refine hs.move rfl rfl rfl rfl (fun _ h => h) hold ?_
        rintro ⟨⟩
    · split
      case h_1 f _ =>
        obtain ⟨-, -, h₃, -, h₅, h₆⟩ := reset_frame s f
        refine hs.move (workers_reset_goto s f w _) h₅ h₆ h₃ not_exec_reset hold ?_
        rintro ⟨⟩
      · refine hs.move rfl rfl rfl rfl ?_ hold ?_
        · intro f hf
          have hne : f ≠ s.created := (hmade.exec f hf).ne
          simp only [setWorker, setState, Function.update_of_ne hne]
          exact hf
        · rintro ⟨⟩
  case h_5 f k hphase =>
    cases h
    unfold swapIn
    split
    · exact hs
    · refine hs.move rfl rfl rfl rfl ?_ ?_ ?_
      · intro g hg
        by_cases hgf : g = f
        · subst hgf
          simp only [Scheduler.goto, setWorker, setState, Function.update_self]
        · simp only [Scheduler.goto, setWorker, setState, Function.update_of_ne hgf]
          exact hg
      · rw [hphase]
        exact ⟨rfl, rfl⟩
      · rintro ⟨⟩
  case h_6 | h_21 => cases h
  case h_7 | h_8 | h_11 | h_12 | h_13 | h_14 | h_18 | h_19 =>
    cases h
    exact .of_goto (Or.inr rfl)
  case h_9 f k hphase =>
    cases h
    unfold look
    split
    · exact .of_goto (Or.inr rfl)
    · split
      · cases k <;> exact .of_goto (Or.inr rfl)
      · exact .of_goto (Or.inr rfl)
  case h_10 f k hphase =>
    cases h
    split
    · exact .of_goto (Or.inl rfl)
    · exact .of_goto (Or.inr rfl)
  case h_15 hphase =>
    have hold : (s.workers w).phase.aboutToTickle = false ∧
        (s.workers w).phase.aboutToScan = false := by
      rw [hphase]
      exact ⟨rfl, rfl⟩
    split at h <;> cases h
    · refine hs.move rfl rfl rfl rfl (fun _ h => h) hold ?_
      rintro ⟨⟩
    · refine hs.move rfl rfl rfl rfl (fun _ h => h) hold fun _ => ?_
      rw [hphase]
      rfl
  case h_16 hphase =>
    split at h <;> cases h
    · exact hs
    · refine hs.move rfl rfl rfl rfl (fun _ h => h) ?_ fun _ => ?_ <;> rw [hphase]
      · exact ⟨rfl, rfl⟩
      · rfl
  case h_17 hphase =>
    cases h
    refine hs.move rfl rfl rfl rfl (fun _ h => h) ?_ fun _ => ?_ <;> rw [hphase]
    · exact ⟨rfl, rfl⟩
    · rfl
  case h_20 =>
    cases h
    apply Heard.of_announces (w := w)
    simp only [setWorker, Function.update_self]
    exact Or.inr rfl

theorem scheduleAll_need {s : Scheduler} (hempty : s.fibers = []) :
    ∀ {jobs : List (Option Job × Option ℕ)}, jobs ≠ [] → (s.scheduleAll jobs).2 = true
  | (fc, thread) :: jobs, _ => by
      simp only [scheduleAll, scheduleNoLock, hempty, List.isEmpty_nil, Bool.true_or]

theorem next_heard {n : ℕ} {s s' : Scheduler} {l : Label} (hs : s.Heard) (hmade : s.Made)
    (hcounted : Counted n s') (hok : Heeded s l) (h : s.next l = some s') :
    s'.Heard := by
  cases l with
  | schedule c jobs =>
      simp only [next] at h
      split at h
      · cases h
      case isFalse hfree =>
        cases h
        obtain ⟨h₁, -, -, h₄, -, h₆, h₇⟩ := scheduleAll_frame jobs s
        simp only [Bool.or_eq_true, not_or, Bool.not_eq_true] at hfree
        intro w ft hw hft htake
        simp only [h₁, h₄] at hw htake
        -- A wake-up that is under way is not called off.
        have hcallers : ∀ c', s.callers c' = true → Function.update
            (s.scheduleAll jobs).1.callers c (s.scheduleAll jobs).2 c' = true := by
          intro c' hc'
          have hne : c' ≠ c := by
            rintro rfl
            exact Bool.false_ne_true (hfree.1.symm.trans hc')
          rw [Function.update_of_ne hne, h₇]
          exact hc'
        rcases mem_scheduleAll jobs s ft hft with hold | hnew
        · exact (hs w ft hw hold htake).same h₁ h₆ hcallers
        · rcases hok with hempty | hannounced | hnone
          · refine Or.inr (Or.inl ⟨c, ?_⟩)
            exact (Function.update_self c _ _).trans
              (scheduleAll_need hempty (List.ne_nil_of_mem hnew))
          · exact hannounced.same h₁ h₆ hcallers
          · exact absurd htake (hnone w ft.job ft.thread hw hnew)
  | tickle c =>
      simp only [next] at h
      split at h
      · cases h
        obtain ⟨h₁, -, h₃, h₄, h₅, -⟩ := tickle_frame s
        refine .tickle rfl h₃ hcounted h₅ h₄ ?_
        simp only [h₁]
        exact hok
      · cases h
  | create =>
      cases h
      refine hs.same rfl rfl rfl rfl ?_
      intro f hf
      have hne : f ≠ s.created := (hmade.exec f hf).ne
      simp only [setState, Function.update_of_ne hne]
      exact hf
  | autoStop | stop =>
      cases h
      exact hs
  | work w => exact work_heard hs hmade hcounted hok h
  | yield w y =>
      simp only [next] at h
      split at h
      · cases h
        cases y with
        | hold | ready =>
            simp only [giveBack]
            split
            · exact .of_goto (Or.inr rfl)
            · exact hs
        | term | except => exact .of_goto (Or.inr rfl)
      · cases h
  | leave w =>
      simp only [next] at h
      split at h
      · cases h
        apply Heard.of_announces (w := w)
        simp only [setWorker, Function.update_self]
        exact Or.inr rfl
      · cases h
  | drain w =>
      simp only [next] at h
      split at h
      · cases h
        exact .of_goto (Or.inr rfl)
      · cases h

theorem start_heard (n : ℕ) : (start n).Heard := by
  intro w ft _ hft
  cases hft

/-- A scan takes the entry or calls `tickle` for it, if it is one to be taken. -/
theorem dequeue_hears {s : Scheduler} {w : ℕ} {ft : FiberAndThread} (hft : ft ∈ s.fibers)
    (hexec : executing s.state ft = false) :
    ((s.dequeue w).workers w).phase = .take ft ∨
      ((s.dequeue w).workers w).phase.aboutToTickle = true := by
  cases htickle : (scan s.state w s.fibers).tickleMe with
  | true =>
      refine Or.inr ?_
      cases htaken : (scan s.state w s.fibers).taken with
      | none =>
          rw [dequeue_none htaken, phase_goto, htickle]
          rfl
      | some ft' =>
          rw [dequeue_some htaken, phase_goto, htickle]
          rfl
  | false =>
      have hleft : ft ∉ (scan s.state w s.fibers).fibers := fun hmem =>
        Bool.false_ne_true (hexec.symm.trans (scan_tickleMe htickle ft hmem))
      have htaken := (List.mem_append.mp ((scan_perm s.fibers).mem_iff.mp hft)).resolve_right
        hleft
      refine Or.inl ?_
      rw [dequeue_some (Option.mem_toList.mp htaken), phase_goto, htickle]
      rfl

/-- **No wake-up is lost.** In every run whose steps are all heeded: if the queue
holds an entry that a worker in `epoll_wait` could take, then a byte is in the pipe,
a thread is about to call `tickle`, or a worker is on its way to the scan; and that scan
takes the entry or ends in a call of `tickle`. -/
theorem reachable_heard {n : ℕ} {s : Scheduler} (h : (machine n).Reachable Heeded s) :
    (∀ w ft, (s.workers w).phase = .blocked → ft ∈ s.fibers → Takeable s.state w ft →
      0 < s.pipe ∨ (∃ c, s.callers c = true) ∨
        ∃ v, (s.workers v).phase.aboutToTickle = true ∨
          (s.workers v).phase.aboutToScan = true) ∧
    ∀ v s' ft, (s.workers v).phase = .scan → (machine n).step s (.work v) = some s' →
      ft ∈ s.fibers → executing s.state ft = false →
        (s'.workers v).phase = .take ft ∨ (s'.workers v).phase.aboutToTickle = true := by
  obtain ⟨-, -, hheard⟩ : Counted n s ∧ s.Made ∧ s.Heard := by
    apply h.invariant
    · exact ⟨start_counted n, start_made n, start_heard n⟩
    · rintro s s' l ⟨hcounted, hmade, hheard⟩ hok hstep
      have hnext := next_of_step hstep
      have hcounted' := next_counted hcounted hnext
      exact ⟨hcounted', next_made hmade hnext, next_heard hheard hmade hcounted' hok hnext⟩
  constructor
  · intro w ft hw hft htake
    apply hheard w ft _ hft htake
    rw [hw]
    rfl
  · intro v s' ft hv hstep hft hexec
    have hnext := next_of_step hstep
    simp only [next, work, hv] at hnext
    cases hnext
    exact dequeue_hears hft hexec

/-- Nothing is lost while there is nothing in the queue. -/
theorem heeded_of_nil {s : Scheduler} (h : s.fibers = []) (l : Label) : Heeded s l := by
  have hnot : ∀ w, ¬s.Wanted w := by
    rintro w ⟨ft, hft, -⟩
    rw [h] at hft
    cases hft
  cases l with
  | schedule c jobs => exact Or.inl h
  | tickle c => exact Or.inr fun w _ => hnot w
  | work w => exact fun _ => Or.inr fun v _ => hnot v
  | create | autoStop | stop | yield | leave | drain => trivial

/-- Two workers wait and a callback is scheduled: the byte is in the pipe. -/
theorem reachable_heard_blocked :
    ∃ s, (machine 2).Reachable Heeded s ∧ (s.workers 0).phase = .blocked ∧
      ⟨.cb 0, none, 0⟩ ∈ s.fibers ∧
      (0 < s.pipe ∨ (∃ c, s.callers c = true) ∨
        ∃ v, (s.workers v).phase.aboutToTickle = true ∨
          (s.workers v).phase.aboutToScan = true) := by
  obtain ⟨s, hrun, hphase, hfibers⟩ :
      ∃ s, (machine 2).Reachable
          (fun s l => s.fibers = [] ∨ l = .tickle 0 ∧ 0 < s.idleThreadCount) s ∧
        (s.workers 0).phase = .blocked ∧ s.fibers = [⟨.cb 0, none, 0⟩] :=
    Lib.Machine.exists_of_exec
      [.work 0, .work 0, .work 0, .work 0, .work 1, .work 1, .work 1, .work 1,
        .schedule 0 [(some (.cb 0), none)], .tickle 0]
      (by decide)
  have hmem : (⟨.cb 0, none, 0⟩ : FiberAndThread) ∈ s.fibers := by
    rw [hfibers]
    exact List.mem_cons_self
  have h : (machine 2).Reachable Heeded s := by
    refine hrun.mono fun s l hl => ?_
    rcases hl with hnil | ⟨rfl, hidle⟩
    · exact heeded_of_nil hnil l
    · exact Or.inl hidle
  exact ⟨s, h, hphase, hmem, (reachable_heard h).1 0 _ hphase hmem ⟨rfl, rfl⟩⟩

/-- A worker scans the queue in vain; a callback is scheduled, and `tickle` finds no
idle worker; then the worker goes to sleep. -/
theorem wakeup_lost :
    ∃ s, (machine 1).Reachable (fun _ _ => True) s ∧ (s.workers 0).phase = .blocked ∧
      s.fibers = [⟨.cb 0, none, 0⟩] ∧ Takeable s.state 0 ⟨.cb 0, none, 0⟩ ∧
      s.pipe = 0 ∧ (∀ c, s.callers c = false) ∧
      ∀ w, (s.workers w).phase = .blocked ∨ (s.workers w).phase = .gone := by
  have hrun : (machine 1).Reachable (fun _ _ => True) _ :=
    Lib.Machine.runs_of_exec
      [.work 0, .schedule 0 [(some (.cb 0), none)], .tickle 0, .work 0, .work 0, .work 0]
      rfl
  refine ⟨_, hrun, rfl, rfl, ⟨rfl, rfl⟩, rfl, ?_, ?_⟩
  · intro c
    change Function.update (Function.update (fun _ => false) 0 true) 0 false c = false
    rw [Function.update_idem]
    exact congrFun (Function.update_eq_self 0 fun _ => false) c
  · intro w
    rcases Nat.eq_zero_or_pos w with rfl | hw
    · exact Or.inl rfl
    · exact Or.inr ((reachable_counted hrun).gone w hw)

end Scheduler

end Skt
