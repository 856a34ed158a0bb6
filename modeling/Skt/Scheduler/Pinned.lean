import Skt.Scheduler.Wakeup

/-!
# Fibers with a thread id

An entry of the queue may be for one worker only. The thread id is in the entry, not in
the fiber, and the `schedule` by which `run` puts a fiber that is `READY` back into the
queue names none.
-/

namespace Skt

namespace Scheduler

namespace Phase

/-- The entry that the worker has taken and not looked at. -/
def entry : Phase → Option FiberAndThread
  | .tickle (some ft) | .take ft => some ft
  | _ => none

/-- The worker has taken fiber `f`, and is about to run it or runs it. -/
def has : Phase → ℕ → Bool
  | .tickle (some ft), f | .take ft, f => ft.job = .fiber f
  | .enter g _, f | .exec g _, f => g = f
  | _, _ => false

end Phase

/-- The fiber in which worker `w` is about to start a callback, and the thread id that
came with the callback. -/
def callback (s : Scheduler) (w : ℕ) : Option (ℕ × Option ℕ) :=
  match (s.workers w).phase with
  | .take ⟨.cb _, thread, _⟩ => some ((s.workers w).cbFiber.getD s.created, thread)
  | _ => none

/-- The entries that a step may add. -/
def Adds : Label → FiberAndThread → Prop
  | .schedule _ jobs, ft => (some ft.job, ft.thread) ∈ jobs
  | .work _, ft => ft.thread = none
  | _, _ => False

/-- Worker `w` is about to get fiber `f`: from the queue, or for a callback. -/
def Gets (s : Scheduler) (w f : ℕ) : Prop :=
  ((s.workers w).phase = .scan ∧
      ∃ ft ∈ s.fibers, ft.job = .fiber f ∧ ft.forOther w = false) ∨
    ∃ thread, s.callback w = some (f, thread)

/-- A step after which worker `w` is `worker`. -/
structure Moved (s s' : Scheduler) (l : Label) (w : ℕ) (worker : Worker) : Prop where
  workers : s'.workers = Function.update s.workers w worker
  fibers : ∀ ft ∈ s'.fibers, ft ∈ s.fibers ∨ Adds l ft
  entry : ∀ ft, worker.phase.entry = some ft →
    (s.workers w).phase.entry = some ft ∨ ft.forOther w = false
  has : ∀ f, worker.phase.has f = true → (s.workers w).phase.has f = true ∨
    l = .work w ∧ s.Gets w f

variable {s s' : Scheduler} {l : Label} {w : ℕ} {worker : Worker}

/-- The worker has at most what it had. -/
theorem Moved.goto (hworkers : s'.workers = Function.update s.workers w worker)
    (hfibers : ∀ ft ∈ s'.fibers, ft ∈ s.fibers ∨ Adds l ft)
    (hentry : worker.phase.entry = none ∨ worker.phase.entry = (s.workers w).phase.entry)
    (hhas : ∀ f, worker.phase.has f = true → (s.workers w).phase.has f = true) :
    Moved s s' l w worker := by
  refine ⟨hworkers, hfibers, ?_, fun f hf => .inl (hhas f hf)⟩
  intro ft hft
  rcases hentry with h | h
  · rw [h] at hft
    cases hft
  · exact .inl (h ▸ hft)

/-- The worker has nothing. -/
theorem Moved.empty (hworkers : s'.workers = Function.update s.workers w worker)
    (hfibers : ∀ ft ∈ s'.fibers, ft ∈ s.fibers ∨ Adds l ft)
    (hentry : worker.phase.entry = none) (hhas : ∀ f, worker.phase.has f = false) :
    Moved s s' l w worker :=
  .goto hworkers hfibers (.inl hentry) fun f hf => absurd ((hhas f).symm.trans hf)
    Bool.false_ne_true

/-- No worker moves. -/
theorem Moved.stay (w : ℕ) (hworkers : s'.workers = s.workers)
    (hfibers : ∀ ft ∈ s'.fibers, ft ∈ s.fibers ∨ Adds l ft) :
    Moved s s' l w (s.workers w) := by
  refine .goto ?_ hfibers (.inr rfl) fun _ h => h
  rw [hworkers, Function.update_eq_self]

theorem work_moved (h : s.work w = some s') : ∃ worker, Moved s s' (.work w) w worker := by
  unfold work at h
  split at h
  case h_1 hphase =>
    cases h
    cases htaken : (scan s.state w s.fibers).taken with
    | none =>
        rw [dequeue_none htaken]
        refine ⟨_, .empty rfl (fun _ h => .inl h) ?_ ?_⟩
        · split <;> rfl
        · split <;> exact fun _ => rfl
    | some ft =>
        rw [dequeue_some htaken]
        have hmem : ft ∈ s.fibers := (scan_perm s.fibers).mem_iff.mpr
          (List.mem_append_left _ (Option.mem_toList.mpr htaken))
        have hfor := (scan_takeable htaken).1
        refine ⟨_, rfl, fun _ h => .inl (mem_of_mem_scan h), ?_, ?_⟩
        · intro ft' hft'
          have : ft' = ft := by
            split at hft' <;> exact (Option.some.inj hft').symm
          exact .inr (this ▸ hfor)
        · intro f hf
          have hjob : ft.job = .fiber f := by
            split at hf <;> exact of_decide_eq_true hf
          exact .inr ⟨rfl, .inl ⟨hphase, ft, hmem, hjob, hfor⟩⟩
  case h_2 ft hphase =>
    cases h
    obtain ⟨-, -, -, -, h₅, -⟩ := tickle_frame s
    refine ⟨_, .goto (workers_tickle_goto s w _) (fun _ h => .inl (h₅ ▸ h)) (.inr ?_) ?_⟩
    · rw [hphase]
      rfl
    · rw [hphase]
      exact fun _ h => h
  case h_3 | h_11 =>
    cases h
    obtain ⟨-, -, -, -, h₅, -⟩ := tickle_frame s
    exact ⟨_, .empty (workers_tickle_goto s w _) (fun _ h => .inl (h₅ ▸ h)) rfl fun _ => rfl⟩
  case h_4 ft hphase =>
    cases h
    unfold prepare
    split
    case h_1 f hjob =>
      split
      · exact ⟨_, .empty rfl (fun _ h => .inl h) rfl fun _ => rfl⟩
      · refine ⟨_, .goto rfl (fun _ h => .inl h) (.inl rfl) ?_⟩
        rw [hphase]
        intro g hg
        rw [of_decide_eq_true hg] at hjob
        exact decide_eq_true hjob
    case h_2 c hjob =>
      have hcallback : s.callback w = some ((s.workers w).cbFiber.getD s.created, ft.thread) := by
        obtain ⟨job, thread, ticket⟩ := ft
        cases hjob
        rw [callback, hphase]
      split
      case h_1 f hcb =>
        rw [hcb] at hcallback
        obtain ⟨-, -, h₃, -⟩ := reset_frame s f
        refine ⟨_, workers_reset_goto s f w _, fun _ h => .inl (h₃ ▸ h), ?_, ?_⟩
        · rintro _ ⟨⟩
        · intro g hg
          obtain rfl := of_decide_eq_true hg
          exact .inr ⟨rfl, .inr ⟨_, hcallback⟩⟩
      case h_2 hcb =>
        rw [hcb] at hcallback
        refine ⟨_, rfl, fun _ h => .inl h, ?_, ?_⟩
        · rintro _ ⟨⟩
        · intro g hg
          obtain rfl := of_decide_eq_true hg
          exact .inr ⟨rfl, .inr ⟨_, hcallback⟩⟩
  case h_5 f k hphase =>
    cases h
    unfold swapIn
    split
    · exact ⟨_, .stay w rfl fun _ h => .inl h⟩
    · refine ⟨_, .goto rfl (fun _ h => .inl h) (.inl rfl) ?_⟩
      rw [hphase]
      exact fun _ h => h
  case h_6 | h_21 => cases h
  case h_7 | h_8 | h_14 | h_17 | h_18 | h_19 | h_20 =>
    cases h
    exact ⟨_, .empty rfl (fun _ h => .inl h) rfl fun _ => rfl⟩
  case h_9 f k hphase =>
    cases h
    unfold look
    split
    · exact ⟨_, .empty rfl (fun _ h => .inl h) rfl fun _ => rfl⟩
    · split
      · cases k <;> exact ⟨_, .empty rfl (fun _ h => .inl h) rfl fun _ => rfl⟩
      · exact ⟨_, .empty rfl (fun _ h => .inl h) rfl fun _ => rfl⟩
  case h_10 f k hphase =>
    cases h
    obtain ⟨-, -, -, h₄, -⟩ := drop_frame (s.push (.fiber f) none) w k
    refine ⟨_, .empty (workers_drop_goto (s.push (.fiber f) none) w k _) ?_ ?_ ?_⟩
    · intro ft hft
      rcases List.mem_append.mp (h₄ ▸ hft) with hft | hft
      · exact .inl hft
      · cases List.mem_singleton.mp hft
        exact .inr rfl
    · split <;> rfl
    · split <;> exact fun _ => rfl
  case h_12 f k hphase =>
    cases h
    obtain ⟨-, -, -, h₄, -⟩ := drop_frame (s.setState f .HOLD) w k
    exact ⟨_, .empty (workers_drop_goto (s.setState f .HOLD) w k _)
      (fun _ h => .inl (h₄ ▸ h)) rfl fun _ => rfl⟩
  case h_13 f hphase =>
    cases h
    obtain ⟨-, -, h₃, -⟩ := reset_frame s f
    exact ⟨_, .empty (workers_reset_goto s f w _) (fun _ h => .inl (h₃ ▸ h)) rfl fun _ => rfl⟩
  case h_15 =>
    split at h <;> cases h <;>
      exact ⟨_, .empty rfl (fun _ h => .inl h) rfl fun _ => rfl⟩
  case h_16 =>
    split at h <;> cases h
    · exact ⟨_, .stay w rfl fun _ h => .inl h⟩
    · exact ⟨_, .empty rfl (fun _ h => .inl h) rfl fun _ => rfl⟩

theorem next_moved (h : s.next l = some s') : ∃ w worker, Moved s s' l w worker := by
  cases l with
  | schedule c jobs =>
      simp only [next] at h
      split at h
      · cases h
      · cases h
        exact ⟨0, _, .stay 0 (scheduleAll_frame jobs s).1 (mem_scheduleAll jobs s)⟩
  | tickle c =>
      simp only [next] at h
      split at h
      · cases h
        obtain ⟨h₁, -, -, -, h₅, -⟩ := tickle_frame s
        exact ⟨0, _, .stay 0 h₁ fun _ h => .inl (h₅ ▸ h)⟩
      · cases h
  | create | autoStop | stop =>
      cases h
      exact ⟨0, _, .stay 0 rfl fun _ h => .inl h⟩
  | work w => exact ⟨w, work_moved h⟩
  | yield w y =>
      simp only [next] at h
      split at h
      case h_1 f k hphase =>
        cases h
        cases y with
        | hold | ready =>
            simp only [giveBack]
            split
            · exact ⟨w, _, .empty rfl (fun _ h => .inl h) rfl fun _ => rfl⟩
            · exact ⟨w, _, .stay w rfl fun _ h => .inl h⟩
        | term | except => exact ⟨w, _, .empty rfl (fun _ h => .inl h) rfl fun _ => rfl⟩
      · cases h
  | leave w | drain w =>
      simp only [next] at h
      split at h
      · cases h
        exact ⟨w, _, .empty rfl (fun _ h => .inl h) rfl fun _ => rfl⟩
      · cases h

/-! ## The thread ids that were asked for -/

/-- The thread ids that a list of jobs names for fiber `f`. -/
def named (f : ℕ) (jobs : List (Option Job × Option ℕ)) : List (Option ℕ) :=
  jobs.filterMap fun (fc, thread) => if fc = some (.fiber f) then some thread else none

/-- The thread ids of the entries for fiber `f` in the queue. -/
def queuedFor (s : Scheduler) (f : ℕ) : List (Option ℕ) :=
  s.fibers.filterMap fun ft => if ft.job = .fiber f then some ft.thread else none

/-- The workers that have fiber `f`. -/
def holders (n : ℕ) (s : Scheduler) (f : ℕ) : List (Option ℕ) :=
  ((List.range n).filter fun w => (s.workers w).phase.has f).map some

/-- The scheduler, and for each fiber the thread ids named by the calls of `schedule` for
it, as long as it has one function. A `cb_fiber` that is used again starts with the thread
id of its callback; only if it is still in the queue or in someone's hands from before
do these count as well. -/
structure Asked where
  sched : Scheduler
  asked : ℕ → List (Option ℕ)

namespace Asked

def record (n : ℕ) (p : Asked) : Label → ℕ → List (Option ℕ)
  | .schedule _ jobs => fun f => p.asked f ++ named f jobs
  | .work w =>
      match p.sched.callback w with
      | some (f, thread) =>
          Function.update p.asked f
            (thread :: (queuedFor p.sched f ++ holders n p.sched f))
      | none => p.asked
  | _ => p.asked

def machine (n : ℕ) : Lib.Machine Asked Label where
  start := ⟨Scheduler.start n, fun _ => []⟩
  step p l := ((Scheduler.machine n).step p.sched l).map fun s => ⟨s, p.record n l⟩

/-- Whoever has scheduled what is in fiber `f` has asked for thread `t`. -/
def Pinned (p : Asked) (f t : ℕ) : Prop := ∀ thread ∈ p.asked f, thread = some t

/-- While there is an entry without a thread id for a fiber that is pinned to `t`, no other
worker scans the queue. -/
def Guarded (p : Asked) : Label → Prop
  | .work w => (p.sched.workers w).phase = .scan →
      ∀ ft ∈ p.sched.fibers, ft.thread = none →
        ∀ f, ft.job = .fiber f → ∀ t, p.Pinned f t → w = t
  | _ => True

instance (p : Asked) (f t : ℕ) : Decidable (p.Pinned f t) :=
  inferInstanceAs (Decidable (∀ thread ∈ p.asked f, thread = some t))

/-- The first thread that was asked for tells which one it can be. -/
theorem forall_pinned_iff (p : Asked) (f w : ℕ) : (∀ t, p.Pinned f t → w = t) ↔
    p.asked f ≠ [] ∧ ∀ thread ∈ (p.asked f).head?, ∀ t ∈ thread, p.Pinned f t → w = t := by
  unfold Pinned
  cases p.asked f with
  | nil =>
      refine iff_of_false (fun h => ?_) fun h => h.1 rfl
      exact absurd (h (w + 1) fun _ hmem => by cases hmem) (Nat.succ_ne_self w).symm
  | cons thread threads =>
      refine ⟨fun h => ⟨List.cons_ne_nil _ _, fun _ _ t _ => h t⟩, fun h t ht => ?_⟩
      exact h.2 thread rfl t (ht thread List.mem_cons_self) ht

instance (p : Asked) (w : ℕ) (job : Job) :
    Decidable (∀ f, job = .fiber f → ∀ t, p.Pinned f t → w = t) :=
  match job with
  | .cb _ => isTrue fun _ h => nomatch h
  | .fiber f =>
      decidable_of_iff
        (p.asked f ≠ [] ∧ ∀ thread ∈ (p.asked f).head?, ∀ t ∈ thread, p.Pinned f t → w = t)
        ((p.forall_pinned_iff f w).symm.trans
          ⟨fun h _ hf => Job.fiber.inj hf ▸ h, fun h => h f rfl⟩)

instance (p : Asked) (l : Label) : Decidable (Guarded p l) := by
  cases l <;> unfold Guarded <;> infer_instance

structure Home (n : ℕ) (p : Asked) : Prop where
  gone : ∀ w, n ≤ w → (p.sched.workers w).phase = .gone
  entry : ∀ w ft, (p.sched.workers w).phase.entry = some ft → ft.forOther w = false
  queue : ∀ ft ∈ p.sched.fibers, ∀ f t, ft.job = .fiber f → p.Pinned f t →
    ft.thread = none ∨ ft.thread = some t
  has : ∀ w f t, (p.sched.workers w).phase.has f = true → p.Pinned f t → w = t

variable {n : ℕ} {p p' : Asked} {l : Label} {f t : ℕ}

theorem mem_named {jobs : List (Option Job × Option ℕ)} {thread : Option ℕ}
    (h : (some (.fiber f), thread) ∈ jobs) : thread ∈ named f jobs :=
  List.mem_filterMap.mpr ⟨_, h, by simp⟩

theorem mem_queuedFor {s : Scheduler} {ft : FiberAndThread} (h : ft ∈ s.fibers)
    (hjob : ft.job = .fiber f) : ft.thread ∈ queuedFor s f :=
  List.mem_filterMap.mpr ⟨ft, h, by simp [hjob]⟩

theorem mem_holders {s : Scheduler} {w : ℕ} (hw : w < n)
    (h : (s.workers w).phase.has f = true) : some w ∈ holders n s f :=
  List.mem_map.mpr ⟨w, List.mem_filter.mpr ⟨List.mem_range.mpr hw, h⟩, rfl⟩

/-- A step adds to what was asked for, or starts a callback in the fiber. -/
theorem record_cases (n : ℕ) (p : Asked) (l : Label) (f : ℕ) :
    (∀ thread ∈ p.asked f, thread ∈ p.record n l f) ∨
      ∃ w thread, l = .work w ∧ p.sched.callback w = some (f, thread) ∧
        p.record n l f = thread :: (queuedFor p.sched f ++ holders n p.sched f) := by
  cases l with
  | schedule c jobs => exact .inl fun thread h => List.mem_append_left _ h
  | work w =>
      cases hcb : p.sched.callback w with
      | none =>
          simp only [record, hcb]
          exact .inl fun _ h => h
      | some r =>
          obtain ⟨g, thread⟩ := r
          simp only [record, hcb]
          by_cases hfg : f = g
          · subst hfg
            exact .inr ⟨w, thread, rfl, hcb, Function.update_self ..⟩
          · rw [Function.update_of_ne hfg]
            exact .inl fun _ h => h
  | _ => exact .inl fun _ h => h

theorem lt_of_has (h : Home n p) {w : ℕ} (hhas : (p.sched.workers w).phase.has f = true) :
    w < n := by
  by_contra hge
  rw [h.gone w (Nat.not_lt.mp hge)] at hhas
  cases hhas

/-- Who had the fiber before the step has it rightly. -/
theorem Home.kept (h : Home n p) (hpin : ∀ thread ∈ p.record n l f, thread = some t) {w : ℕ}
    (hhas : (p.sched.workers w).phase.has f = true) : w = t := by
  rcases record_cases n p l f with hsub | ⟨_, _, _, _, hrecord⟩
  · exact h.has w f t hhas fun thread hmem => hpin thread (hsub thread hmem)
  · rw [hrecord] at hpin
    exact Option.some.inj (hpin (some w) (List.mem_cons_of_mem _
      (List.mem_append_right _ (mem_holders (lt_of_has h hhas) hhas))))

/-- Who gets the fiber in the step gets it rightly. -/
theorem Home.gets (h : Home n p) {w : ℕ} (hok : p.Guarded (.work w))
    (hpin : ∀ thread ∈ p.record n (.work w) f, thread = some t) (hgets : p.sched.Gets w f) :
    w = t := by
  rcases hgets with ⟨hphase, ft, hmem, hjob, hfor⟩ | ⟨thread, hcb⟩
  · have hnone : p.sched.callback w = none := by
      rw [callback, hphase]
    have hpinned : p.Pinned f t := by
      simp only [record, hnone] at hpin
      exact hpin
    rcases h.queue ft hmem f t hjob hpinned with hthread | hthread
    · exact hok hphase ft hmem hthread f hjob t hpinned
    · rw [FiberAndThread.forOther, hthread] at hfor
      exact (of_not_not (of_decide_eq_false hfor)).symm
  · have hthread : thread = some t := by
      apply hpin
      simp only [record, hcb, Function.update_self]
      exact List.mem_cons_self
    -- the entry with the callback was not for another worker
    unfold callback at hcb
    split at hcb
    case h_1 c th k hphase =>
      have hfor := h.entry w ⟨.cb c, th, k⟩ (by rw [hphase]; rfl)
      obtain ⟨-, rfl⟩ := Prod.mk.inj (Option.some.inj hcb)
      rw [hthread] at hfor
      exact (of_not_not (of_decide_eq_false hfor)).symm
    · cases hcb

theorem Home.step (h : Home n p) (hok : p.Guarded l) (hstep : (machine n).step p l = some p') :
    Home n p' := by
  obtain ⟨s', hs', rfl⟩ := Option.map_eq_some_iff.mp hstep
  have hnext := next_of_step hs'
  obtain ⟨w, worker, hmoved⟩ := next_moved hnext
  refine ⟨?_, ?_, ?_, ?_⟩
  · intro v hv
    rw [gone_of_effect hnext (h.gone v hv)]
    exact h.gone v hv
  · intro v ft hft
    simp only [hmoved.workers] at hft
    by_cases hvw : v = w
    · subst hvw
      rw [Function.update_self] at hft
      rcases hmoved.entry ft hft with hft | hfor
      · exact h.entry v ft hft
      · exact hfor
    · rw [Function.update_of_ne hvw] at hft
      exact h.entry v ft hft
  · intro ft hft f t hjob hpin
    rcases hmoved.fibers ft hft with hmem | hadds
    · rcases record_cases n p l f with hsub | ⟨_, _, _, _, hrecord⟩
      · exact h.queue ft hmem f t hjob fun thread hth => hpin thread (hsub thread hth)
      · refine .inr (hpin ft.thread ?_)
        simp only [hrecord]
        exact List.mem_cons_of_mem _ (List.mem_append_left _ (mem_queuedFor hmem hjob))
    · cases l with
      | schedule c jobs =>
          refine .inr (hpin ft.thread (List.mem_append_right _ (mem_named ?_)))
          rw [← hjob]
          exact hadds
      | work v => exact .inl hadds
      | _ => exact hadds.elim
  · intro v f t hhas hpin
    simp only [hmoved.workers] at hhas
    by_cases hvw : v = w
    · subst hvw
      rw [Function.update_self] at hhas
      rcases hmoved.has f hhas with hhas | ⟨rfl, hgets⟩
      · exact h.kept hpin hhas
      · exact h.gets hok hpin hgets
    · rw [Function.update_of_ne hvw] at hhas
      exact h.kept hpin hhas

theorem Home.start (n : ℕ) : Home n (machine n).start where
  gone w hw := if_neg (Nat.not_lt.mpr hw)
  entry w ft hft := by
    simp only [machine, Scheduler.start] at hft
    split at hft <;> cases hft
  queue ft hft := by cases hft
  has w f t hhas := by
    simp only [machine, Scheduler.start] at hhas
    split at hhas <;> cases hhas

/-- **A pinned fiber stays at home.** In every run in which no other worker scans the queue
while a pinned fiber waits there without its thread id, the fiber is run by the worker that
was asked for, in each of its segments. -/
theorem pinned_runs_home {n : ℕ} {p : Asked} (h : (machine n).Reachable Guarded p) {w f t : ℕ}
    {k : Option ℕ} (hexec : (p.sched.workers w).phase = .exec f k) (hpin : p.Pinned f t) :
    w = t := by
  have hhome : Home n p := h.invariant (Home.start n) fun hs hok hstep => hs.step hok hstep
  refine hhome.has w f t ?_ hpin
  rw [hexec]
  exact decide_eq_true rfl

/-- From the head of the loop into the fiber. -/
def enterBy (w : ℕ) : List Label := [.work w, .work w, .work w]

/-- `YieldToReady`, and the way back into the queue. -/
def yieldBy (w : ℕ) : List Label :=
  [.yield w .ready, .work w, .work w, .work w, .work w]

/-- The second segment of a fiber that was scheduled for worker 1. -/
theorem pinned_runs_home_twice :
    ∃ p, (machine 2).Reachable Guarded p ∧ p.asked 0 = [some 1] ∧
      (p.sched.workers 1).phase = .exec 0 (some 1) ∧ ∀ t, p.Pinned 0 t → 1 = t := by
  obtain ⟨p, h, hasked, hexec⟩ :
      ∃ p, (machine 2).Reachable Guarded p ∧ p.asked 0 = [some 1] ∧
        (p.sched.workers 1).phase = .exec 0 (some 1) :=
    Lib.Machine.exists_of_exec
      ([.create, .work 0, .schedule 0 [(some (.fiber 0), some 1)]] ++ enterBy 1 ++ yieldBy 1 ++
        [.work 1] ++ enterBy 1)
      (by decide)
  exact ⟨p, h, hasked, hexec, fun t hpin => pinned_runs_home h hexec hpin⟩

/-- A fiber and a callback that were scheduled for worker 0 yield once, and worker 1 runs
them. -/
theorem pin_lost :
    (∃ p, (machine 2).Reachable (fun _ _ => True) p ∧ p.asked 0 = [some 0] ∧
      (p.sched.workers 1).phase = .exec 0 (some 1)) ∧
    ∃ p, (machine 2).Reachable (fun _ _ => True) p ∧ p.sched.created = 1 ∧
      p.asked 0 = [some 0] ∧ (p.sched.workers 1).phase = .exec 0 (some 1) := by
  constructor
  · exact Lib.Machine.exists_of_exec
      ([.create, .schedule 0 [(some (.fiber 0), some 0)]] ++ enterBy 0 ++ yieldBy 0 ++
        [.work 0] ++ enterBy 1)
      (by decide)
  · exact Lib.Machine.exists_of_exec
      ([.schedule 0 [(some (.cb 7), some 0)]] ++ enterBy 0 ++ yieldBy 0 ++
        [.work 0] ++ enterBy 1)
      (by decide)

end Asked

end Scheduler

end Skt
