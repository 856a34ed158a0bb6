import Skt.Scheduler.Queue

/-!
# No fiber runs twice at a time

A fiber may be handed to `schedule` while it is still running, on its way to
`YieldToHold`. Its state is `EXEC` until its worker, behind the switch, sets it to
`HOLD`, and a scan passes by a fiber in state `EXEC`. As long as a fiber is handed
over at most once for each time it is suspended, that is enough: no two workers
run one fiber, and none is forgotten.
-/

namespace Skt

namespace Scheduler

/-! ## In whose hands a fiber is -/

inductive Loc
  | free
  /-- worker `w` has taken the entry with ticket `k`, to run the fiber -/
  | carried (w k : ℕ)
  /-- it is the `cb_fiber` of worker `w`, with nothing to run as yet -/
  | spare (w : ℕ)
  /-- from `swapIn` until worker `w` has dealt with the state it is left in -/
  | running (w : ℕ)
  deriving DecidableEq

def Loc.holder : Loc → Option ℕ
  | .free => none
  | .carried w _ | .spare w | .running w => some w

namespace Phase

/-- The fiber of an entry that the worker has taken, and its ticket. -/
def carries : Phase → Option (ℕ × ℕ)
  | .tickle (some ⟨.fiber f, _, k⟩) | .take ⟨.fiber f, _, k⟩ => some (f, k)
  | .enter f (some k) => some (f, k)
  | _ => none

/-- The fiber from `swapIn` on. -/
def runs : Phase → Option ℕ
  | .exec f _ | .leaving f _ | .left f _ | .settle f _ | .requeue f _ | .hold f _
  | .recycle f => some f
  | _ => none

/-- The same, if it is the worker's `cb_fiber`. -/
def runsOwn : Phase → Option ℕ
  | .exec f none | .leaving f none | .left f none | .settle f none | .requeue f none
  | .hold f none | .recycle f => some f
  | _ => none

/-- The `cb_fiber` before `swapIn`. -/
def starts : Phase → Option ℕ
  | .enter f none => some f
  | _ => none

/-- In what state the fiber is, and whether it may have been handed over. -/
def Stage : Phase → FiberState → Option ℕ → Prop
  | .exec _ _, st, _ | .hold _ _, st, _ => st = .EXEC
  | .leaving _ _, st, r | .left _ _, st, r | .settle _ _, st, r =>
      st = .EXEC ∨ (st = .READY ∨ st = .TERM ∨ st = .EXCEPT) ∧ r = none
  | .requeue _ _, st, r => st = .READY ∧ r = none
  | .recycle _, st, r => (st = .TERM ∨ st = .EXCEPT) ∧ r = none
  | _, _, _ => True

/-- The worker is in its idle fiber. -/
def inIdle : Phase → Bool
  | .idle | .blocked | .woken | .leftIdle => true
  | _ => false

theorem runs_of_runsOwn {p : Phase} {f : ℕ} (h : p.runsOwn = some f) :
    p.runs = some f := by
  unfold runsOwn at h
  split at h <;> first | exact h | cases h

theorem carries_of_runs {p : Phase} {f : ℕ} (h : p.runs = some f) :
    p.carries = none := by
  cases p <;> first | rfl | cases h

/-- Where the state need not be `EXEC`, the fiber has not been handed over. -/
theorem Stage.cases {p : Phase} {f : ℕ} (hruns : p.runs = some f) {st : FiberState}
    {r : Option ℕ} (h : p.Stage st r) :
    st = .EXEC ∨ (st = .READY ∨ st = .TERM ∨ st = .EXCEPT) ∧ r = none := by
  cases p <;> cases hruns
  all_goals simp only [Stage] at h
  all_goals tauto

theorem Stage.handed {p : Phase} {f : ℕ} (hruns : p.runs = some f) {st : FiberState}
    {r : Option ℕ} (h : p.Stage st r) (hst : st = .EXEC) (r' : Option ℕ) :
    p.Stage st r' := by
  subst hst
  cases p <;> cases hruns
  all_goals simp_all [Stage]

end Phase

/-- A fiber can be run from this state. -/
def Startable (st : FiberState) : Prop := st = .INIT ∨ st = .HOLD ∨ st = .READY

theorem Startable.ne_exec {st : FiberState} (h : Startable st) : st ≠ .EXEC := by
  rcases h with rfl | rfl | rfl <;> exact FiberState.noConfusion

def Queued (s : Scheduler) (f k : ℕ) : Prop :=
  ∃ ft ∈ s.fibers, ft.job = .fiber f ∧ ft.ticket = k

/-! ## The invariant -/

structure WorkerOk (s : Scheduler) (loc : ℕ → Loc) (w : ℕ) : Prop where
  carries : ∀ f k, (s.workers w).phase.carries = some (f, k) →
    loc f = .carried w k ∧ k ∈ s.taken.map fun t => t.1.ticket
  starts : ∀ f, (s.workers w).phase.starts = some f →
    (s.workers w).cbFiber = some f ∧ loc f = .spare w
  runs : ∀ f, (s.workers w).phase.runs = some f →
    loc f = .running w ∧ (s.workers w).phase.Stage (s.state f) (s.request f)
  runsOwn : ∀ f, (s.workers w).phase.runsOwn = some f → (s.workers w).cbFiber = some f
  cbFiber : ∀ f, (s.workers w).cbFiber = some f →
    loc f = .spare w ∨ (s.workers w).phase.runsOwn = some f
  idle : (s.workers w).phase.inIdle = false → (s.workers w).idleFiber ≠ .EXEC

def FiberOk (s : Scheduler) (f : ℕ) : Loc → Prop
  | .free => s.state f ≠ .EXEC ∧
      ∀ k, s.request f = some k → Startable (s.state f) ∧ s.Queued f k
  | .carried w k => s.request f = some k ∧ Startable (s.state f) ∧
      (s.workers w).phase.carries = some (f, k)
  | .spare w => s.request f = none ∧ s.state f = .INIT ∧ (s.workers w).cbFiber = some f
  | .running w => (s.workers w).phase.runs = some f ∧
      ∀ k, s.request f = some k → s.Queued f k

/-- The fiber and who holds it are as before, and if it was in the queue, it is. -/
theorem FiberOk.congr {s s' : Scheduler} {f : ℕ} {l : Loc} (h : FiberOk s f l)
    (hstate : s'.state f = s.state f) (hrequest : s'.request f = s.request f)
    (hqueued : ∀ k, s.Queued f k → s'.Queued f k)
    (hholder : ∀ w, l.holder = some w →
      (s'.workers w).phase.carries = (s.workers w).phase.carries ∧
      (s'.workers w).phase.runs = (s.workers w).phase.runs ∧
      (s'.workers w).cbFiber = (s.workers w).cbFiber) : FiberOk s' f l := by
  cases l with
  | free =>
      simp only [FiberOk] at h ⊢
      rw [hstate, hrequest]
      exact ⟨h.1, fun k hk => ⟨(h.2 k hk).1, hqueued k (h.2 k hk).2⟩⟩
  | carried w k =>
      simp only [FiberOk] at h ⊢
      rw [hstate, hrequest, (hholder w rfl).1]
      exact h
  | spare w =>
      simp only [FiberOk] at h ⊢
      rw [hstate, hrequest, (hholder w rfl).2.2]
      exact h
  | running w =>
      simp only [FiberOk] at h ⊢
      rw [hrequest, (hholder w rfl).2.1]
      exact ⟨h.1, fun k hk => hqueued k (h.2 k hk)⟩

structure Inv (s : Scheduler) (loc : ℕ → Loc) : Prop where
  worker : ∀ w, WorkerOk s loc w
  fiber : ∀ f, FiberOk s f (loc f)
  queue : ∀ ft ∈ s.fibers, ∀ f, ft.job = .fiber f → s.request f = some ft.ticket
  tickets : s.Tickets
  fresh : ∀ f, s.created ≤ f → loc f = .free ∧ s.request f = none
  running : s.aborted = false

namespace Inv

variable {s s' : Scheduler} {loc : ℕ → Loc}

/-- Worker `w` takes a step that concerns fiber `f`, which is in no one else's
hands. -/
theorem move (h : Inv s loc) {w f : ℕ} {l : Loc}
    (hheld : ∀ w', (loc f).holder = some w' → w' = w)
    (hworkers : ∀ w', w' ≠ w → s'.workers w' = s.workers w')
    (hstate : ∀ g, g ≠ f → s'.state g = s.state g)
    (hrequest : ∀ g, g ≠ f → s'.request g = s.request g)
    (hqueued : ∀ g k, g ≠ f → s.Queued g k → s'.Queued g k)
    (htaken : ∀ k, (k ∈ s.taken.map fun t => t.1.ticket) →
      k ∈ s'.taken.map fun t => t.1.ticket)
    (hworker : WorkerOk s' (Function.update loc f l) w)
    (hfiber : FiberOk s' f l)
    (hothers : ∀ g, g ≠ f → (loc g).holder = some w → FiberOk s' g (loc g))
    (hqueue : ∀ ft ∈ s'.fibers, ∀ f, ft.job = .fiber f → s'.request f = some ft.ticket)
    (htickets : s'.Tickets)
    (hcreated : ∀ g, s'.created ≤ g → s.created ≤ g ∧ g ≠ f)
    (hrun : s'.aborted = false) : Inv s' (Function.update loc f l) := by
  refine ⟨?_, ?_, hqueue, htickets, ?_, hrun⟩
  · intro w'
    by_cases hw : w' = w
    · rw [hw]
      exact hworker
    have hold := h.worker w'
    -- What is in the hands of another worker is not `f`.
    have hne : ∀ g, (loc g).holder = some w' → g ≠ f := by
      rintro g hg rfl
      exact hw (hheld w' hg)
    refine ⟨?_, ?_, ?_, ?_, ?_, ?_⟩ <;> rw [hworkers w' hw]
    · intro g k hg
      obtain ⟨hloc, hk⟩ := hold.carries g k hg
      rw [Function.update_of_ne (hne g (by rw [hloc]; rfl))]
      exact ⟨hloc, htaken k hk⟩
    · intro g hg
      obtain ⟨hcb, hloc⟩ := hold.starts g hg
      rw [Function.update_of_ne (hne g (by rw [hloc]; rfl))]
      exact ⟨hcb, hloc⟩
    · intro g hg
      obtain ⟨hloc, hstage⟩ := hold.runs g hg
      have hgf := hne g (by rw [hloc]; rfl)
      rw [Function.update_of_ne hgf, hstate g hgf, hrequest g hgf]
      exact ⟨hloc, hstage⟩
    · exact hold.runsOwn
    · intro g hg
      rcases hold.cbFiber g hg with hloc | hown
      · rw [Function.update_of_ne (hne g (by rw [hloc]; rfl))]
        exact Or.inl hloc
      · exact Or.inr hown
    · exact hold.idle
  · intro g
    by_cases hg : g = f
    · rw [hg, Function.update_self]
      exact hfiber
    rw [Function.update_of_ne hg]
    by_cases hw : (loc g).holder = some w
    · exact hothers g hg hw
    apply (h.fiber g).congr (hstate g hg) (hrequest g hg) (fun k => hqueued g k hg)
    intro w' hw'
    rw [hworkers w' (fun heq => hw (heq ▸ hw'))]
    exact ⟨rfl, rfl, rfl⟩
  · intro g hg
    obtain ⟨hlt, hgf⟩ := hcreated g hg
    rw [Function.update_of_ne hgf, hrequest g hgf]
    exact h.fresh g hlt

/-- Worker `w` goes on with the fiber it has, or with none. -/
theorem advance (h : Inv s loc) {w : ℕ} {p : Phase} {st : FiberState}
    (hworkers : s'.workers = Function.update s.workers w ⟨p, (s.workers w).cbFiber, st⟩)
    (hstate : s'.state = s.state) (hrequest : s'.request = s.request)
    (hfibers : s'.fibers = s.fibers) (htaken : s'.taken = s.taken)
    (htickets : s'.tickets = s.tickets) (hcreated : s'.created = s.created)
    (hcarries : p.carries = (s.workers w).phase.carries)
    (hstarts : p.starts = (s.workers w).phase.starts)
    (hruns : p.runs = (s.workers w).phase.runs)
    (hown : p.runsOwn = (s.workers w).phase.runsOwn)
    (hstage : ∀ f, (s.workers w).phase.runs = some f →
      p.Stage (s.state f) (s.request f))
    (hidle : p.inIdle = false → st ≠ .EXEC)
    (hrun : s'.aborted = false) : Inv s' loc := by
  have hself : s'.workers w = ⟨p, (s.workers w).cbFiber, st⟩ := by
    rw [hworkers, Function.update_self]
  have hof : ∀ w', w' ≠ w → s'.workers w' = s.workers w' := by
    intro w' hw
    rw [hworkers, Function.update_of_ne hw]
  have hqueued : ∀ g k, s.Queued g k → s'.Queued g k := by
    intro g k hg
    unfold Queued
    rw [hfibers]
    exact hg
  refine ⟨?_, ?_, ?_, h.tickets.same hfibers htaken htickets, ?_, hrun⟩
  · intro w'
    have hold := h.worker w'
    by_cases hw : w' = w
    · subst hw
      refine ⟨?_, ?_, ?_, ?_, ?_, ?_⟩ <;> rw [hself]
      · rw [hcarries, htaken]
        exact hold.carries
      · rw [hstarts]
        exact hold.starts
      · intro f hf
        rw [hruns] at hf
        rw [hstate, hrequest]
        exact ⟨(hold.runs f hf).1, hstage f hf⟩
      · rw [hown]
        exact hold.runsOwn
      · rw [hown]
        exact hold.cbFiber
      · exact hidle
    · refine ⟨?_, ?_, ?_, ?_, ?_, ?_⟩ <;> rw [hof w' hw]
      · rw [htaken]
        exact hold.carries
      · exact hold.starts
      · rw [hstate, hrequest]
        exact hold.runs
      · exact hold.runsOwn
      · exact hold.cbFiber
      · exact hold.idle
  · intro g
    apply (h.fiber g).congr (congrFun hstate g) (congrFun hrequest g) (hqueued g)
    intro w' _
    by_cases hw : w' = w
    · subst hw
      rw [hself]
      exact ⟨hcarries, hruns, rfl⟩
    · rw [hof w' hw]
      exact ⟨rfl, rfl, rfl⟩
  · rw [hfibers, hrequest]
    exact h.queue
  · rw [hcreated, hrequest]
    exact h.fresh

/-- Someone else does something to fiber `f`. -/
theorem env (h : Inv s loc) (f : ℕ) (hworkers : s'.workers = s.workers)
    (hstate : ∀ g, g ≠ f → s'.state g = s.state g)
    (hrequest : ∀ g, g ≠ f → s'.request g = s.request g)
    (hqueued : ∀ g k, s.Queued g k → s'.Queued g k)
    (htaken : s'.taken = s.taken)
    (hstage : ∀ w, (s.workers w).phase.runs = some f →
      (s.workers w).phase.Stage (s'.state f) (s'.request f))
    (hfiber : FiberOk s' f (loc f))
    (hqueue : ∀ ft ∈ s'.fibers, ∀ f, ft.job = .fiber f → s'.request f = some ft.ticket)
    (htickets : s'.Tickets)
    (hfresh : ∀ g, s'.created ≤ g → loc g = .free ∧ s'.request g = none)
    (hrun : s'.aborted = false) : Inv s' loc := by
  refine ⟨?_, ?_, hqueue, htickets, hfresh, hrun⟩
  · intro w
    have hold := h.worker w
    refine ⟨?_, ?_, ?_, ?_, ?_, ?_⟩ <;> rw [hworkers]
    · rw [htaken]
      exact hold.carries
    · exact hold.starts
    · intro g hg
      obtain ⟨hloc, hstage'⟩ := hold.runs g hg
      refine ⟨hloc, ?_⟩
      by_cases hgf : g = f
      · subst hgf
        exact hstage w hg
      · rw [hstate g hgf, hrequest g hgf]
        exact hstage'
    · exact hold.runsOwn
    · exact hold.cbFiber
    · exact hold.idle
  · intro g
    by_cases hgf : g = f
    · rw [hgf]
      exact hfiber
    apply (h.fiber g).congr (hstate g hgf) (hrequest g hgf) (hqueued g)
    intro w _
    rw [hworkers]
    exact ⟨rfl, rfl, rfl⟩

/-- Nothing that the invariant speaks of has changed. -/
theorem same (h : Inv s loc) (hworkers : s'.workers = s.workers)
    (hstate : s'.state = s.state) (hrequest : s'.request = s.request)
    (hfibers : s'.fibers = s.fibers) (htaken : s'.taken = s.taken)
    (htickets : s'.tickets = s.tickets) (hcreated : s'.created = s.created)
    (hrun : s'.aborted = false) : Inv s' loc := by
  apply h.advance (w := 0) (p := (s.workers 0).phase)
    (?_ : _ = Function.update s.workers 0 (s.workers 0)) hstate hrequest hfibers htaken htickets hcreated rfl rfl rfl rfl ?_ ?_ hrun
  · rw [hworkers]
    exact (Function.update_eq_self 0 s.workers).symm
  · intro f hf
    exact ((h.worker 0).runs f hf).2
  · exact (h.worker 0).idle

/-! ## The steps of a worker -/

/-- A worker has one fiber in hand, and its `cb_fiber`. -/
theorem spare_of_holder (h : Inv s loc) {w f g : ℕ}
    (hcarries : ∀ g k, (s.workers w).phase.carries = some (g, k) → g = f)
    (hruns : ∀ g, (s.workers w).phase.runs = some g → g = f)
    (hgf : g ≠ f) (hg : (loc g).holder = some w) : loc g = .spare w := by
  have hfiber := h.fiber g
  cases hloc : loc g with
  | free =>
      rw [hloc] at hg
      cases hg
  | carried w' k =>
      rw [hloc] at hg hfiber
      cases hg
      exact absurd (hcarries g k hfiber.2.2) hgf
  | spare w' =>
      rw [hloc] at hg
      cases hg
      rfl
  | running w' =>
      rw [hloc] at hg hfiber
      cases hg
      exact absurd (hruns g hfiber.1) hgf

/-- Worker `w`, which has fiber `f` in hand or takes it up, goes to phase `p`
with `cb` as its `cb_fiber`. -/
theorem turn (h : Inv s loc) {w f : ℕ} {l : Loc} {p : Phase} {cb : Option ℕ}
    {st : FiberState} (hworkers : s'.workers = Function.update s.workers w ⟨p, cb, st⟩)
    (hheld : ∀ w', (loc f).holder = some w' → w' = w)
    (hcarries : ∀ g k, (s.workers w).phase.carries = some (g, k) → g = f)
    (hruns : ∀ g, (s.workers w).phase.runs = some g → g = f)
    (hcb : ∀ g, g ≠ f → ((s.workers w).cbFiber = some g ↔ cb = some g))
    (hstate : ∀ g, g ≠ f → s'.state g = s.state g)
    (hrequest : ∀ g, g ≠ f → s'.request g = s.request g)
    (hqueued : ∀ g k, g ≠ f → s.Queued g k → s'.Queued g k)
    (htaken : ∀ k, (k ∈ s.taken.map fun t => t.1.ticket) →
      k ∈ s'.taken.map fun t => t.1.ticket)
    (hcarries' : ∀ g k, p.carries = some (g, k) →
      g = f ∧ l = .carried w k ∧ k ∈ s'.taken.map fun t => t.1.ticket)
    (hstarts' : ∀ g, p.starts = some g → g = f ∧ cb = some f ∧ l = .spare w)
    (hruns' : ∀ g, p.runs = some g →
      g = f ∧ l = .running w ∧ p.Stage (s'.state f) (s'.request f))
    (hown' : ∀ g, p.runsOwn = some g → cb = some g)
    (hcb' : cb = some f → l = .spare w ∨ p.runsOwn = some f)
    (hidle : p.inIdle = false → st ≠ .EXEC)
    (hfiber : FiberOk s' f l)
    (hqueue : ∀ ft ∈ s'.fibers, ∀ f, ft.job = .fiber f → s'.request f = some ft.ticket)
    (htickets : s'.Tickets)
    (hcreated : ∀ g, s'.created ≤ g → s.created ≤ g ∧ g ≠ f)
    (hrun : s'.aborted = false) : Inv s' (Function.update loc f l) := by
  have hself : s'.workers w = ⟨p, cb, st⟩ := by
    rw [hworkers, Function.update_self]
  apply h.move hheld _ hstate hrequest hqueued htaken _ hfiber _ hqueue htickets
    hcreated hrun
  · intro w' hw'
    rw [hworkers, Function.update_of_ne hw']
  · refine ⟨?_, ?_, ?_, ?_, ?_, ?_⟩ <;> rw [hself]
    · intro g k hg
      obtain ⟨rfl, hl, hk⟩ := hcarries' g k hg
      rw [Function.update_self]
      exact ⟨hl, hk⟩
    · intro g hg
      obtain ⟨rfl, hcb, hl⟩ := hstarts' g hg
      rw [Function.update_self]
      exact ⟨hcb, hl⟩
    · intro g hg
      obtain ⟨rfl, hl, hstage⟩ := hruns' g hg
      rw [Function.update_self]
      exact ⟨hl, hstage⟩
    · exact hown'
    · intro g hg
      by_cases hgf : g = f
      · subst hgf
        rw [Function.update_self]
        exact hcb' hg
      · rw [Function.update_of_ne hgf]
        rcases (h.worker w).cbFiber g ((hcb g hgf).mpr hg) with hloc | hown
        · exact Or.inl hloc
        · exact absurd (hruns g (Phase.runs_of_runsOwn hown)) hgf
    · exact hidle
  · intro g hgf hg
    have hloc := h.spare_of_holder hcarries hruns hgf hg
    have hold := h.fiber g
    rw [hloc] at hold ⊢
    refine ⟨?_, ?_, ?_⟩
    · rw [hrequest g hgf]
      exact hold.1
    · rw [hstate g hgf]
      exact hold.2.1
    · rw [hself]
      exact (hcb g hgf).mp hold.2.2

/-- An entry that a worker may take is of a fiber in no one's hands. -/
theorem free_of_takeable (h : Inv s loc) {w f : ℕ} {ft : FiberAndThread}
    (hft : ft ∈ s.fibers) (hjob : ft.job = .fiber f) (htake : Takeable s.state w ft) :
    loc f = .free := by
  have hrequest := h.queue ft hft f hjob
  have hexec : s.state f ≠ .EXEC := by
    have := htake.2
    simp only [executing, hjob, decide_eq_false_iff_not] at this
    exact this
  have hfiber := h.fiber f
  cases hloc : loc f with
  | free => rfl
  | carried w' k =>
      rw [hloc] at hfiber
      obtain ⟨-, hk⟩ := (h.worker w').carries f k hfiber.2.2
      have hk' : k = ft.ticket := Option.some.inj (hfiber.1.symm.trans hrequest)
      exact absurd (List.mem_map.mpr ⟨ft, hft, hk'.symm⟩) (h.tickets.not_mem hk)
  | spare w' =>
      rw [hloc] at hfiber
      rw [hfiber.1] at hrequest
      cases hrequest
  | running w' =>
      rw [hloc] at hfiber
      obtain ⟨-, hstage⟩ := (h.worker w').runs f hfiber.1
      rcases hstage.cases hfiber.1 with hst | ⟨-, hnone⟩
      · exact absurd hst hexec
      · rw [hnone] at hrequest
        cases hrequest

theorem queued_of_perm {ft : FiberAndThread}
    (hperm : s.fibers.Perm (ft :: s'.fibers)) {g k : ℕ} (hg : ft.job ≠ .fiber g)
    (h : s.Queued g k) : s'.Queued g k := by
  obtain ⟨ft', hft', hjob, hk⟩ := h
  rcases List.mem_cons.mp (hperm.mem_iff.mp hft') with rfl | hft'
  · exact absurd hjob hg
  · exact ⟨ft', hft', hjob, hk⟩

/-- The entry taken is that of a fiber. -/
theorem takeFiber (h : Inv s loc) {w f : ℕ} {ft : FiberAndThread} {p : Phase}
    (hphase : (s.workers w).phase = .scan) (hjob : ft.job = .fiber f)
    (htake : Takeable s.state w ft) (hperm : s.fibers.Perm (ft :: s'.fibers))
    (hworkers : s'.workers = Function.update s.workers w
      ⟨p, (s.workers w).cbFiber, (s.workers w).idleFiber⟩)
    (hp : p = .tickle (some ft) ∨ p = .take ft)
    (hstate : s'.state = s.state) (hrequest : s'.request = s.request)
    (htaken : s'.taken = s.taken ++ [(ft, w)])
    (htickets : s'.tickets = s.tickets) (hcreated : s'.created = s.created)
    (hrun : s'.aborted = false) :
    Inv s' (Function.update loc f (.carried w ft.ticket)) := by
  have hft : ft ∈ s.fibers := hperm.mem_iff.mpr (List.mem_cons_self ..)
  have hfree := h.free_of_takeable hft hjob htake
  have hreq := h.queue ft hft f hjob
  have hfiber := h.fiber f
  rw [hfree] at hfiber
  have hcarries : p.carries = some (f, ft.ticket) := by
    obtain ⟨job, thread, k⟩ := ft
    cases hjob
    rcases hp with rfl | rfl <;> rfl
  have hnone : p.runs = none ∧ p.runsOwn = none ∧ p.starts = none := by
    rcases hp with rfl | rfl <;> exact ⟨rfl, rfl, rfl⟩
  have hcb : (s.workers w).cbFiber ≠ some f := by
    intro hcb
    rcases (h.worker w).cbFiber f hcb with hloc | hown
    · rw [hfree] at hloc
      cases hloc
    · rw [hphase] at hown
      cases hown
  apply h.turn hworkers
  · intro w' hw'
    rw [hfree] at hw'
    cases hw'
  · rw [hphase]
    rintro g k ⟨⟩
  · rw [hphase]
    rintro g ⟨⟩
  · exact fun g _ => Iff.rfl
  · intro g _
    rw [hstate]
  · intro g _
    rw [hrequest]
  · intro g k hg
    apply queued_of_perm hperm
    rw [hjob]
    rintro ⟨⟩
    exact hg rfl
  · intro k hk
    rw [htaken, List.map_append]
    exact List.mem_append_left _ hk
  · intro g k hg
    rw [hcarries] at hg
    cases hg
    rw [htaken, List.map_append]
    exact ⟨rfl, rfl, List.mem_append_right _ (List.mem_singleton.mpr rfl)⟩
  · rw [hnone.2.2]
    rintro g ⟨⟩
  · rw [hnone.1]
    rintro g ⟨⟩
  · rw [hnone.2.1]
    rintro g ⟨⟩
  · exact fun hcb' => absurd hcb' hcb
  · intro _
    apply (h.worker w).idle
    rw [hphase]
    rfl
  · refine ⟨?_, ?_, ?_⟩
    · rw [hrequest]
      exact hreq
    · rw [hstate]
      exact (hfiber.2 _ hreq).1
    · rw [hworkers, Function.update_self]
      exact hcarries
  · intro ft' hft' g hg
    rw [hrequest]
    exact h.queue ft' (hperm.mem_iff.mpr (List.mem_cons_of_mem _ hft')) g hg
  · exact h.tickets.take hperm htake.1 htaken htickets
  · intro g hg
    rw [hcreated] at hg
    refine ⟨hg, ?_⟩
    rintro rfl
    rw [(h.fresh g hg).2] at hreq
    cases hreq
  · exact hrun

/-- The same for a fiber that the worker has in hand, with the queue left alone. -/
theorem handle (h : Inv s loc) {w f : ℕ} {l : Loc} {p : Phase} {cb : Option ℕ}
    {st st' : FiberState} {r : Option ℕ}
    (hworkers : s'.workers = Function.update s.workers w ⟨p, cb, st⟩)
    (hstate : s'.state = Function.update s.state f st')
    (hrequest : s'.request = Function.update s.request f r)
    (hfibers : s'.fibers = s.fibers) (htaken : s'.taken = s.taken)
    (htickets : s'.tickets = s.tickets) (hcreated : s'.created = s.created)
    (hrun : s'.aborted = false)
    (hheld : (loc f).holder = some w)
    (hcarries : ∀ g k, (s.workers w).phase.carries = some (g, k) → g = f)
    (hruns : ∀ g, (s.workers w).phase.runs = some g → g = f)
    (hcb : ∀ g, g ≠ f → ((s.workers w).cbFiber = some g ↔ cb = some g))
    (hcarries' : p.carries = none)
    (hstarts' : ∀ g, p.starts = some g → g = f ∧ cb = some f ∧ l = .spare w)
    (hruns' : ∀ g, p.runs = some g → g = f ∧ l = .running w ∧ p.Stage st' r)
    (hown' : ∀ g, p.runsOwn = some g → cb = some g)
    (hcb' : cb = some f → l = .spare w ∨ p.runsOwn = some f)
    (hidle : p.inIdle = false → st ≠ .EXEC)
    (hfiber : FiberOk s' f l)
    (hqueue : ∀ ft ∈ s.fibers, ft.job = .fiber f → r = some ft.ticket) :
    Inv s' (Function.update loc f l) := by
  apply h.turn hworkers _ hcarries hruns hcb _ _ _ _ _ hstarts' _ hown' hcb' hidle
    hfiber _ (h.tickets.same hfibers htaken htickets) _ hrun
  · intro w' hw'
    exact Option.some.inj (hw'.symm.trans hheld)
  · intro g hg
    rw [hstate, Function.update_of_ne hg]
  · intro g hg
    rw [hrequest, Function.update_of_ne hg]
  · intro g k _ hg
    unfold Queued
    rw [hfibers]
    exact hg
  · intro k hk
    rw [htaken]
    exact hk
  · rw [hcarries']
    rintro g k ⟨⟩
  · rw [hstate, hrequest, Function.update_self, Function.update_self]
    exact hruns'
  · rw [hfibers]
    intro ft hft g hg
    by_cases hgf : g = f
    · subst hgf
      rw [hrequest, Function.update_self]
      exact hqueue ft hft hg
    · rw [hrequest, Function.update_of_ne hgf]
      exact h.queue ft hft g hg
  · intro g hg
    rw [hcreated] at hg
    refine ⟨hg, ?_⟩
    rintro rfl
    rw [(h.fresh g hg).1] at hheld
    cases hheld

theorem idleFiber_ne (h : Inv s loc) {w : ℕ} {p : Phase}
    (hphase : (s.workers w).phase = p) (hp : p.inIdle = false) :
    (s.workers w).idleFiber ≠ .EXEC := by
  apply (h.worker w).idle
  rw [hphase]
  exact hp

/-- `swapIn`, of a fiber taken from the queue or of the worker's own. -/
theorem swapIn (h : Inv s loc) {w f : ℕ} {k : Option ℕ}
    (hphase : (s.workers w).phase = .enter f k) :
    ∃ loc', Inv (s.swapIn w f k) loc' := by
  have hidle := h.idleFiber_ne hphase rfl
  -- In both cases the fiber is in the hands of this worker and not in the queue.
  have hfacts : (loc f).holder = some w ∧ s.state f ≠ .EXEC ∧
      (∀ ft ∈ s.fibers, ft.job ≠ .fiber f) ∧ ((s.workers w).cbFiber = some f ↔ k = none) := by
    cases k with
    | some k =>
        obtain ⟨hloc, hk⟩ := (h.worker w).carries f k (by rw [hphase]; rfl)
        have hfiber := h.fiber f
        rw [hloc] at hfiber
        refine ⟨by rw [hloc]; rfl, hfiber.2.1.ne_exec, ?_, ?_⟩
        · intro ft hft hjob
          have heq := (h.queue ft hft f hjob).symm.trans hfiber.1
          exact h.tickets.not_mem hk (List.mem_map.mpr ⟨ft, hft, Option.some.inj heq⟩)
        · constructor
          · intro hcb
            rcases (h.worker w).cbFiber f hcb with hspare | hown
            · rw [hloc] at hspare
              cases hspare
            · rw [hphase] at hown
              cases hown
          · rintro ⟨⟩
    | none =>
        obtain ⟨hcb, hloc⟩ := (h.worker w).starts f (by rw [hphase]; rfl)
        have hfiber := h.fiber f
        rw [hloc] at hfiber
        refine ⟨by rw [hloc]; rfl, ?_, ?_, ?_⟩
        · rw [hfiber.2.1]
          exact FiberState.noConfusion
        · intro ft hft hjob
          have heq := (h.queue ft hft f hjob).symm.trans hfiber.1
          cases heq
        · exact ⟨fun _ => rfl, fun _ => hcb⟩
  obtain ⟨hheld, hstate, hqueue, hcb⟩ := hfacts
  have heq : s.swapIn w f k =
      { s.setState f .EXEC with request := Function.update s.request f none }.goto w
        (.exec f k) := by
    rw [Scheduler.swapIn, if_neg hstate]
  refine ⟨Function.update loc f (.running w), ?_⟩
  rw [heq]
  refine h.handle rfl rfl rfl rfl rfl rfl rfl h.running hheld
    ?_ ?_ ?_ ?_ ?_ ?_ ?_ ?_ ?_ ?_ ?_
  · rw [hphase]
    intro g k' hg
    cases k <;> cases hg
    rfl
  · rw [hphase]
    rintro g ⟨⟩
  · exact fun g _ => Iff.rfl
  · rfl
  · rintro g ⟨⟩
  · rintro g ⟨⟩
    exact ⟨rfl, rfl, rfl⟩
  · intro g hg
    cases k with
    | some k => cases hg
    | none =>
        cases hg
        exact hcb.mpr rfl
  · intro hcb'
    obtain rfl := hcb.mp hcb'
    exact Or.inr rfl
  · exact fun _ => hidle
  · refine ⟨?_, ?_⟩
    · simp only [goto, setWorker, Function.update_self]
      rfl
    · intro k' hk'
      simp only [goto, setWorker, Function.update_self] at hk'
      cases hk'
  · intro ft hft hjob
    exact absurd hjob (hqueue ft hft)

/-- A step of a worker with the fiber that it runs. -/
theorem handleRun (h : Inv s loc) {w f : ℕ} {l : Loc} {p : Phase} {cb : Option ℕ}
    {st : FiberState} (hruns : (s.workers w).phase.runs = some f)
    (hworkers : s'.workers =
      Function.update s.workers w ⟨p, cb, (s.workers w).idleFiber⟩)
    (hstate : s'.state = Function.update s.state f st)
    (hrequest : s'.request = s.request)
    (hfibers : s'.fibers = s.fibers) (htaken : s'.taken = s.taken)
    (htickets : s'.tickets = s.tickets) (hcreated : s'.created = s.created)
    (hrun : s'.aborted = false)
    (hinIdle : (s.workers w).phase.inIdle = false)
    (hcb : ∀ g, g ≠ f → ((s.workers w).cbFiber = some g ↔ cb = some g))
    (hcarries' : p.carries = none) (hstarts' : p.starts = none)
    (hruns' : ∀ g, p.runs = some g → g = f ∧ l = .running w ∧ p.Stage st (s.request f))
    (hown' : ∀ g, p.runsOwn = some g → cb = some g)
    (hcb' : cb = some f → l = .spare w ∨ p.runsOwn = some f)
    (hfiber : FiberOk s' f l) : Inv s' (Function.update loc f l) := by
  obtain ⟨hloc, -⟩ := (h.worker w).runs f hruns
  refine h.handle hworkers hstate ?_ hfibers htaken htickets hcreated hrun ?_ ?_ ?_ hcb
    hcarries' ?_ hruns' hown' hcb' ?_ hfiber ?_
  · rw [hrequest]
    exact (Function.update_eq_self f s.request).symm
  · rw [hloc]
    rfl
  · intro g k hg
    rw [Phase.carries_of_runs hruns] at hg
    cases hg
  · intro g hg
    exact Option.some.inj (hg.symm.trans hruns)
  · rw [hstarts']
    rintro g ⟨⟩
  · intro _
    exact (h.worker w).idle hinIdle
  · intro ft hft hjob
    exact h.queue ft hft f hjob

/-- The fiber that a worker runs is its own exactly if it has no ticket. -/
theorem cbFiber_iff (h : Inv s loc) {w f : ℕ} (hruns : (s.workers w).phase.runs = some f) :
    (s.workers w).cbFiber = some f ↔ (s.workers w).phase.runsOwn = some f := by
  constructor
  · intro hcb
    rcases (h.worker w).cbFiber f hcb with hloc | hown
    · rw [((h.worker w).runs f hruns).1] at hloc
      cases hloc
    · exact hown
  · exact (h.worker w).runsOwn f

theorem giveBack (h : Inv s loc) {w f : ℕ} {k : Option ℕ} {y : Yield}
    (hphase : (s.workers w).phase = .exec f k)
    (honce : y ≠ .hold → s.request f = none) :
    ∃ loc', Inv (s.giveBack w f k y) loc' := by
  have hruns : (s.workers w).phase.runs = some f := by rw [hphase]; rfl
  obtain ⟨hloc, hstage⟩ := (h.worker w).runs f hruns
  have hexec : s.state f = .EXEC := by
    rw [hphase] at hstage
    exact hstage
  have hfiber := h.fiber f
  rw [hloc] at hfiber
  have hidle := h.idleFiber_ne hphase rfl
  -- All but `YieldToHold` set another state.
  have hset : ∀ st, (st = .READY ∨ st = .TERM ∨ st = .EXCEPT) → s.request f = none →
      Inv ((s.setState f st).goto w (.leaving f k))
        (Function.update loc f (.running w)) := by
    intro st hst hnone
    refine h.handleRun hruns rfl rfl rfl rfl rfl rfl rfl h.running ?_ ?_ rfl rfl ?_ ?_ ?_ ?_
    · rw [hphase]
      rfl
    · exact fun g _ => Iff.rfl
    · rintro g ⟨⟩
      exact ⟨rfl, rfl, Or.inr ⟨hst, hnone⟩⟩
    · intro g hg
      apply (h.worker w).runsOwn
      rw [hphase]
      cases k <;> exact hg
    · intro hcb
      have hown := (h.cbFiber_iff hruns).mp hcb
      rw [hphase] at hown
      cases k with
      | none => exact Or.inr rfl
      | some k => cases hown
    · refine ⟨?_, ?_⟩
      · simp only [goto, setWorker, Function.update_self]
        rfl
      · exact fun k hk => hfiber.2 k hk
  cases y with
  | hold =>
      refine ⟨loc, ?_⟩
      rw [Scheduler.giveBack, if_pos hexec]
      refine h.advance rfl rfl rfl rfl rfl rfl rfl ?_ ?_ ?_ ?_ ?_ ?_ h.running
      · rw [hphase]
        rfl
      · rw [hphase]
        rfl
      · rw [hphase]
        rfl
      · rw [hphase]
        cases k <;> rfl
      · intro g hg
        rw [hphase] at hg
        cases hg
        exact Or.inl hexec
      · exact fun _ => hidle
  | ready =>
      rw [Scheduler.giveBack, if_pos hexec]
      exact ⟨_, hset .READY (Or.inl rfl) (honce Yield.noConfusion)⟩
  | term => exact ⟨_, hset .TERM (Or.inr (Or.inl rfl)) (honce Yield.noConfusion)⟩
  | except => exact ⟨_, hset .EXCEPT (Or.inr (Or.inr rfl)) (honce Yield.noConfusion)⟩

theorem look (h : Inv s loc) {w f : ℕ} {k : Option ℕ}
    (hphase : (s.workers w).phase = .settle f k) : ∃ loc', Inv (s.look w f k) loc' := by
  have hruns : (s.workers w).phase.runs = some f := by rw [hphase]; rfl
  obtain ⟨hloc, hstage⟩ := (h.worker w).runs f hruns
  have hstage' := hstage.cases hruns
  have hidle := h.idleFiber_ne hphase rfl
  -- To a phase with the same fiber.
  have hgoto : ∀ p : Phase, p.carries = none → p.starts = none → p.runs = some f →
      p.runsOwn = (s.workers w).phase.runsOwn → p.inIdle = false →
      p.Stage (s.state f) (s.request f) → Inv (s.goto w p) loc := by
    intro p hcarries hstarts hp hown hin hst
    refine h.advance rfl rfl rfl rfl rfl rfl rfl ?_ ?_ ?_ hown ?_ ?_ h.running
    · rw [hcarries, hphase]
      rfl
    · rw [hstarts, hphase]
      rfl
    · rw [hp, hphase]
      rfl
    · intro g hg
      obtain rfl := Option.some.inj (hg.symm.trans hruns)
      exact hst
    · exact fun _ => hidle
  unfold Scheduler.look
  split
  case isTrue hready =>
    refine ⟨loc, hgoto _ rfl rfl rfl (by rw [hphase]; cases k <;> rfl) rfl ⟨hready, ?_⟩⟩
    rcases hstage' with hexec | ⟨-, hnone⟩
    · rw [hready] at hexec
      cases hexec
    · exact hnone
  case isFalse hready =>
    split
    case isTrue hdone =>
      have hnone : s.request f = none := by
        rcases hstage' with hexec | ⟨-, hnone⟩
        · rw [hexec] at hdone
          rcases hdone with hdone | hdone <;> cases hdone
        · exact hnone
      cases k with
      | none => exact ⟨loc, hgoto _ rfl rfl rfl (by rw [hphase]; rfl) rfl ⟨hdone, hnone⟩⟩
      | some k =>
          refine ⟨Function.update loc f .free, ?_⟩
          have hsame : s.state = Function.update s.state f (s.state f) :=
            (Function.update_eq_self f s.state).symm
          refine h.handleRun hruns rfl hsame rfl rfl rfl rfl rfl h.running
            ?_ ?_ rfl rfl ?_ ?_ ?_ ?_
          · rw [hphase]
            rfl
          · exact fun g _ => Iff.rfl
          · rintro g ⟨⟩
          · rintro g ⟨⟩
          · intro hcb
            have hown := (h.cbFiber_iff hruns).mp hcb
            rw [hphase] at hown
            cases hown
          · refine ⟨?_, ?_⟩
            · change s.state f ≠ .EXEC
              rcases hdone with hdone | hdone <;> rw [hdone] <;> exact FiberState.noConfusion
            · intro k' hk'
              rw [show (s.goto w .scan).request f = s.request f from rfl, hnone] at hk'
              cases hk'
    case isFalse hdone =>
      refine ⟨loc, hgoto _ rfl rfl rfl (by rw [hphase]; cases k <;> rfl) rfl ?_⟩
      rcases hstage' with hexec | ⟨hst | hst, -⟩
      · exact hexec
      · exact absurd hst hready
      · exact absurd hst hdone

theorem keptCb_iff (h : Inv s loc) {w f : ℕ} {k : Option ℕ}
    (hruns : (s.workers w).phase.runs = some f)
    (hown : (s.workers w).phase.runsOwn = some f ↔ k = none) :
    (∀ g, g ≠ f → ((s.workers w).cbFiber = some g ↔
      keptCb k (s.workers w).cbFiber = some g)) ∧
    keptCb k (s.workers w).cbFiber ≠ some f := by
  have hiff := (h.cbFiber_iff hruns).trans hown
  cases k with
  | some k =>
      refine ⟨fun g _ => Iff.rfl, ?_⟩
      intro hcb
      cases hiff.mp hcb
  | none =>
      refine ⟨?_, ?_⟩
      · intro g hg
        rw [hiff.mpr rfl]
        constructor
        · intro heq
          exact absurd (Option.some.inj heq).symm hg
        · rintro ⟨⟩
      · rintro ⟨⟩

theorem hold (h : Inv s loc) {w f : ℕ} {k : Option ℕ}
    (hphase : (s.workers w).phase = .hold f k) :
    Inv (((s.setState f .HOLD).dropCbFiber w k).goto w .scan)
      (Function.update loc f .free) := by
  have hruns : (s.workers w).phase.runs = some f := by rw [hphase]; rfl
  obtain ⟨hloc, -⟩ := (h.worker w).runs f hruns
  have hfiber := h.fiber f
  rw [hloc] at hfiber
  have hown : (s.workers w).phase.runsOwn = some f ↔ k = none := by
    rw [hphase]
    cases k <;> simp [Phase.runsOwn]
  obtain ⟨hcb, hcb'⟩ := h.keptCb_iff hruns hown
  have hkeep : ∀ t : Scheduler, (t.dropCbFiber w k).state = t.state ∧
      (t.dropCbFiber w k).request = t.request ∧ (t.dropCbFiber w k).fibers = t.fibers ∧
      (t.dropCbFiber w k).taken = t.taken ∧ (t.dropCbFiber w k).tickets = t.tickets ∧
      (t.dropCbFiber w k).created = t.created ∧
      (t.dropCbFiber w k).aborted = t.aborted := by
    intro t
    cases k <;> exact ⟨rfl, rfl, rfl, rfl, rfl, rfl, rfl⟩
  obtain ⟨h₁, h₂, h₃, h₄, h₅, h₆, h₇⟩ := hkeep (s.setState f .HOLD)
  refine h.handleRun hruns (workers_drop_goto (s.setState f .HOLD) w k .scan) h₁ h₂ h₃ h₄ h₅
    h₆ (h₇.trans h.running) (by rw [hphase]; rfl) hcb rfl rfl ?_ ?_ ?_ ?_
  · rintro g ⟨⟩
  · rintro g ⟨⟩
  · exact fun heq => absurd heq hcb'
  · have hst : (((s.setState f .HOLD).dropCbFiber w k).goto w .scan).state f = .HOLD := by
      change ((s.setState f .HOLD).dropCbFiber w k).state f = .HOLD
      rw [h₁]
      exact Function.update_self _ _ _
    refine ⟨?_, ?_⟩
    · rw [hst]
      exact FiberState.noConfusion
    · intro k' hk'
      rw [hst]
      refine ⟨Or.inr (Or.inl rfl), ?_⟩
      have hk'' : s.request f = some k' := by
        rw [← hk']
        exact (congrFun h₂ f).symm
      obtain ⟨ft, hft, hjob⟩ := hfiber.2 k' hk''
      refine ⟨ft, ?_, hjob⟩
      change ft ∈ ((s.setState f .HOLD).dropCbFiber w k).fibers
      rw [h₃]
      exact hft

theorem recycle (h : Inv s loc) {w f : ℕ} (hphase : (s.workers w).phase = .recycle f) :
    Inv ((s.reset f).goto w .scan) (Function.update loc f (.spare w)) := by
  have hruns : (s.workers w).phase.runs = some f := by rw [hphase]; rfl
  obtain ⟨hloc, hstage⟩ := (h.worker w).runs f hruns
  rw [hphase] at hstage
  obtain ⟨hdone, hnone⟩ := hstage
  have hcb : (s.workers w).cbFiber = some f := by
    apply (h.worker w).runsOwn
    rw [hphase]
    rfl
  have hreset : s.reset f = s.setState f .INIT := by
    rw [reset, if_pos]
    rcases hdone with hdone | hdone
    · exact Or.inl hdone
    · exact Or.inr (Or.inr hdone)
  rw [hreset]
  refine h.handleRun hruns rfl rfl rfl rfl rfl rfl rfl h.running (by rw [hphase]; rfl) ?_
    rfl rfl ?_ ?_ ?_ ?_
  · exact fun g _ => Iff.rfl
  · rintro g ⟨⟩
  · rintro g ⟨⟩
  · exact fun _ => Or.inl rfl
  · refine ⟨hnone, ?_, ?_⟩
    · simp only [goto, setWorker, setState, Function.update_self]
    · simp only [goto, setWorker, Function.update_self]
      exact hcb

/-- A fiber that has yielded with `YieldToReady` goes back into the queue. -/
theorem requeue (h : Inv s loc) {w f : ℕ} {k : Option ℕ} {p : Phase}
    (hphase : (s.workers w).phase = .requeue f k) (hp : p = .retickle ∨ p = .scan) :
    Inv (((s.push (.fiber f) none).dropCbFiber w k).goto w p)
      (Function.update loc f .free) := by
  have hruns : (s.workers w).phase.runs = some f := by rw [hphase]; rfl
  obtain ⟨hloc, hstage⟩ := (h.worker w).runs f hruns
  rw [hphase] at hstage
  obtain ⟨hready, hnone⟩ := hstage
  have hown : (s.workers w).phase.runsOwn = some f ↔ k = none := by
    rw [hphase]
    cases k <;> simp [Phase.runsOwn]
  obtain ⟨hcb, hcb'⟩ := h.keptCb_iff hruns hown
  have hempty : p.carries = none ∧ p.starts = none ∧ p.runs = none ∧ p.runsOwn = none := by
    rcases hp with rfl | rfl <;> exact ⟨rfl, rfl, rfl, rfl⟩
  have hstate : (((s.push (.fiber f) none).dropCbFiber w k).goto w p).state = s.state := by
    cases k <;> rfl
  have hrequest : (((s.push (.fiber f) none).dropCbFiber w k).goto w p).request =
      Function.update s.request f (some s.tickets) := by
    cases k <;> rfl
  have hfibers : (((s.push (.fiber f) none).dropCbFiber w k).goto w p).fibers =
      s.fibers ++ [⟨.fiber f, none, s.tickets⟩] := by
    cases k <;> rfl
  have htaken : (((s.push (.fiber f) none).dropCbFiber w k).goto w p).taken =
      s.taken := by
    cases k <;> rfl
  have htickets : (((s.push (.fiber f) none).dropCbFiber w k).goto w p).tickets =
      s.tickets + 1 := by
    cases k <;> rfl
  have hcreated : (((s.push (.fiber f) none).dropCbFiber w k).goto w p).created =
      s.created := by
    cases k <;> rfl
  have hrun : (((s.push (.fiber f) none).dropCbFiber w k).goto w p).aborted = false := by
    cases k <;> exact h.running
  refine h.turn (workers_drop_goto (s.push (.fiber f) none) w k p) ?_ ?_ ?_ hcb ?_ ?_ ?_ ?_ ?_ ?_
    ?_ ?_ ?_ ?_ ?_ ?_ ?_ ?_ hrun
  · intro w' hw'
    rw [hloc] at hw'
    exact (Option.some.inj hw').symm
  · rw [hphase]
    rintro g k ⟨⟩
  · intro g hg
    exact Option.some.inj (hg.symm.trans hruns)
  · intro g _
    rw [hstate]
  · intro g hg
    rw [hrequest, Function.update_of_ne hg]
  · rintro g k' _ ⟨ft, hft, hjob⟩
    refine ⟨ft, ?_, hjob⟩
    rw [hfibers]
    exact List.mem_append_left _ hft
  · intro k' hk'
    rw [htaken]
    exact hk'
  · rw [hempty.1]
    rintro g k ⟨⟩
  · rw [hempty.2.1]
    rintro g ⟨⟩
  · rw [hempty.2.2.1]
    rintro g ⟨⟩
  · rw [hempty.2.2.2]
    rintro g ⟨⟩
  · exact fun heq => absurd heq hcb'
  · exact fun _ => h.idleFiber_ne hphase rfl
  · refine ⟨?_, ?_⟩
    · rw [hstate, hready]
      exact FiberState.noConfusion
    · intro k' hk'
      rw [hrequest, Function.update_self] at hk'
      cases hk'
      rw [hstate]
      refine ⟨Or.inr (Or.inr hready), ⟨.fiber f, none, s.tickets⟩, ?_, rfl, rfl⟩
      rw [hfibers]
      exact List.mem_append_right _ (List.mem_singleton.mpr rfl)
  · intro ft hft g hg
    rw [hfibers] at hft
    rcases List.mem_append.mp hft with hft | hft
    · have hgf : g ≠ f := by
        intro hgf
        rw [← hgf, h.queue ft hft g hg] at hnone
        cases hnone
      rw [hrequest, Function.update_of_ne hgf]
      exact h.queue ft hft g hg
    · obtain rfl := List.mem_singleton.mp hft
      cases hg
      rw [hrequest, Function.update_self]
  · exact (h.tickets.push (.fiber f) none).same hfibers htaken htickets
  · intro g hg
    rw [hcreated] at hg
    refine ⟨hg, ?_⟩
    rintro rfl
    rw [(h.fresh g hg).1] at hloc
    cases hloc

/-- From one phase to another without a fiber in hand. -/
theorem gotoIdle (h : Inv s loc) {w : ℕ} {p : Phase} {st : FiberState}
    (hold : (s.workers w).phase.carries = none ∧ (s.workers w).phase.starts = none ∧
      (s.workers w).phase.runs = none)
    (hnew : p.carries = none ∧ p.starts = none ∧ p.runs = none)
    (hworkers : s'.workers = Function.update s.workers w ⟨p, (s.workers w).cbFiber, st⟩)
    (hstate : s'.state = s.state) (hrequest : s'.request = s.request)
    (hfibers : s'.fibers = s.fibers) (htaken : s'.taken = s.taken)
    (htickets : s'.tickets = s.tickets) (hcreated : s'.created = s.created)
    (hidle : p.inIdle = false → st ≠ .EXEC) (hrun : s'.aborted = false) :
    Inv s' loc := by
  have hown : ∀ q : Phase, q.runs = none → q.runsOwn = none := by
    intro q hq
    cases hq' : q.runsOwn with
    | none => rfl
    | some f =>
        rw [Phase.runs_of_runsOwn hq'] at hq
        cases hq
  refine h.advance hworkers hstate hrequest hfibers htaken htickets hcreated
    (hnew.1.trans hold.1.symm) (hnew.2.1.trans hold.2.1.symm)
    (hnew.2.2.trans hold.2.2.symm)
    ((hown p hnew.2.2).trans (hown _ hold.2.2).symm) ?_ hidle hrun
  intro f hf
  rw [hold.2.2] at hf
  cases hf

/-- The entry taken is a callback. -/
theorem takeCb (h : Inv s loc) {w c : ℕ} {ft : FiberAndThread} {p : Phase}
    (hphase : (s.workers w).phase = .scan) (hjob : ft.job = .cb c)
    (htake : Takeable s.state w ft) (hperm : s.fibers.Perm (ft :: s'.fibers))
    (hworkers : s'.workers = Function.update s.workers w
      ⟨p, (s.workers w).cbFiber, (s.workers w).idleFiber⟩)
    (hp : p = .tickle (some ft) ∨ p = .take ft)
    (hstate : s'.state = s.state) (hrequest : s'.request = s.request)
    (htaken : s'.taken = s.taken ++ [(ft, w)])
    (htickets : s'.tickets = s.tickets) (hcreated : s'.created = s.created)
    (hrun : s'.aborted = false) : Inv s' loc := by
  -- First the queue, then the phase.
  let t : Scheduler := { s with fibers := s'.fibers, taken := s'.taken }
  have ht : Inv t loc := by
    refine ⟨?_, ?_, ?_, h.tickets.take hperm htake.1 htaken rfl, h.fresh, h.running⟩
    · intro w'
      have hold := h.worker w'
      refine ⟨?_, hold.starts, hold.runs, hold.runsOwn, hold.cbFiber, hold.idle⟩
      intro f k hf
      obtain ⟨hloc, hk⟩ := hold.carries f k hf
      refine ⟨hloc, ?_⟩
      change k ∈ s'.taken.map _
      rw [htaken, List.map_append]
      exact List.mem_append_left _ hk
    · intro g
      refine (h.fiber g).congr rfl rfl ?_ (fun _ _ => ⟨rfl, rfl, rfl⟩)
      intro k hg
      apply queued_of_perm hperm _ hg
      rw [hjob]
      rintro ⟨⟩
    · intro ft' hft'
      exact h.queue ft' (hperm.mem_iff.mpr (List.mem_cons_of_mem _ hft'))
  have hempty : p.carries = none ∧ p.starts = none ∧ p.runs = none := by
    obtain ⟨job, thread, k⟩ := ft
    cases hjob
    rcases hp with rfl | rfl <;> exact ⟨rfl, rfl, rfl⟩
  refine ht.gotoIdle ?_ hempty hworkers hstate hrequest rfl rfl htickets hcreated ?_ hrun
  · rw [show t.workers = s.workers from rfl, hphase]
    exact ⟨rfl, rfl, rfl⟩
  · exact fun _ => h.idleFiber_ne hphase rfl

theorem dequeue (h : Inv s loc) {w : ℕ} (hphase : (s.workers w).phase = .scan) :
    ∃ loc', Inv (s.dequeue w) loc' := by
  have hperm : s.fibers.Perm ((scan s.state w s.fibers).taken.toList ++
      (scan s.state w s.fibers).fibers) := scan_perm s.fibers
  cases htaken : (scan s.state w s.fibers).taken with
  | none =>
      refine ⟨loc, ?_⟩
      rw [dequeue_none htaken]
      refine h.gotoIdle (by rw [hphase]; exact ⟨rfl, rfl, rfl⟩) ?_ rfl rfl rfl rfl rfl rfl
        rfl (fun _ => h.idleFiber_ne hphase rfl) h.running
      split <;> exact ⟨rfl, rfl, rfl⟩
  | some ft =>
      have htake := scan_takeable htaken
      rw [htaken] at hperm
      rw [dequeue_some htaken]
      have hp : (if (scan s.state w s.fibers).tickleMe then Phase.tickle (some ft)
          else .take ft) = .tickle (some ft) ∨
          (if (scan s.state w s.fibers).tickleMe then Phase.tickle (some ft)
          else .take ft) = .take ft := by
        split
        · exact Or.inl rfl
        · exact Or.inr rfl
      cases hjob : ft.job with
      | fiber f =>
          exact ⟨_, h.takeFiber hphase hjob htake hperm rfl hp rfl rfl rfl rfl rfl h.running⟩
      | cb c =>
          exact ⟨_, h.takeCb hphase hjob htake hperm rfl hp rfl rfl rfl rfl rfl h.running⟩

/-- From the entry to the fiber: it is there, or is the worker's own. -/
theorem prepare (h : Inv s loc) {w : ℕ} {ft : FiberAndThread}
    (hphase : (s.workers w).phase = .take ft) : ∃ loc', Inv (s.prepare w ft) loc' := by
  obtain ⟨job, thread, k⟩ := ft
  have hidle := h.idleFiber_ne hphase rfl
  cases job with
  | fiber f =>
      obtain ⟨hloc, -⟩ := (h.worker w).carries f k (by rw [hphase]; rfl)
      have hfiber := h.fiber f
      rw [hloc] at hfiber
      have hgo : ¬(s.state f = .TERM ∨ s.state f = .EXCEPT) := by
        rcases hfiber.2.1 with hst | hst | hst <;> rw [hst] <;> simp
      refine ⟨loc, ?_⟩
      simp only [Scheduler.prepare, if_neg hgo]
      refine h.advance rfl rfl rfl rfl rfl rfl rfl ?_ ?_ ?_ ?_ ?_ (fun _ => hidle) h.running
      · rw [hphase]
        rfl
      · rw [hphase]
        rfl
      · rw [hphase]
        rfl
      · rw [hphase]
        rfl
      · rw [hphase]
        rintro g ⟨⟩
  | cb c =>
      simp only [Scheduler.prepare]
      cases hcb : (s.workers w).cbFiber with
      | some f =>
          have hloc : loc f = .spare w := by
            rcases (h.worker w).cbFiber f hcb with hloc | hown
            · exact hloc
            · rw [hphase] at hown
              cases hown
          have hfiber := h.fiber f
          rw [hloc] at hfiber
          have hreset : s.reset f = s.setState f .INIT := by
            rw [reset, if_pos (Or.inr (Or.inl hfiber.2.1))]
          dsimp only
          rw [hreset]
          refine ⟨Function.update loc f (.spare w), ?_⟩
          have hsame : s.request = Function.update s.request f (s.request f) :=
            (Function.update_eq_self f s.request).symm
          refine h.handle rfl rfl hsame rfl rfl rfl rfl h.running (by rw [hloc]; rfl) ?_ ?_
            (fun g _ => Iff.rfl) rfl ?_ ?_ ?_ ?_ (fun _ => hidle) ?_ ?_
          · rw [hphase]
            rintro g k ⟨⟩
          · rw [hphase]
            rintro g ⟨⟩
          · rintro g ⟨⟩
            exact ⟨rfl, hcb, rfl⟩
          · rintro g ⟨⟩
          · rintro g ⟨⟩
          · exact fun _ => Or.inl rfl
          · refine ⟨hfiber.1, ?_, ?_⟩
            · simp only [goto, setWorker, setState, Function.update_self]
            · simp only [goto, setWorker, Function.update_self]
              exact hcb
          · exact fun ft hft hjob => h.queue ft hft f hjob
      | none =>
          obtain ⟨hfree, hnone⟩ := h.fresh s.created le_rfl
          refine ⟨Function.update loc s.created (.spare w), ?_⟩
          dsimp only
          refine h.turn rfl ?_ ?_ ?_ ?_ ?_ ?_ ?_ ?_ ?_ ?_ ?_ ?_ ?_ (fun _ => hidle) ?_ ?_ ?_ ?_
            h.running
          · intro w' hw'
            rw [hfree] at hw'
            cases hw'
          · rw [hphase]
            rintro g k ⟨⟩
          · rw [hphase]
            rintro g ⟨⟩
          · intro g hg
            rw [hcb]
            constructor
            · rintro ⟨⟩
            · intro heq
              exact absurd (Option.some.inj heq).symm hg
          · intro g hg
            exact Function.update_of_ne hg _ _
          · exact fun g _ => rfl
          · exact fun g k _ hg => hg
          · exact fun k hk => hk
          · rintro g k ⟨⟩
          · rintro g ⟨⟩
            exact ⟨rfl, rfl, rfl⟩
          · rintro g ⟨⟩
          · rintro g ⟨⟩
          · exact fun _ => Or.inl rfl
          · refine ⟨hnone, ?_, ?_⟩
            · simp only [setWorker, setState, Function.update_self]
            · simp only [setWorker, Function.update_self]
          · exact h.queue
          · exact h.tickets.same rfl rfl rfl
          · intro g hg
            exact ⟨Nat.le_of_succ_le hg, fun heq => absurd heq (Nat.ne_of_gt hg)⟩

end Inv

end Scheduler

end Skt
