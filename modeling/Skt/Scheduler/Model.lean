import Skt.Lib.Machine

/-!
# `Scheduler::run`

Worker threads take fibers and callbacks out of one queue. Every access to what
threads share is a step of its own: the scan of the queue under the lock, each
write of a fiber's state, each change of a counter, each `schedule` and each
`tickle`. The `idle` of a worker is that of `IOManager`, which blocks in
`epoll_wait` until a byte comes in through a pipe, or for any other reason.

Three fields are there for the proofs only: every entry of the queue gets a
`ticket`, `taken` lists who has taken which entry, and `request` is the ticket of
the entry by which a fiber is to be resumed.
-/

namespace Skt

/-- `Fiber::State`. -/
inductive FiberState
  | INIT
  | HOLD
  | EXEC
  | TERM
  | READY
  | EXCEPT
  deriving DecidableEq, Repr

/-- The state a fiber is left in by its worker. -/
def FiberState.settled : FiberState → FiberState
  | TERM => TERM
  | EXCEPT => EXCEPT
  | _ => HOLD

namespace Scheduler

/-- What is to be run: a fiber, or a callback in a fiber of the worker's own. -/
inductive Job
  | fiber (f : ℕ)
  | cb (c : ℕ)
  deriving DecidableEq, Repr

structure FiberAndThread where
  job : Job
  /-- `none` is -1 -/
  thread : Option ℕ
  ticket : ℕ
  deriving DecidableEq, Repr

/-- Where a worker is in `run`. A fiber `f` that it runs is the one of a queue
entry with ticket `k`, or the worker's `cb_fiber` if `k` is `none`. -/
inductive Phase
  /-- at the head of the loop -/
  | scan
  /-- about to call `tickle` for what is left in the queue -/
  | tickle (ft : Option FiberAndThread)
  /-- about to look at the entry it has taken -/
  | take (ft : FiberAndThread)
  /-- about to call `swapIn` -/
  | enter (f : ℕ) (k : Option ℕ)
  /-- the fiber is running -/
  | exec (f : ℕ) (k : Option ℕ)
  /-- the fiber has yielded or finished, and is about to call `swapOut` -/
  | leaving (f : ℕ) (k : Option ℕ)
  /-- back in `run`, about to count down `m_activeThreadCount` -/
  | left (f : ℕ) (k : Option ℕ)
  /-- about to look at the state the fiber is in -/
  | settle (f : ℕ) (k : Option ℕ)
  /-- about to call `schedule` for a fiber that is `READY` -/
  | requeue (f : ℕ) (k : Option ℕ)
  /-- at the end of that call, about to call `tickle` -/
  | retickle
  /-- about to set the state to `HOLD` -/
  | hold (f : ℕ) (k : Option ℕ)
  /-- about to reset its `cb_fiber` -/
  | recycle (f : ℕ)
  /-- has taken an entry with nothing to run -/
  | drop
  /-- has taken nothing, about to count up `m_idleThreadCount` -/
  | rest
  /-- about to call `swapIn` of its idle fiber -/
  | enterIdle
  /-- in `idle`, before `epoll_wait` -/
  | idle
  /-- in `epoll_wait` -/
  | blocked
  /-- behind `epoll_wait` -/
  | woken
  /-- back in `run`, about to count down `m_idleThreadCount` -/
  | leftIdle
  /-- `run` has returned -/
  | gone
  deriving DecidableEq, Repr

structure Worker where
  phase : Phase
  cbFiber : Option ℕ
  /-- the state of `idle_fiber` -/
  idleFiber : FiberState
  deriving DecidableEq, Repr

end Scheduler

open Scheduler in
/-- Fibers are numbered in the order in which they are made, `created` is the
next number; `pipe` is the number of bytes in the pipe; `callers` are the calls
of `schedule` that are about to call `tickle`. -/
structure Scheduler where
  state : ℕ → FiberState
  created : ℕ
  fibers : List FiberAndThread
  activeThreadCount : ℤ
  idleThreadCount : ℤ
  workers : ℕ → Worker
  callers : ℕ → Bool
  pipe : ℕ
  autoStop : Bool
  stopFlag : Bool
  aborted : Bool
  tickets : ℕ
  taken : List (FiberAndThread × ℕ)
  request : ℕ → Option ℕ

namespace Scheduler

def abort (s : Scheduler) : Scheduler := { s with aborted := true }

/-- `n` workers at the head of their loops. -/
def start (n : ℕ) : Scheduler where
  state _ := .INIT
  created := 0
  fibers := []
  activeThreadCount := 0
  idleThreadCount := 0
  workers w := ⟨if w < n then .scan else .gone, none, .INIT⟩
  callers _ := false
  pipe := 0
  autoStop := false
  stopFlag := false
  aborted := false
  tickets := 0
  taken := []
  request _ := none

def setState (s : Scheduler) (f : ℕ) (st : FiberState) : Scheduler :=
  { s with state := Function.update s.state f st }

def setWorker (s : Scheduler) (w : ℕ) (worker : Worker) : Scheduler :=
  { s with workers := Function.update s.workers w worker }

def goto (s : Scheduler) (w : ℕ) (phase : Phase) : Scheduler :=
  s.setWorker w { s.workers w with phase }

/-- `stopping()`. -/
def stopping (s : Scheduler) : Bool :=
  s.autoStop && s.stopFlag && s.fibers.isEmpty && s.activeThreadCount == 0

/-- `IOManager::tickle`. -/
def tickle (s : Scheduler) : Scheduler :=
  if 0 < s.idleThreadCount then { s with pipe := s.pipe + 1 } else s

/-! ## `schedule` -/

/-- A new entry at the end of the queue. -/
def push (s : Scheduler) (job : Job) (thread : Option ℕ) : Scheduler :=
  { s with
    fibers := s.fibers ++ [⟨job, thread, s.tickets⟩]
    tickets := s.tickets + 1
    request := match job with
      | .fiber f => Function.update s.request f (some s.tickets)
      | .cb _ => s.request }

/-- `scheduleNoLock`: the queue as it is then, and `need_tickle`. A null pointer
or an empty function is not put into the queue. -/
def scheduleNoLock (s : Scheduler) (fc : Option Job) (thread : Option ℕ) :
    Scheduler × Bool :=
  (match fc with
    | none => s
    | some job => s.push job thread,
   s.fibers.isEmpty)

/-- The part of `schedule` under the lock, for one job or for a range. -/
def scheduleAll : Scheduler → List (Option Job × Option ℕ) → Scheduler × Bool
  | s, [] => (s, false)
  | s, (fc, thread) :: jobs =>
      let (s, need) := s.scheduleNoLock fc thread
      let (s, need') := scheduleAll s jobs
      (s, need || need')

/-! ## The scan of the queue -/

/-- `it->thread != -1 && it->thread != GetThreadId()` -/
def FiberAndThread.forOther (ft : FiberAndThread) (w : ℕ) : Bool :=
  match ft.thread with
  | none => false
  | some t => t ≠ w

/-- `it->fiber && it->fiber->getState() == Fiber::EXEC` -/
def executing (state : ℕ → FiberState) (ft : FiberAndThread) : Bool :=
  match ft.job with
  | .fiber f => state f = .EXEC
  | .cb _ => false

structure Scan where
  tickleMe : Bool
  taken : Option FiberAndThread
  fibers : List FiberAndThread
  deriving DecidableEq, Repr

/-- The loop over `m_fibers`, by worker `w`. -/
def scan (state : ℕ → FiberState) (w : ℕ) : List FiberAndThread → Scan
  | [] => ⟨false, none, []⟩
  | ft :: fibers =>
      if ft.forOther w then
        let r := scan state w fibers
        ⟨true, r.taken, ft :: r.fibers⟩
      else if executing state ft then
        let r := scan state w fibers
        ⟨r.tickleMe, r.taken, ft :: r.fibers⟩
      else ⟨!fibers.isEmpty, some ft, fibers⟩

/-! ## The steps of a worker -/

/-- `Fiber::reset`. -/
def reset (s : Scheduler) (f : ℕ) : Scheduler :=
  if s.state f = .TERM ∨ s.state f = .INIT ∨ s.state f = .EXCEPT then s.setState f .INIT
  else s.abort

/-- The scan, and whether to call `tickle` after it. -/
def dequeue (s : Scheduler) (w : ℕ) : Scheduler :=
  let r := scan s.state w s.fibers
  let s := { s with
    fibers := r.fibers
    activeThreadCount :=
      if r.taken.isSome then s.activeThreadCount + 1 else s.activeThreadCount
    taken := match r.taken with
      | some ft => s.taken ++ [(ft, w)]
      | none => s.taken }
  if r.tickleMe then s.goto w (.tickle r.taken)
  else
    match r.taken with
    | some ft => s.goto w (.take ft)
    | none => s.goto w .rest

/-- From the entry taken to the fiber to be run. -/
def prepare (s : Scheduler) (w : ℕ) (ft : FiberAndThread) : Scheduler :=
  match ft.job with
  | .fiber f =>
      if s.state f = .TERM ∨ s.state f = .EXCEPT then s.goto w .drop
      else s.goto w (.enter f (some ft.ticket))
  | .cb _ =>
      match (s.workers w).cbFiber with
      | some f => (s.reset f).goto w (.enter f none)
      | none =>
          { s.setState s.created .INIT with created := s.created + 1 }.setWorker w
            { s.workers w with phase := .enter s.created none, cbFiber := some s.created }

/-- `Fiber::swapIn`. -/
def swapIn (s : Scheduler) (w f : ℕ) (k : Option ℕ) : Scheduler :=
  if s.state f = .EXEC then s.abort
  else { s.setState f .EXEC with request := Function.update s.request f none }.goto w
    (.exec f k)

/-- The worker's `cb_fiber` when it is done with fiber `f`: a callback's fiber
that is to be resumed is given away. -/
def dropCbFiber (s : Scheduler) (w : ℕ) (k : Option ℕ) : Scheduler :=
  match k with
  | some _ => s
  | none => s.setWorker w { s.workers w with cbFiber := none }

/-- The branches on the state of the fiber that has come back. -/
def look (s : Scheduler) (w f : ℕ) (k : Option ℕ) : Scheduler :=
  if s.state f = .READY then s.goto w (.requeue f k)
  else if s.state f = .TERM ∨ s.state f = .EXCEPT then
    match k with
    | some _ => s.goto w .scan
    | none => s.goto w (.recycle f)
  else s.goto w (.hold f k)

/-- A step of a worker that depends on no one's choice. -/
def work (s : Scheduler) (w : ℕ) : Option Scheduler :=
  match (s.workers w).phase with
  | .scan => some (s.dequeue w)
  | .tickle (some ft) => some (s.tickle.goto w (.take ft))
  | .tickle none => some (s.tickle.goto w .rest)
  | .take ft => some (s.prepare w ft)
  | .enter f k => some (s.swapIn w f k)
  | .exec _ _ => none
  | .leaving f k => some (s.goto w (.left f k))
  | .left f k =>
      some ({ s with activeThreadCount := s.activeThreadCount - 1 }.goto w (.settle f k))
  | .settle f k => some (s.look w f k)
  | .requeue f k =>
      some (((s.push (.fiber f) none).dropCbFiber w k).goto w
        (if s.fibers.isEmpty then .retickle else .scan))
  | .retickle => some (s.tickle.goto w .scan)
  | .hold f k => some (((s.setState f .HOLD).dropCbFiber w k).goto w .scan)
  | .recycle f => some ((s.reset f).goto w .scan)
  | .drop => some ({ s with activeThreadCount := s.activeThreadCount - 1 }.goto w .scan)
  | .rest =>
      if (s.workers w).idleFiber = .TERM then some (s.goto w .gone)
      else some ({ s with idleThreadCount := s.idleThreadCount + 1 }.goto w .enterIdle)
  | .enterIdle =>
      if (s.workers w).idleFiber = .EXEC then some s.abort
      else some (s.setWorker w { s.workers w with phase := .idle, idleFiber := .EXEC })
  | .idle => some (s.goto w .blocked)
  | .blocked => some (s.goto w .woken)
  | .woken => some (s.goto w .leftIdle)
  | .leftIdle =>
      some ({ s with idleThreadCount := s.idleThreadCount - 1 }.setWorker w
        { s.workers w with phase := .scan, idleFiber := (s.workers w).idleFiber.settled })
  | .gone => none

/-! ## The machine -/

/-- How a fiber gives back control. -/
inductive Yield
  /-- `YieldToHold` -/
  | hold
  /-- `YieldToReady` -/
  | ready
  /-- the function of the fiber has returned -/
  | term
  /-- it has thrown -/
  | except
  deriving DecidableEq, Repr

inductive Label
  /-- call `c` of `schedule`, the part under the lock -/
  | schedule (c : ℕ) (jobs : List (Option Job × Option ℕ))
  /-- the `tickle` of call `c` -/
  | tickle (c : ℕ)
  /-- someone makes a fiber -/
  | create
  /-- the writes of `stop` -/
  | autoStop
  | stop
  | work (w : ℕ)
  /-- the fiber on worker `w` gives back control -/
  | yield (w : ℕ) (y : Yield)
  /-- `idle` of worker `w` finds that it is to stop -/
  | leave (w : ℕ)
  /-- worker `w` reads the pipe until it is empty -/
  | drain (w : ℕ)
  deriving DecidableEq, Repr

/-- The fibers of a list of jobs exist. -/
def jobsExist (s : Scheduler) (jobs : List (Option Job × Option ℕ)) : Bool :=
  jobs.all fun (fc, _) =>
    match fc with
    | some (.fiber f) => f < s.created
    | _ => true

/-- `YieldToHold`, `YieldToReady` and the end of `MainFunc`, up to `swapOut`. -/
def giveBack (s : Scheduler) (w f : ℕ) (k : Option ℕ) : Yield → Scheduler
  | .hold => if s.state f = .EXEC then s.goto w (.leaving f k) else s.abort
  | .ready =>
      if s.state f = .EXEC then (s.setState f .READY).goto w (.leaving f k) else s.abort
  | .term => (s.setState f .TERM).goto w (.leaving f k)
  | .except => (s.setState f .EXCEPT).goto w (.leaving f k)

def next (s : Scheduler) : Label → Option Scheduler
  | .schedule c jobs =>
      if s.callers c || !s.jobsExist jobs then none
      else
        let (s, need) := s.scheduleAll jobs
        some { s with callers := Function.update s.callers c need }
  | .tickle c =>
      if s.callers c then
        some { s.tickle with callers := Function.update s.callers c false }
      else none
  | .create => some { s.setState s.created .INIT with created := s.created + 1 }
  | .autoStop => some { s with autoStop := true }
  | .stop => some { s with stopFlag := true }
  | .work w => s.work w
  | .yield w y =>
      match (s.workers w).phase with
      | .exec f k => some (s.giveBack w f k y)
      | _ => none
  | .leave w =>
      if (s.workers w).phase = .idle ∧ s.stopping = true then
        some (s.setWorker w { s.workers w with phase := .leftIdle, idleFiber := .TERM })
      else none
  | .drain w =>
      if (s.workers w).phase = .woken then
        some ({ s with pipe := 0 }.goto w .leftIdle)
      else none

/-- `n` workers, until an assertion fails. -/
def machine (n : ℕ) : Lib.Machine Scheduler Label where
  start := start n
  step s l := if s.aborted then none else s.next l

end Scheduler

end Skt
