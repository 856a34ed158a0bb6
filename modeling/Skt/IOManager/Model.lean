import Skt.Lib.Machine

/-!
# `IOManager`

The registration calls and the dispatch of `IOManager::idle`. What happens under
`fd_ctx->mutex` is one step; looking up the `FdContext` of an fd and, in
`addEvent`, making the vector longer are steps of their own. The threads take
their steps in any order. An assertion that fails ends the process.

Two fields are there for the proofs only: `added` lists the calls of `addEvent`
that succeeded, and a `ticket` is a place in that list.
-/

namespace Skt

/-- A single event; a mask of events is an `Events`. -/
inductive Event
  | READ
  | WRITE
  deriving DecidableEq, Repr

instance : Fintype Event := ⟨{.READ, .WRITE}, by intro e; cases e <;> decide⟩

/-- The mask `events`: `READ` is `EPOLLIN` and `WRITE` is `EPOLLOUT`. -/
structure Events where
  read : Bool
  write : Bool
  deriving DecidableEq, Repr

namespace Events

def none : Events := ⟨false, false⟩

def has (m : Events) : Event → Bool
  | .READ => m.read
  | .WRITE => m.write

/-- `m | event` -/
def add (m : Events) : Event → Events
  | .READ => { m with read := true }
  | .WRITE => { m with write := true }

/-- `m & ~event` -/
def del (m : Events) : Event → Events
  | .READ => { m with read := false }
  | .WRITE => { m with write := false }

/-- `m & r` -/
def inter (m r : Events) : Events := ⟨m.read && r.read, m.write && r.write⟩

/-- `m & ~r` -/
def diff (m r : Events) : Events := ⟨m.read && !r.read, m.write && !r.write⟩

def count (m : Events) : ℕ := m.read.toNat + m.write.toNat

end Events

/-- `FdContext::EventContext`. -/
structure EventContext where
  scheduler : Option ℕ
  fiber : Option ℕ
  cb : Option ℕ
  ticket : ℕ
  deriving DecidableEq, Repr

def EventContext.empty : EventContext := ⟨.none, .none, .none, 0⟩

/-- `!scheduler && !fiber && !cb` -/
def EventContext.isEmpty (c : EventContext) : Bool :=
  c.scheduler.isNone && c.fiber.isNone && c.cb.isNone

structure FdContext where
  fd : ℕ
  read : EventContext
  write : EventContext
  events : Events
  deriving DecidableEq, Repr

namespace FdContext

def new (fd : ℕ) : FdContext := ⟨fd, .empty, .empty, .none⟩

def getContext (ctx : FdContext) : Event → EventContext
  | .READ => ctx.read
  | .WRITE => ctx.write

def setContext (ctx : FdContext) (c : EventContext) : Event → FdContext
  | .READ => { ctx with read := c }
  | .WRITE => { ctx with write := c }

end FdContext

/-- An entry of a scheduler's queue, put there by `triggerEvent`. -/
structure Task where
  scheduler : ℕ
  fiber : Option ℕ
  cb : Option ℕ
  ticket : ℕ
  deriving DecidableEq, Repr

/-- The interest of an epoll instance in an fd: the events and `data.ptr`. -/
structure Interest where
  events : Events
  ptr : ℕ
  deriving DecidableEq, Repr

inductive EpollOp
  | ADD
  | MOD
  | DEL
  deriving DecidableEq, Repr

/-- `epoll_ctl`: it can fail for reasons of the kernel's own (`ok` is `false`),
and it does fail if the fd is there for `ADD` or is not there for the others. -/
def epollCtl (ok : Bool) (op : EpollOp) (fd : ℕ) (i : Interest)
    (interest : ℕ → Option Interest) : Option (ℕ → Option Interest) :=
  if ok then
    match op, interest fd with
    | .ADD, .none => some (Function.update interest fd (some i))
    | .ADD, some _ => .none
    | .MOD, some _ => some (Function.update interest fd (some i))
    | .MOD, .none => .none
    | .DEL, some _ => some (Function.update interest fd .none)
    | .DEL, .none => .none
  else .none

/-- Who calls `addEvent`: `Scheduler::GetThis()`, `Fiber::GetThis()` and the
callback handed over. -/
structure Caller where
  scheduler : ℕ
  fiber : ℕ
  cb : Option ℕ
  deriving DecidableEq, Repr

/-- An `IOManager`. A pointer to an `FdContext` is its number in the order of
allocation; `next` is the next one. -/
structure IOManager where
  contexts : ℕ → FdContext
  next : ℕ
  fdContexts : List ℕ
  pendingEventCount : ℤ
  interest : ℕ → Option Interest
  queue : List Task
  added : List Caller
  deleted : List ℕ
  aborted : Bool

namespace IOManager

def abort (s : IOManager) : IOManager := { s with aborted := true }

/-- `contextResize(size)`. -/
def contextResize (s : IOManager) (size : ℕ) : IOManager :=
  let old := s.fdContexts.length
  let grow := size - old
  { s with
    fdContexts := s.fdContexts.take size ++ (List.range grow).map (s.next + ·)
    contexts := fun p =>
      if s.next ≤ p ∧ p < s.next + grow then .new (old + (p - s.next))
      else s.contexts p
    next := s.next + grow }

/-- The constructor, without the pipe that wakes up `epoll_wait`. -/
def new : IOManager :=
  contextResize
    { contexts := fun _ => .new 0, next := 0, fdContexts := []
      pendingEventCount := 0, interest := fun _ => .none, queue := []
      added := [], deleted := [], aborted := false } 32

def setCtx (s : IOManager) (p : ℕ) (ctx : FdContext) : IOManager :=
  { s with contexts := Function.update s.contexts p ctx }

/-! ## Under the mutex of an `FdContext` -/

/-- `FdContext::triggerEvent`. The callback or the fiber is swapped into the
queue; a null scheduler would be dereferenced. -/
def triggerEvent (s : IOManager) (p : ℕ) (event : Event) : IOManager :=
  let ctx := s.contexts p
  if s.aborted then s
  else if ctx.events.has event then
    let c := ctx.getContext event
    match c.scheduler with
    | .none => s.abort
    | some scheduler =>
        let task : Task :=
          if c.cb.isSome then ⟨scheduler, .none, c.cb, c.ticket⟩
          else ⟨scheduler, c.fiber, .none, c.ticket⟩
        let c' : EventContext :=
          if c.cb.isSome then { c with scheduler := .none, cb := .none }
          else { c with scheduler := .none, fiber := .none }
        { s.setCtx p ({ ctx with events := ctx.events.del event }.setContext c' event)
          with queue := if task.fiber.isSome || task.cb.isSome then s.queue ++ [task]
                        else s.queue }
  else s.abort

/-- `triggerEvent(event); --m_pendingEventCount;` -/
def fire (s : IOManager) (p : ℕ) (event : Event) : IOManager :=
  let s := s.triggerEvent p event
  { s with pendingEventCount := s.pendingEventCount - 1 }

/-- What `addEvent` does once `epoll_ctl` has succeeded. -/
def register (s : IOManager) (p : ℕ) (event : Event) (who : Caller)
    (interest : ℕ → Option Interest) : IOManager :=
  let ctx := s.contexts p
  let c : EventContext :=
    { scheduler := some who.scheduler
      fiber := if who.cb.isSome then .none else some who.fiber
      cb := who.cb
      ticket := s.added.length }
  { s.setCtx p ({ ctx with events := ctx.events.add event }.setContext c event)
    with pendingEventCount := s.pendingEventCount + 1, interest
         added := s.added ++ [who] }

/-- `addEvent`, from the lock on. -/
def addEvent (s : IOManager) (p fd : ℕ) (event : Event) (who : Caller) (ok : Bool) :
    IOManager :=
  let ctx := s.contexts p
  if ctx.events.has event then s.abort
  else
    let op := if ctx.events = .none then EpollOp.ADD else .MOD
    match epollCtl ok op fd ⟨ctx.events.add event, p⟩ s.interest with
    | .none => s
    | some interest =>
        if (ctx.getContext event).isEmpty then s.register p event who interest
        else s.abort

/-- `left_events ? EPOLL_CTL_MOD : EPOLL_CTL_DEL` -/
def leftOp (left : Events) : EpollOp := if left = .none then .DEL else .MOD

/-- What `delEvent` does once `epoll_ctl` has succeeded. -/
def unregister (s : IOManager) (p : ℕ) (event : Event)
    (interest : ℕ → Option Interest) : IOManager :=
  let ctx := s.contexts p
  let c := ctx.getContext event
  -- `resetContext`
  let c' : EventContext := { c with scheduler := .none, fiber := .none, cb := .none }
  { s.setCtx p ({ ctx with events := ctx.events.del event }.setContext c' event)
    with pendingEventCount := s.pendingEventCount - 1, interest
         deleted := s.deleted ++ [c.ticket] }

/-- `delEvent`, from the lock on. -/
def delEvent (s : IOManager) (p fd : ℕ) (event : Event) (ok : Bool) : IOManager :=
  let ctx := s.contexts p
  if ctx.events.has event then
    let newEvents := ctx.events.del event
    match epollCtl ok (leftOp newEvents) fd ⟨newEvents, p⟩ s.interest with
    | .none => s
    | some interest => s.unregister p event interest
  else s

/-- `cancelEvent`, from the lock on. -/
def cancelEvent (s : IOManager) (p fd : ℕ) (event : Event) (ok : Bool) : IOManager :=
  let ctx := s.contexts p
  if ctx.events.has event then
    let newEvents := ctx.events.del event
    match epollCtl ok (leftOp newEvents) fd ⟨newEvents, p⟩ s.interest with
    | .none => s
    | some interest => { s with interest }.fire p event
  else s

/-- `if(fd_ctx->events & event) { triggerEvent(event); --m_pendingEventCount; }` -/
def fireIfSet (s : IOManager) (p : ℕ) (event : Event) : IOManager :=
  if (s.contexts p).events.has event then s.fire p event else s

/-- `cancelAll`, from the lock on. -/
def cancelAll (s : IOManager) (p fd : ℕ) (ok : Bool) : IOManager :=
  if (s.contexts p).events = .none then s
  else
    match epollCtl ok .DEL fd ⟨.none, p⟩ s.interest with
    | .none => s
    | some interest =>
        let s := ({ s with interest }.fireIfSet p .READ).fireIfSet p .WRITE
        if (s.contexts p).events = .none then s else s.abort

/-- The bits of `event.events` that the dispatch looks at. -/
structure Report where
  epollIn : Bool
  epollOut : Bool
  epollErr : Bool
  epollHup : Bool
  deriving DecidableEq, Repr

/-- `real_events` -/
def Report.real (r : Report) : Events :=
  ⟨r.epollIn || (r.epollErr || r.epollHup), r.epollOut || (r.epollErr || r.epollHup)⟩

/-- `if(real_events & event) { triggerEvent(event); --m_pendingEventCount; }` -/
def fireIf (s : IOManager) (real : Events) (p : ℕ) (event : Event) : IOManager :=
  if real.has event then s.fire p event else s

/-- One round of the loop over the events in `idle`, for an event with
`data.ptr = p`, from the lock on. -/
def dispatch (s : IOManager) (p : ℕ) (r : Report) (ok : Bool) : IOManager :=
  let ctx := s.contexts p
  let real := r.real
  if ctx.events.inter real = .none then s
  else
    let left := ctx.events.diff real
    match epollCtl ok (leftOp left) ctx.fd ⟨left, p⟩ s.interest with
    | .none => s
    | some interest =>
        ({ s with interest }.fireIf real p .READ).fireIf real p .WRITE

end IOManager

/-! ## Threads -/

/-- A call of the interface. -/
inductive Call
  | addEvent (fd : ℕ) (event : Event) (who : Caller)
  | delEvent (fd : ℕ) (event : Event)
  | cancelEvent (fd : ℕ) (event : Event)
  | cancelAll (fd : ℕ)
  deriving DecidableEq, Repr

def Call.fd : Call → ℕ
  | .addEvent fd _ _ => fd
  | .delEvent fd _ => fd
  | .cancelEvent fd _ => fd
  | .cancelAll fd => fd

/-- What a call does under the mutex of the `FdContext` it has found. -/
def Call.locked (s : IOManager) (p : ℕ) (ok : Bool) : Call → IOManager
  | .addEvent fd event who => s.addEvent p fd event who ok
  | .delEvent fd event => s.delEvent p fd event ok
  | .cancelEvent fd event => s.cancelEvent p fd event ok
  | .cancelAll fd => s.cancelAll p fd ok

/-- Where a thread is. -/
inductive Phase
  | ready
  /-- `addEvent` has found the vector too short and let go of the read lock -/
  | resize (fd : ℕ) (event : Event) (who : Caller)
  /-- the call has found an `FdContext` and let go of `m_mutex` -/
  | located (call : Call) (p : ℕ)
  /-- `idle` is in its loop over the events of `epoll_wait` -/
  | reported (events : List (ℕ × IOManager.Report))
  deriving DecidableEq, Repr

structure System where
  io : IOManager
  threads : ℕ → Phase

namespace System

inductive Label
  /-- thread `t` makes a call, up to the end of its read lock on `m_mutex` -/
  | call (t : ℕ) (c : Call)
  /-- the part of `addEvent` under the write lock -/
  | resize (t : ℕ)
  /-- the part of a call, or of one round of `idle`, under `fd_ctx->mutex` -/
  | lock (t : ℕ) (ok : Bool)
  /-- `epoll_wait` reports events of some fds -/
  | wait (t : ℕ) (events : List (ℕ × IOManager.Report))
  deriving DecidableEq, Repr

def goto (s : System) (io : IOManager) (t : ℕ) (phase : Phase) : System :=
  { io, threads := Function.update s.threads t phase }

/-- The `data.ptr` that goes with each fd reported. -/
def pointers (interest : ℕ → Option Interest) :
    List (ℕ × IOManager.Report) → Option (List (ℕ × IOManager.Report))
  | [] => some []
  | (fd, r) :: events =>
      match interest fd, pointers interest events with
      | some i, some rest => some ((i.ptr, r) :: rest)
      | _, _ => none

def next (s : System) : Label → Option System
  | .call t c =>
      match s.threads t with
      | .ready =>
          match s.io.fdContexts[c.fd]? with
          | some p => some (s.goto s.io t (.located c p))
          | none =>
              match c with
              | .addEvent fd event who => some (s.goto s.io t (.resize fd event who))
              | _ => some s
      | _ => none
  | .resize t =>
      match s.threads t with
      | .resize fd event who =>
          -- `contextResize(fd * 1.5)`
          let io := s.io.contextResize (3 * fd / 2)
          match io.fdContexts[fd]? with
          | some p => some (s.goto io t (.located (.addEvent fd event who) p))
          | none => some (s.goto io.abort t .ready)
      | _ => none
  | .lock t ok =>
      match s.threads t with
      | .located c p => some (s.goto (c.locked s.io p ok) t .ready)
      | .reported ((p, r) :: events) =>
          some (s.goto (s.io.dispatch p r ok) t (.reported events))
      | .reported [] => some (s.goto s.io t .ready)
      | _ => none
  | .wait t events =>
      match s.threads t with
      | .ready => (pointers s.io.interest events).map fun l => s.goto s.io t (.reported l)
      | _ => none

/-- The threads of a process, until an assertion fails. -/
def machine : Lib.Machine System Label where
  start := ⟨.new, fun _ => .ready⟩
  step s l := if s.io.aborted then none else s.next l

/-- The ways to take a step. -/
inductive Took (s : System) : Label → System → Prop
  | found {t : ℕ} {c : Call} {p : ℕ} (h : s.threads t = .ready)
      (hp : s.io.fdContexts[c.fd]? = some p) :
      Took s (.call t c) (s.goto s.io t (.located c p))
  | tooShort {t fd : ℕ} {event : Event} {who : Caller} (h : s.threads t = .ready)
      (hfd : s.io.fdContexts[fd]? = none) :
      Took s (.call t (.addEvent fd event who)) (s.goto s.io t (.resize fd event who))
  | returned {t : ℕ} {c : Call} : Took s (.call t c) s
  | resized {t fd p : ℕ} {event : Event} {who : Caller}
      (h : s.threads t = .resize fd event who)
      (hp : (s.io.contextResize (3 * fd / 2)).fdContexts[fd]? = some p) :
      Took s (.resize t) (s.goto (s.io.contextResize (3 * fd / 2)) t
        (.located (.addEvent fd event who) p))
  | outOfRange {t fd : ℕ} {event : Event} {who : Caller}
      (h : s.threads t = .resize fd event who)
      (hp : (s.io.contextResize (3 * fd / 2)).fdContexts[fd]? = none) :
      Took s (.resize t) (s.goto (s.io.contextResize (3 * fd / 2)).abort t .ready)
  | locked {t p : ℕ} {ok : Bool} {c : Call} (h : s.threads t = .located c p) :
      Took s (.lock t ok) (s.goto (c.locked s.io p ok) t .ready)
  | dispatched {t p : ℕ} {ok : Bool} {r : IOManager.Report}
      {events : List (ℕ × IOManager.Report)}
      (h : s.threads t = .reported ((p, r) :: events)) :
      Took s (.lock t ok) (s.goto (s.io.dispatch p r ok) t (.reported events))
  | drained {t : ℕ} {ok : Bool} (h : s.threads t = .reported []) :
      Took s (.lock t ok) (s.goto s.io t .ready)
  | waited {t : ℕ} {events l : List (ℕ × IOManager.Report)} (h : s.threads t = .ready)
      (hl : pointers s.io.interest events = some l) :
      Took s (.wait t events) (s.goto s.io t (.reported l))

theorem took_of_next {s s' : System} {l : Label} (h : s.next l = some s') :
    Took s l s' := by
  cases l with
  | call t c =>
      simp only [next] at h
      split at h
      case h_1 hready =>
        split at h
        case h_1 p hp =>
          cases h
          exact .found hready hp
        case h_2 hp =>
          split at h
          · cases h
            exact .tooShort hready hp
          · cases h
            exact .returned
      case h_2 => cases h
  | resize t =>
      simp only [next] at h
      split at h
      case h_1 fd event who hphase =>
        split at h
        case h_1 p hp =>
          cases h
          exact .resized hphase hp
        case h_2 hp =>
          cases h
          exact .outOfRange hphase hp
      case h_2 => cases h
  | lock t ok =>
      simp only [next] at h
      split at h
      case h_1 c p hphase =>
        cases h
        exact .locked hphase
      case h_2 p r events hphase =>
        cases h
        exact .dispatched hphase
      case h_3 hphase =>
        cases h
        exact .drained hphase
      case h_4 => cases h
  | wait t events =>
      simp only [next] at h
      split at h
      case h_1 hready =>
        obtain ⟨l, hl, rfl⟩ := Option.map_eq_some_iff.mp h
        exact .waited hready hl
      case h_2 => cases h

theorem took_of_step {s s' : System} {l : Label} (h : machine.step s l = some s') :
    s.io.aborted = false ∧ Took s l s' := by
  cases hrun : s.io.aborted with
  | true =>
      simp only [machine, hrun, if_true] at h
      cases h
  | false =>
      simp only [machine, hrun, Bool.false_eq_true, if_false] at h
      exact ⟨rfl, took_of_next h⟩

end System

end Skt
