import Skt.IOManager.Context

/-!
# A hooked call

`do_io` and `connect_with_timeout`, from the first system call on: the hook is enabled,
and the fd is a socket that is blocking for its user. The call shares the `IOManager`
with everyone else; its timers' callbacks and a `close` of the fd run on threads of
their own. What is done under one lock is one step, and so is each access to
`tinfo->cancelled`.

`late` is there for the proofs only: the call has made a system call on the fd after
`close` had returned.
-/

namespace Skt

namespace HookedIo

inductive Kind
  | do_io
  | connect_with_timeout
  deriving DecidableEq, Repr

/-- Where the call is. In `yield` and behind it the number is the ticket of its
registration. -/
inductive Phase
  /-- about to make its system call -/
  | io
  /-- the call would block; about to add the timer -/
  | addTimer
  | addEvent
  /-- `addEvent` has failed; about to cancel the timer -/
  | refused
  /-- about to call `YieldToHold` -/
  | yield (ticket : ℕ)
  /-- suspended -/
  | held (ticket : ℕ)
  /-- resumed; about to cancel the timer -/
  | resumed
  /-- about to look at `tinfo->cancelled` -/
  | check
  | getsockopt
  | done
  deriving DecidableEq, Repr

/-- What has become of a timer and its callback. -/
inductive TimerPhase
  | none
  | pending
  | cancelled
  /-- taken by `listExpiredCb` -/
  | taken
  /-- `tinfo` is there and not cancelled -/
  | tested
  /-- has set `tinfo->cancelled`; about to call `cancelEvent` -/
  | set
  /-- `tinfo` is gone or was cancelled -/
  | skipped
  /-- has called `cancelEvent` -/
  | finished
  deriving DecidableEq, Repr

/-- Where `close(fd)` is. -/
inductive Closing
  | none
  | cancelAll
  | del
  | close_f
  | returned
  deriving DecidableEq, Repr

/-- The arguments of the call: `ptr` is the `FdContext` of the fd, and `timed` says
that there is a timeout. -/
structure Args where
  kind : Kind
  timed : Bool
  fd : ℕ
  ptr : ℕ
  event : Event
  who : Caller
  deriving DecidableEq, Repr

end HookedIo

open HookedIo in
/-- A call and the world around it. The timer of the current round is the one before
`round`; `fdMgr` says that `FdManager` has the fd. -/
structure HookedIo where
  phase : HookedIo.Phase
  cancelled : ℕ
  round : ℕ
  timers : ℕ → TimerPhase
  iom : IOManager
  closing : Closing
  fdMgr : Bool
  late : Bool

namespace HookedIo

def ETIMEDOUT : ℕ := 110

def start (iom : IOManager) : HookedIo where
  phase := .io
  cancelled := 0
  round := 0
  timers _ := .none
  iom := iom
  closing := .none
  fdMgr := true
  late := false

def setTimer (s : HookedIo) (k : ℕ) (t : TimerPhase) : HookedIo :=
  { s with timers := Function.update s.timers k t }

/-- A system call on the fd. -/
def onFd (s : HookedIo) : HookedIo :=
  { s with late := s.late || decide (s.closing = .returned) }

/-- `if(timer) timer->cancel();` -/
def cancelTimer (a : Args) (s : HookedIo) : HookedIo :=
  if a.timed ∧ s.timers (s.round - 1) = .pending then s.setTimer (s.round - 1) .cancelled
  else s

/-- The fiber with that ticket is in a scheduler's queue. -/
def scheduled (s : HookedIo) (ticket : ℕ) : Bool :=
  s.iom.queue.any fun task => task.ticket = ticket

/-- `addEvent`, and the branch on what it returns. -/
def addEvent (a : Args) (s : HookedIo) (ok : Bool) : HookedIo :=
  let ticket := s.iom.added.length
  let s := { s.onFd with iom := s.iom.addEvent a.ptr a.fd a.event a.who ok }
  { s with phase := if s.iom.added.length = ticket then .refused else .yield ticket }

inductive Label
  /-- the system call, which would block or not -/
  | io (again : Bool)
  | addTimer
  | addEvent (ok : Bool)
  | yield
  | resume
  | cancelTimer
  | check
  | getsockopt
  /-- `listExpiredCb` takes the callback of timer `k` -/
  | expire (k : ℕ)
  /-- the three steps of the callback -/
  | test (k : ℕ)
  | set (k : ℕ)
  | cancelEvent (k : ℕ) (ok : Bool)
  /-- the `idle` of a worker takes care of an event -/
  | dispatch (ptr : ℕ) (r : IOManager.Report) (ok : Bool)
  /-- another call, for another event -/
  | other (c : Call) (ptr : ℕ) (ok : Bool)
  | close
  | cancelAll (ok : Bool)
  | del
  | close_f
  deriving DecidableEq

/-- A call on an `FdContext` that has to do with an event. -/
def concerns (ptr : ℕ) (event : Event) (p : ℕ) : Call → Bool
  | .addEvent _ e _ | .delEvent _ e | .cancelEvent _ e => p = ptr && e = event
  | .cancelAll _ => p = ptr

def next (a : Args) (s : HookedIo) : Label → Option HookedIo
  | .io again =>
      if s.phase = .io then
        some { s.onFd with phase := if again then .addTimer else .done }
      else none
  | .addTimer =>
      if s.phase = .addTimer then
        some
          (if a.timed then
            { s.setTimer s.round .pending with phase := .addEvent, round := s.round + 1 }
          else { s with phase := .addEvent })
      else none
  | .addEvent ok => if s.phase = .addEvent then some (s.addEvent a ok) else none
  | .yield =>
      match s.phase with
      | .yield ticket => some { s with phase := .held ticket }
      | _ => none
  | .resume =>
      match s.phase with
      | .held ticket => if s.scheduled ticket then some { s with phase := .resumed } else none
      | _ => none
  | .cancelTimer =>
      match s.phase with
      | .resumed => some { s.cancelTimer a with phase := .check }
      | .refused =>
          some { s.cancelTimer a with phase :=
            match a.kind with
            | .do_io => .done
            | .connect_with_timeout => .getsockopt }
      | _ => none
  | .check =>
      if s.phase = .check then
        some { s with phase :=
          if s.cancelled ≠ 0 then .done
          else
            match a.kind with
            | .do_io => .io
            | .connect_with_timeout => .getsockopt }
      else none
  | .getsockopt =>
      if s.phase = .getsockopt then some { s.onFd with phase := .done } else none
  | .expire k => if s.timers k = .pending then some (s.setTimer k .taken) else none
  | .test k =>
      if s.timers k = .taken then
        some (s.setTimer k
          (if s.phase = .done ∨ s.cancelled ≠ 0 then .skipped else .tested))
      else none
  | .set k =>
      if s.timers k = .tested then some { s.setTimer k .set with cancelled := ETIMEDOUT }
      else none
  | .cancelEvent k ok =>
      if s.timers k = .set then
        some { s.setTimer k .finished with
          iom := s.iom.cancelEvent a.ptr a.fd a.event ok }
      else none
  | .dispatch ptr r ok => some { s with iom := s.iom.dispatch ptr r ok }
  | .other c ptr ok =>
      if concerns a.ptr a.event ptr c then none
      else some { s with iom := c.locked s.iom ptr ok }
  | .close =>
      match s.phase, s.closing with
      | .held _, .none => some { s with closing := .cancelAll }
      | _, _ => none
  | .cancelAll ok =>
      if s.closing = .cancelAll then
        some { s with iom := s.iom.cancelAll a.ptr a.fd ok, closing := .del }
      else none
  | .del =>
      if s.closing = .del then some { s with fdMgr := false, closing := .close_f } else none
  | .close_f => if s.closing = .close_f then some { s with closing := .returned } else none

/-- The call, until an assertion fails. -/
def machine (a : Args) (iom : IOManager) : Lib.Machine HookedIo Label where
  start := start iom
  step s l := if s.iom.aborted then none else s.next a l

end HookedIo

end Skt
