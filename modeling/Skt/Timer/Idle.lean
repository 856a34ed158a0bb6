import Skt.Lib.CString
import Skt.Lib.Tally
import Skt.Timer.Invariant

/-!
# The idle loops and the timers

Workers ask for the next timer, wait in `epoll_wait` until it is due, and take what
has expired; other threads add and change timers all the while. What a worker does
outside its idle fiber is left open. A step under the lock of the manager is one step,
and so is each `tickle`, which is called when the lock has been let go.

The deadline of a worker that waits is kept for the proofs: it is the moment up to
which it waits, or the `m_next` of the front timer if that has passed already.

An `epoll_wait` that a signal interrupts (`EINTR`) is called again with the whole timeout,
so that the worker waits beyond that moment. This branch is left out: here `epoll_wait`
waits up to the deadline it was called with, and may return at any time.
-/

namespace Skt

open Lib.CString (toInt32)

/-- From `next_timeout` to the timeout that `epoll_wait` is given. -/
def epollTimeout (nextTimeout : ℕ) : ℤ :=
  if nextTimeout ≠ 2 ^ 64 - 1 then
    if toInt32 nextTimeout > 3000 then 3000 else toInt32 nextTimeout
  else 3000

/-- Where a worker is. -/
inductive IdlePhase
  /-- in `run`, outside its idle fiber -/
  | busy
  /-- has counted up `m_idleThreadCount`, about to call `stopping` -/
  | counted
  /-- has called `getNextTimer`, about to call `epoll_wait`; `none` is for ever -/
  | timed (deadline : Option ℕ)
  /-- in `epoll_wait` -/
  | blocked (deadline : Option ℕ)
  /-- behind `epoll_wait`, about to call `listExpiredCb` -/
  | woken
  /-- behind `listExpiredCb` -/
  | listed
  /-- back in `run`, about to count down `m_idleThreadCount` -/
  | leftIdle
  /-- the same, with an idle fiber that has finished -/
  | leaving
  /-- `run` has returned -/
  | gone
  deriving DecidableEq, Repr

/-- `inserters` are the calls that are about to call `onTimerInsertedAtFront`. -/
structure IdleLoop where
  now : ℕ
  manager : TimerManager
  workers : ℕ → IdlePhase
  idleThreadCount : ℤ
  pipe : ℕ
  inserters : ℕ → Bool

namespace IdleLoop

/-- Every worker is in `run`. -/
def start (now : ℕ) : IdleLoop where
  now := now
  manager := ⟨fun _ => none, [], false, now⟩
  workers _ := .busy
  idleThreadCount := 0
  pipe := 0
  inserters _ := false

def goto (s : IdleLoop) (w : ℕ) (p : IdlePhase) : IdleLoop :=
  { s with workers := Function.update s.workers w p }

/-- `IOManager::tickle`. -/
def tickle (s : IdleLoop) : IdleLoop :=
  if 0 < s.idleThreadCount then { s with pipe := s.pipe + 1 } else s

/-- Up to when a worker waits that calls `getNextTimer` now. -/
def deadline (s : IdleLoop) : Option ℕ :=
  let timeout := epollTimeout (s.manager.getNextTimer s.now).2
  if timeout < 0 then none
  else
    match s.manager.timers with
    | [] => some (s.now + timeout.toNat)
    | front :: _ =>
        if s.now > s.manager.next front then some (s.manager.next front)
        else some (s.now + timeout.toNat)

inductive Label
  /-- the clock moves on -/
  | clock (t : ℕ)
  /-- call `c` of `addTimer`, with a clock reading from before it has the lock -/
  | addTimer (c p ms : ℕ) (cb : Option Callback) (recurring : Bool) (reading : ℕ)
  | cancel (p : ℕ)
  | refresh (p : ℕ)
  /-- call `c` of `reset` -/
  | reset (c p ms : ℕ) (fromNow : Bool)
  /-- the last pointer to a timer is gone -/
  | release (p : ℕ)
  /-- call `c` calls `onTimerInsertedAtFront` -/
  | insertedAtFront (c : ℕ)
  /-- someone calls `tickle` for a fiber or a callback -/
  | tickle
  /-- `stop` calls `stopping` -/
  | stopping
  /-- worker `w` begins to idle -/
  | count (w : ℕ)
  /-- `stopping` of worker `w`, which goes on -/
  | getNextTimer (w : ℕ)
  /-- `stopping` of worker `w`, which is to stop -/
  | leave (w : ℕ)
  | wait (w : ℕ)
  /-- `epoll_wait` of worker `w` returns -/
  | wake (w : ℕ)
  /-- `listExpiredCb` of worker `w`, with a clock reading from before it has the lock -/
  | listExpiredCb (w reading q : ℕ)
  /-- worker `w` reads the pipe until it is empty -/
  | drain (w : ℕ)
  | swapOut (w : ℕ)
  | uncount (w : ℕ)
  deriving DecidableEq, Repr

/-- A step of one of `n` workers, or of anyone else. -/
def next (n : ℕ) (s : IdleLoop) : Label → Option IdleLoop
  | .clock t => if s.now ≤ t then some { s with now := t } else none
  | .addTimer c p ms cb recurring reading =>
      if s.inserters c = false ∧ s.manager.heap p = none ∧ reading ≤ s.now then
        let (m, atFront) := s.manager.newTimer p ms cb recurring reading
        some { s with manager := m, inserters := Function.update s.inserters c atFront }
      else none
  | .cancel p =>
      (s.manager.heap p).bind fun t =>
        (s.manager.cancel p t).map fun r => { s with manager := r.1 }
  | .refresh p =>
      (s.manager.heap p).map fun t => { s with manager := (s.manager.refresh p t s.now).1 }
  | .reset c p ms fromNow =>
      if s.inserters c = false then
        (s.manager.heap p).map fun t =>
          let (m, _, atFront) := s.manager.resetLocked p t ms fromNow s.now
          { s with manager := m, inserters := Function.update s.inserters c atFront }
      else none
  | .release p =>
      if p ∈ s.manager.timers then none
      else
        some { s with manager :=
          { s.manager with heap := Function.update s.manager.heap p none } }
  | .insertedAtFront c =>
      if s.inserters c then
        some { s.tickle with inserters := Function.update s.inserters c false }
      else none
  | .tickle => some s.tickle
  | .stopping => some { s with manager := (s.manager.getNextTimer s.now).1 }
  | .count w =>
      if w < n ∧ s.workers w = .busy then
        some ({ s with idleThreadCount := s.idleThreadCount + 1 }.goto w .counted)
      else none
  | .getNextTimer w =>
      if s.workers w = .counted then
        some ({ s with manager := (s.manager.getNextTimer s.now).1 }.goto w
          (.timed s.deadline))
      else none
  | .leave w =>
      if s.workers w = .counted ∧ (s.manager.getNextTimer s.now).2 = 2 ^ 64 - 1 then
        some ({ s with manager := (s.manager.getNextTimer s.now).1 }.goto w .leaving)
      else none
  | .wait w =>
      match s.workers w with
      | .timed d => some (s.goto w (.blocked d))
      | _ => none
  | .wake w =>
      match s.workers w with
      | .blocked _ => some (s.goto w .woken)
      | _ => none
  | .listExpiredCb w reading q =>
      if s.workers w = .woken ∧ reading ≤ s.now ∧ s.manager.heap q = none then
        some ({ s with manager := (s.manager.listExpiredCb reading q).1 }.goto w .listed)
      else none
  | .drain w => if s.workers w = .listed then some { s with pipe := 0 } else none
  | .swapOut w => if s.workers w = .listed then some (s.goto w .leftIdle) else none
  | .uncount w =>
      match s.workers w with
      | .leftIdle =>
          some ({ s with idleThreadCount := s.idleThreadCount - 1 }.goto w .busy)
      | .leaving =>
          some ({ s with idleThreadCount := s.idleThreadCount - 1 }.goto w .gone)
      | _ => none

def machine (n now : ℕ) : Lib.Machine IdleLoop Label where
  start := start now
  step := next n

end IdleLoop

end Skt
