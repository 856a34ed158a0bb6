import Skt.Lib.Machine
import Skt.Lib.OrderedSet

/-!
# `Timer` and `TimerManager`

Timers live at addresses; `m_timers` is a set of addresses, ordered by the `m_next`
that the timers have at the moment and then by address. Times and intervals are 64 bit
numbers. What is done under the lock is one step, and every clock reading is an
argument of the step.
-/

namespace Skt

def u64 (n : ℕ) : ℕ := n % 2 ^ 64

/-- A callback, or one that is bound to a condition. -/
inductive Callback
  | fn (c : ℕ)
  | onTimer (cond c : ℕ)
  deriving DecidableEq, Repr

structure Timer where
  recurring : Bool
  ms : ℕ
  next : ℕ
  cb : Option Callback
  deriving DecidableEq, Repr

namespace Timer

/-- `Timer(ms, cb, recurring, manager)` at time `now`. -/
def make (ms : ℕ) (cb : Option Callback) (recurring : Bool) (now : ℕ) : Timer :=
  ⟨recurring, ms, u64 (now + ms), cb⟩

/-- `Timer(next)` -/
def ofNext (next : ℕ) : Timer := ⟨false, 0, next, none⟩

/-- `Timer::Comparator`, with `none` for a null pointer. -/
def comparator (next : ℕ → ℕ) (lhs rhs : Option ℕ) : Bool :=
  match lhs, rhs with
  | none, none => false
  | none, some _ => true
  | some _, none => false
  | some p, some q =>
      if next p < next q then true
      else if next q < next p then false
      else p < q

/-- The order of `m_timers`. -/
def Before (next : ℕ → ℕ) (p q : ℕ) : Prop := comparator next (some p) (some q) = true

instance (next : ℕ → ℕ) : DecidableRel (Before next) := fun _ _ =>
  inferInstanceAs (Decidable (_ = true))

end Timer

open Lib

/-- `heap` has the timers that exist; `timers` is `m_timers`. -/
structure TimerManager where
  heap : ℕ → Option Timer
  timers : List ℕ
  tickled : Bool
  previouseTime : ℕ

namespace TimerManager

open Timer

def next (m : TimerManager) (p : ℕ) : ℕ :=
  match m.heap p with
  | some t => t.next
  | none => 0

def setTimer (m : TimerManager) (p : ℕ) (t : Timer) : TimerManager :=
  { m with heap := Function.update m.heap p (some t) }

/-- `m_timers.find(p)`, `none` for `end()` -/
def find (m : TimerManager) (p : ℕ) : Option ℕ := OrderedSet.find (Before m.next) p m.timers

/-- `m_timers.erase(it)` for an `it` found for `p` -/
def erase (m : TimerManager) (p : ℕ) : TimerManager :=
  { m with timers := OrderedSet.erase (Before m.next) p m.timers }

/-- `m_timers.insert(p)` -/
def insert (m : TimerManager) (p : ℕ) : TimerManager :=
  { m with timers := OrderedSet.insert (Before m.next) p m.timers }

/-! ## The operations -/

/-- `addTimer(val, lock)`: whether `onTimerInsertedAtFront` is to be called. -/
def addTimer (m : TimerManager) (val : ℕ) : TimerManager × Bool :=
  let m := m.insert val
  let atFront := m.timers.head? = some val && !m.tickled
  ({ m with tickled := if atFront then true else m.tickled }, atFront)

/-- `Timer::cancel`, `none` if it erases `end()`. -/
def cancel (m : TimerManager) (p : ℕ) (t : Timer) : Option (TimerManager × Bool) :=
  match t.cb with
  | some _ =>
      let m := m.setTimer p { t with cb := none }
      match m.find p with
      | some _ => some (m.erase p, true)
      | none => none
  | none => some (m, false)

/-- `Timer::refresh`. -/
def refresh (m : TimerManager) (p : ℕ) (t : Timer) (now : ℕ) : TimerManager × Bool :=
  match t.cb with
  | none => (m, false)
  | some _ =>
      match m.find p with
      | none => (m, false)
      | some _ =>
          let m := m.erase p
          let m := m.setTimer p { t with next := u64 (now + t.ms) }
          (m.insert p, true)

/-- The part of `Timer::reset` under the lock: what it returns, and whether
`onTimerInsertedAtFront` is to be called. -/
def resetLocked (m : TimerManager) (p : ℕ) (t : Timer) (ms : ℕ) (fromNow : Bool)
    (now : ℕ) : TimerManager × Bool × Bool :=
  match t.cb with
  | none => (m, false, false)
  | some _ =>
      match m.find p with
      | none => (m, false, false)
      | some _ =>
          let m := m.erase p
          let start := if fromNow then now else u64 (t.next + 2 ^ 64 - t.ms)
          let m := m.setTimer p { t with ms, next := u64 (start + ms) }
          let (m, atFront) := m.addTimer p
          (m, true, atFront)

/-- `Timer::reset`. -/
def reset (m : TimerManager) (p : ℕ) (t : Timer) (ms : ℕ) (fromNow : Bool) (now : ℕ) :
    TimerManager × Bool × Bool :=
  if ms = t.ms ∧ fromNow = false then (m, true, false)
  else m.resetLocked p t ms fromNow now

/-- `getNextTimer`. -/
def getNextTimer (m : TimerManager) (now : ℕ) : TimerManager × ℕ :=
  ({ m with tickled := false },
   match m.timers with
   | [] => 2 ^ 64 - 1
   | next :: _ => if now > m.next next then 0 else m.next next - now)

/-- `detectClockRollover`. -/
def detectClockRollover (m : TimerManager) (now : ℕ) : TimerManager × Bool :=
  ({ m with previouseTime := now },
   now < m.previouseTime ∧ now < u64 (m.previouseTime + 2 ^ 64 - 60 * 60 * 1000))

/-- The loop over the timers that have expired. -/
def expire (now : ℕ) : TimerManager → List ℕ → TimerManager × List (Option Callback)
  | m, [] => (m, [])
  | m, p :: expired =>
      match m.heap p with
      | none => expire now m expired
      | some t =>
          let m :=
            if t.recurring then
              (m.setTimer p { t with next := u64 (now + t.ms) }).insert p
            else m.setTimer p { t with cb := none }
          let (m, cbs) := expire now m expired
          (m, t.cb :: cbs)

/-- What has expired at `now`, and what is left; `q` is the address of `now_timer`. -/
def split (m : TimerManager) (now q : ℕ) (rollover : Bool) : List ℕ × List ℕ :=
  if rollover then (m.timers, [])
  else
    let order := Before (m.setTimer q (Timer.ofNext now)).next
    let it := OrderedSet.lowerBound order q m.timers
    (OrderedSet.below order q m.timers ++ it.takeWhile (m.next · = now),
     it.dropWhile (m.next · = now))

/-- `listExpiredCb`. -/
def listExpiredCb (m : TimerManager) (now q : ℕ) : TimerManager × List (Option Callback) :=
  match m.timers with
  | [] => (m, [])
  | front :: _ =>
      let (m, rollover) := m.detectClockRollover now
      if rollover = false ∧ m.next front > now then (m, [])
      else
        let (expired, left) := m.split now q rollover
        expire now { m with timers := left } expired

/-! ## The machine -/

inductive Label
  | addTimer (p ms : ℕ) (cb : Option Callback) (recurring : Bool) (now : ℕ)
  | addConditionTimer (p ms cond c : ℕ) (recurring : Bool) (now : ℕ)
  | cancel (p : ℕ)
  | refresh (p now : ℕ)
  | reset (p ms : ℕ) (fromNow : Bool) (now : ℕ)
  | getNextTimer (now : ℕ)
  | listExpiredCb (now q : ℕ)
  /-- the last pointer to a timer is gone -/
  | release (p : ℕ)
  deriving DecidableEq, Repr

/-- `addTimer(ms, cb, recurring)`, with the new timer at address `p`. -/
def newTimer (m : TimerManager) (p ms : ℕ) (cb : Option Callback) (recurring : Bool)
    (now : ℕ) : TimerManager × Bool :=
  (m.setTimer p (Timer.make ms cb recurring now)).addTimer p

/-- One call; the result is `none` after `erase(end())`. -/
def call (m : TimerManager) : Label → Option (Option TimerManager)
  | .addTimer p ms cb recurring now =>
      if m.heap p = none then some (some (m.newTimer p ms cb recurring now).1) else none
  | .addConditionTimer p ms cond c recurring now =>
      if m.heap p = none then
        some (some (m.newTimer p ms (some (.onTimer cond c)) recurring now).1)
      else none
  | .cancel p => (m.heap p).map fun t => (m.cancel p t).map Prod.fst
  | .refresh p now => (m.heap p).map fun t => some (m.refresh p t now).1
  | .reset p ms fromNow now =>
      -- `m_ms` may have changed since the test in front of the lock
      (m.heap p).map fun t => some (m.resetLocked p t ms fromNow now).1
  | .getNextTimer now => some (some (m.getNextTimer now).1)
  | .listExpiredCb now q =>
      if m.heap q = none then some (some (m.listExpiredCb now q).1) else none
  | .release p =>
      if p ∈ m.timers then none
      else some (some { m with heap := Function.update m.heap p none })

/-- A manager in use, from time `now` on; `none` is a manager that is broken. -/
def machine (now : ℕ) : Lib.Machine (Option TimerManager) Label where
  start := some ⟨fun _ => none, [], false, now⟩
  step s l := s.bind fun m => m.call l

end TimerManager

end Skt
