import Skt.Lib.Decimal
import Skt.Lib.Refinement
import Skt.Lib.Tally

/-!
# Starting threads

The constructor of `Thread` waits on a semaphore until the new thread has filled in the object,
and `Scheduler::start` reads the object's `m_id` right behind it, all under the scheduler's
lock, which the function of the new thread needs. Each access to the object, the semaphore or the
lock is a step of its own.

`pthread_create` may fail. `sem_wait` and `sem_post` are taken to succeed: a `sem_wait` that
fails, as one that a signal interrupts does, throws out of the constructor and takes the object
away from the thread that is running already. That failure is not modelled.
-/

namespace Skt

open Lib Lib.CString

/-- The fields of a `Thread`; `none` is -1, and `cb` is whether `m_cb` holds a function. -/
structure Thread where
  id : Option ℕ
  cb : Bool
  name : List UInt8
  semaphore : ℕ
  deriving DecidableEq, Repr

namespace Thread

/-- `Thread::Thread` up to `pthread_create`. -/
def make (name : List UInt8) : Thread :=
  ⟨none, true, if name = [] then bytes "UNKNOW" else name, 0⟩

/-- Where a new thread is in `Thread::run`. -/
inductive Phase
  | absent
  /-- about to set `t_thread` and `t_thread_name` -/
  | enter
  /-- about to set `m_id` -/
  | setId
  /-- about to call `pthread_setname_np` -/
  | setName
  /-- about to swap `m_cb` out of the object -/
  | swap
  /-- about to call `notify` -/
  | notify
  /-- about to call the function -/
  | call
  /-- in the function, about to take the scheduler's lock -/
  | locking
  /-- past it -/
  | working
  deriving DecidableEq, Repr

def Phase.rank : Phase → ℕ
  | absent => 0
  | enter => 1
  | setId => 2
  | setName => 3
  | swap => 4
  | notify => 5
  | call => 6
  | locking => 7
  | working => 8

/-- What belongs to the new thread: `t_thread_name`, the name the system has for it, whether
its local `cb` holds the function, and how often it has called it. -/
structure Context where
  phase : Phase
  threadName : List UInt8
  systemName : List UInt8
  cb : Bool
  calls : ℕ
  deriving DecidableEq, Repr

def Context.absent : Context := ⟨.absent, bytes "UNKNOW", [], false, 0⟩

end Thread

/-- Where `Scheduler::start` is; the loop variable is the argument. -/
inductive StartPhase
  /-- at the head of the loop -/
  | create (i : ℕ)
  /-- in the constructor, at `m_semaphore.wait()` -/
  | wait (i : ℕ)
  /-- behind the constructor -/
  | push (i : ℕ)
  | done
  /-- `pthread_create` has failed -/
  | threw (i : ℕ)
  deriving DecidableEq, Repr

structure Starting where
  phase : StartPhase
  threads : ℕ → Thread
  contexts : ℕ → Thread.Context
  threadIds : List (Option ℕ)

namespace Starting

open Thread

/-- `start` holds `m_mutex` until its end, or until an exception leaves it. -/
def locked (s : Starting) : Bool :=
  match s.phase with
  | .done => false
  | .threw _ => false
  | _ => true

inductive Label
  /-- a step of `start`; `ok` is whether `pthread_create` succeeds -/
  | start (ok : Bool)
  /-- a step of thread `i` -/
  | thread (i : ℕ)
  deriving DecidableEq, Repr

def setThread (s : Starting) (i : ℕ) (o : Thread) : Starting :=
  { s with threads := Function.update s.threads i o }

def setContext (s : Starting) (i : ℕ) (c : Context) : Starting :=
  { s with contexts := Function.update s.contexts i c }

section

variable (n : ℕ) (tid : ℕ → ℕ) (name : ℕ → List UInt8)

/-- The loop of `Scheduler::start` with `m_threadCount` being `n`; `name i` is the name that
thread `i` is given. -/
def startStep (s : Starting) (ok : Bool) : Option Starting :=
  match s.phase with
  | .create i =>
      if i < n then
        if ok then
          let c : Context := { Context.absent with phase := .enter }
          some { (s.setThread i (make (name i))).setContext i c with phase := .wait i }
        else some { s with phase := .threw i }
      else some { s with phase := .done }
  | .wait i =>
      if (s.threads i).semaphore = 0 then none
      else some { s.setThread i { s.threads i with semaphore := (s.threads i).semaphore - 1 }
        with phase := .push i }
  | .push i =>
      some { s with phase := .create (i + 1), threadIds := s.threadIds ++ [(s.threads i).id] }
  | .done => none
  | .threw _ => none

/-- `Thread::run` in a thread with id `id`, up to where its function, `Scheduler::run`, has taken
the scheduler's lock for the first time. -/
def runStep (id : ℕ) (locked : Bool) (o : Thread) (c : Context) : Option (Thread × Context) :=
  match c.phase with
  | .absent => none
  | .enter => some (o, { c with phase := .setId, threadName := o.name })
  | .setId => some ({ o with id := some id }, { c with phase := .setName })
  | .setName => some (o, { c with phase := .swap, systemName := o.name.take 15 })
  | .swap => some ({ o with cb := false }, { c with phase := .notify, cb := o.cb })
  | .notify => some ({ o with semaphore := o.semaphore + 1 }, { c with phase := .call })
  | .call => some (o, { c with phase := .locking, calls := c.calls + 1 })
  | .locking => if locked then none else some (o, { c with phase := .working })
  | .working => none

/-- A step of thread `i`, whose id is `tid i`. -/
def threadStep (s : Starting) (i : ℕ) : Option Starting :=
  (runStep (tid i) s.locked (s.threads i) (s.contexts i)).map fun x =>
    (s.setThread i x.1).setContext i x.2

def step (s : Starting) : Label → Option Starting
  | .start ok => s.startStep n name ok
  | .thread i => s.threadStep tid i

end

/-- The name of a worker. -/
def workerName (mName : List UInt8) (i : ℕ) : List UInt8 := mName ++ bytes "_" ++ decimal i

theorem make_workerName (mName : List UInt8) (i : ℕ) :
    (make (workerName mName i)).name = workerName mName i := by
  have hne : workerName mName i ≠ [] :=
    List.append_ne_nil_of_right_ne_nil _ (decimal_ne_nil i)
  exact if_neg hne

/-- A scheduler with the name `mName` that starts `n` threads. No object is read before it is
made, so what is in its place does not matter. -/
def machine (n : ℕ) (tid : ℕ → ℕ) (mName : List UInt8) : Machine Starting Label where
  start := ⟨.create 0, fun _ => make [], fun _ => Context.absent, []⟩
  step := step n tid (workerName mName)

/-! ## What a thread has done -/

/-- An object and its thread agree about how far the thread is; `waited` is whether the
constructor has got past the semaphore. -/
structure Good (tid : ℕ) (name : List UInt8) (waited : Bool) (o : Thread) (c : Context) :
    Prop where
  enter : 1 ≤ c.phase.rank
  id : o.id = if 3 ≤ c.phase.rank then some tid else none
  cb : o.cb = decide (c.phase.rank < 5)
  taken : c.cb = decide (5 ≤ c.phase.rank)
  name : o.name = (make name).name
  threadName : c.threadName = if 2 ≤ c.phase.rank then o.name else bytes "UNKNOW"
  systemName : c.systemName = if 4 ≤ c.phase.rank then o.name.take 15 else []
  semaphore : o.semaphore + waited.toNat = if 6 ≤ c.phase.rank then 1 else 0
  calls : c.calls = if 7 ≤ c.phase.rank then 1 else 0

/-- The objects that have been made, and the constructors that have returned. -/
def created (n : ℕ) (s : Starting) : ℕ :=
  match s.phase with
  | .create k => k
  | .wait k => k + 1
  | .push k => k + 1
  | .done => n
  | .threw k => k

def returned (n : ℕ) (s : Starting) : ℕ :=
  match s.phase with
  | .create k => k
  | .wait k => k
  | .push k => k + 1
  | .done => n
  | .threw k => k

/-- The ids that have been stored. -/
def pushed (n : ℕ) (s : Starting) : ℕ :=
  match s.phase with
  | .create k => k
  | .wait k => k
  | .push k => k
  | .done => n
  | .threw k => k

section Steps

variable {n : ℕ} {tid : ℕ → ℕ} {name : ℕ → List UInt8} {s t : Starting}

theorem good_make (tid : ℕ) (name : List UInt8) :
    Good tid name false (make name) { Context.absent with phase := .enter } := by
  constructor <;> simp [make, Context.absent, Phase.rank]

theorem Good.wait {tid : ℕ} {name : List UInt8} {o : Thread} {c : Context}
    (h : Good tid name false o c) (hsem : o.semaphore ≠ 0) :
    Good tid name true { o with semaphore := o.semaphore - 1 } c := by
  refine ⟨h.enter, h.id, h.cb, h.taken, h.name, h.threadName, h.systemName, ?_, h.calls⟩
  have hsame := h.semaphore
  simp only [Bool.toNat_false, Bool.toNat_true] at hsame ⊢
  omega

/-- A step takes a thread to the next phase. -/
theorem rank_runStep {id : ℕ} {lock : Bool} {o o' : Thread} {c c' : Context}
    (hstep : runStep id lock o c = some (o', c')) : c'.phase.rank = c.phase.rank + 1 := by
  obtain ⟨phase, threadName, systemName, cb, calls⟩ := c
  cases phase with
  | absent => cases hstep
  | working => cases hstep
  | locking =>
      cases lock with
      | true => cases hstep
      | false =>
          cases hstep
          rfl
  | _ =>
      cases hstep
      rfl

/-- A thread waits for nothing but the lock. -/
theorem runStep_eq_none {id : ℕ} {lock : Bool} {o : Thread} {c : Context}
    (hnone : runStep id lock o c = none) (henter : 1 ≤ c.phase.rank) :
    c.phase = .working ∨ c.phase = .locking ∧ lock = true := by
  obtain ⟨phase, threadName, systemName, cb, calls⟩ := c
  cases phase with
  | absent => exact absurd (show 1 ≤ 0 from henter) (by decide)
  | working => exact .inl rfl
  | locking =>
      cases lock with
      | true => exact .inr ⟨rfl, rfl⟩
      | false => cases hnone
  | _ => cases hnone

/-- **One step of a thread** keeps the agreement. -/
theorem Good.step {id : ℕ} {label : List UInt8} {w lock : Bool} {o o' : Thread} {c c' : Context}
    (h : Good id label w o c) (hstep : runStep id lock o c = some (o', c')) :
    Good id label w o' c' := by
  have henter : 1 ≤ c'.phase.rank := by
    rw [rank_runStep hstep]
    exact Nat.le_add_left 1 _
  obtain ⟨-, hid, hcb, htaken, hname, hthread, hsystem, hsem, hcalls⟩ := h
  obtain ⟨phase, threadName, systemName, cb, calls⟩ := c
  cases phase with
  | absent => cases hstep
  | working => cases hstep
  | locking =>
      cases lock with
      | true => cases hstep
      | false =>
          cases hstep
          exact ⟨henter, hid, hcb, htaken, hname, hthread, hsystem, hsem, hcalls⟩
  | enter =>
      cases hstep
      exact ⟨henter, hid, hcb, htaken, hname, rfl, hsystem, hsem, hcalls⟩
  | setId =>
      cases hstep
      exact ⟨henter, rfl, hcb, htaken, hname, hthread, hsystem, hsem, hcalls⟩
  | setName =>
      cases hstep
      exact ⟨henter, hid, hcb, htaken, hname, hthread, rfl, hsem, hcalls⟩
  | swap =>
      cases hstep
      exact ⟨henter, hid, rfl, hcb, hname, hthread, hsystem, hsem, hcalls⟩
  | notify =>
      cases hstep
      refine ⟨henter, hid, hcb, htaken, hname, hthread, hsystem, ?_, hcalls⟩
      have hzero : o.semaphore + w.toNat = 0 := hsem
      show o.semaphore + 1 + w.toNat = 1
      omega
  | call =>
      cases hstep
      have hzero : calls = 0 := hcalls
      exact ⟨henter, hid, hcb, htaken, hname, hthread, hsystem, hsem, congrArg (· + 1) hzero⟩

/-- What the constructor leaves behind. -/
def filled (tid : ℕ) (name : List UInt8) : Thread := ⟨some tid, false, (make name).name, 0⟩

/-- Past the semaphore the object is filled in, and its thread has the function. -/
theorem Good.filled {id : ℕ} {label : List UInt8} {o : Thread} {c : Context}
    (h : Good id label true o c) : 6 ≤ c.phase.rank ∧ o = filled id label := by
  have hrank : 6 ≤ c.phase.rank := by
    have hsem := h.semaphore
    rw [Bool.toNat_true] at hsem
    by_contra hlow
    rw [if_neg hlow] at hsem
    omega
  refine ⟨hrank, ?_⟩
  have hid := h.id
  have hcb := h.cb
  have hsem := h.semaphore
  rw [if_pos (le_trans (by decide) hrank)] at hid
  rw [decide_eq_false (by omega)] at hcb
  rw [if_pos hrank, Bool.toNat_true] at hsem
  obtain ⟨i, cb, label', sem⟩ := o
  cases hid
  cases hcb
  cases h.name
  cases (show sem = 0 by simpa using hsem)
  rfl

/-- The function is called once, behind the swap, by a thread that has its names. -/
theorem Good.called {id : ℕ} {label : List UInt8} {w : Bool} {o : Thread} {c : Context}
    (h : Good id label w o c) :
    c.calls ≤ 1 ∧ (c.calls = 1 → c.cb = true ∧ c.threadName = (make label).name ∧
      c.systemName = (make label).name.take 15) := by
  have hcalls := h.calls
  by_cases hrank : 7 ≤ c.phase.rank
  · rw [if_pos hrank] at hcalls
    refine ⟨le_of_eq hcalls, fun _ => ⟨?_, ?_, ?_⟩⟩
    · rw [h.taken, decide_eq_true (by omega)]
    · rw [h.threadName, if_pos (by omega), h.name]
    · rw [h.systemName, if_pos (by omega), h.name]
  · rw [if_neg hrank] at hcalls
    exact ⟨by omega, fun hone => absurd (hone.symm.trans hcalls) (by decide)⟩

/-! ## The invariant -/

/-- What holds all along `start`. -/
structure Inv (n : ℕ) (tid : ℕ → ℕ) (name : ℕ → List UInt8) (s : Starting) : Prop where
  good : ∀ i < s.created n, Good (tid i) (name i) (decide (i < s.returned n)) (s.threads i)
    (s.contexts i)
  absent : ∀ i, s.created n ≤ i → s.contexts i = Context.absent
  ids : s.threadIds = (List.range (s.pushed n)).map fun i => some (tid i)
  le : s.created n ≤ n

theorem returned_le_created (s : Starting) : s.returned n ≤ s.created n := by
  obtain ⟨phase, threads, contexts, ids⟩ := s
  cases phase with
  | wait k => exact Nat.le_succ k
  | _ => exact le_refl _

/-- Only a thread that has been made takes steps. -/
theorem Inv.lt_created {i : ℕ} {lock : Bool} {x : Thread × Context} (h : Inv n tid name s)
    (hrun : runStep (tid i) lock (s.threads i) (s.contexts i) = some x) : i < s.created n := by
  by_contra hlow
  rw [h.absent i (not_lt.mp hlow)] at hrun
  cases hrun

/-- A step of a thread. -/
theorem Inv.thread {i : ℕ} (h : Inv n tid name s) (hstep : s.threadStep tid i = some t) :
    Inv n tid name t := by
  obtain ⟨⟨o, c⟩, hrun, rfl⟩ := Option.map_eq_some_iff.mp hstep
  have hi : i < s.created n := h.lt_created hrun
  refine ⟨fun j hj => ?_, fun j hj => ?_, h.ids, h.le⟩
  · show Good _ _ _ (Function.update s.threads i o j) (Function.update s.contexts i c j)
    by_cases hji : j = i
    · rw [hji, Function.update_self, Function.update_self]
      exact (h.good i hi).step hrun
    · rw [Function.update_of_ne hji, Function.update_of_ne hji]
      exact h.good j hj
  · have hji : j ≠ i := by
      rintro rfl
      exact absurd hi (not_lt.mpr hj)
    exact (Function.update_of_ne hji _ _).trans (h.absent j hj)

/-- A step of `start`. -/
theorem Inv.start {ok : Bool} (h : Inv n tid name s) (hstep : s.startStep n name ok = some t) :
    Inv n tid name t := by
  obtain ⟨phase, threads, contexts, ids⟩ := s
  cases phase with
  | done => cases hstep
  | threw k => cases hstep
  | create k =>
      simp only [startStep] at hstep
      by_cases hk : k < n
      · rw [if_pos hk] at hstep
        cases ok with
        | false =>
            cases hstep
            exact ⟨h.good, h.absent, h.ids, h.le⟩
        | true =>
            cases hstep
            refine ⟨fun i hi => ?_, fun i hi => ?_, h.ids, hk⟩
            · show Good _ _ (decide (i < k)) (Function.update threads k _ i)
                (Function.update contexts k _ i)
              by_cases hik : i = k
              · subst hik
                rw [Function.update_self, Function.update_self, decide_eq_false (lt_irrefl i)]
                exact good_make (tid i) (name i)
              · rw [Function.update_of_ne hik, Function.update_of_ne hik]
                exact h.good i (lt_of_le_of_ne (Nat.lt_succ_iff.mp hi) hik)
            · have hik : i ≠ k := Nat.ne_of_gt hi
              exact (Function.update_of_ne hik _ _).trans (h.absent i (Nat.le_of_succ_le hi))
      · rw [if_neg hk] at hstep
        cases hstep
        obtain rfl : k = n := le_antisymm h.le (not_lt.mp hk)
        exact ⟨h.good, h.absent, h.ids, le_refl _⟩
  | wait k =>
      simp only [startStep] at hstep
      split_ifs at hstep with hsem
      cases hstep
      refine ⟨fun i hi => ?_, h.absent, h.ids, h.le⟩
      have hgood : Good _ _ (decide (i < k)) (threads i) (contexts i) := h.good i hi
      show Good _ _ (decide (i < k + 1)) (Function.update threads k _ i) (contexts i)
      by_cases hik : i = k
      · subst hik
        rw [decide_eq_false (lt_irrefl i)] at hgood
        rw [Function.update_self, decide_eq_true (Nat.lt_succ_self i)]
        exact hgood.wait hsem
      · have hiff : i < k ↔ i < k + 1 := by omega
        rw [Function.update_of_ne hik, ← decide_eq_decide.mpr hiff]
        exact hgood
  | push k =>
      cases hstep
      refine ⟨h.good, h.absent, ?_, h.le⟩
      -- the constructor of thread `k` has returned, so the id is there
      have hgood : Good _ _ (decide (k < k + 1)) (threads k) (contexts k) :=
        h.good k (Nat.lt_succ_self k)
      rw [decide_eq_true (Nat.lt_succ_self k)] at hgood
      have hids : ids = (List.range k).map fun i => some (tid i) := h.ids
      show ids ++ [(threads k).id] = (List.range (k + 1)).map fun i => some (tid i)
      rw [List.range_succ, List.map_append, ← hids, hgood.filled.2]
      rfl

theorem Inv.step {l : Label} (h : Inv n tid name s) (hstep : s.step n tid name l = some t) :
    Inv n tid name t := by
  cases l with
  | start ok => exact h.start hstep
  | thread i => exact h.thread hstep

end Steps

section Runs

variable {n : ℕ} {tid : ℕ → ℕ} {mName : List UInt8} {s : Starting}

theorem inv_start : Inv n tid (workerName mName) (machine n tid mName).start :=
  ⟨fun i hi => absurd hi (Nat.not_lt_zero i), fun _ _ => rfl, rfl, Nat.zero_le n⟩

theorem inv_of_reachable (h : (machine n tid mName).Reachable (fun _ _ => True) s) :
    Inv n tid (workerName mName) s :=
  h.invariant inv_start fun hinv _ hstep => hinv.step hstep

/-- **A started thread is a whole one.** However the threads run, once the constructor of a
thread has returned its object is filled in and stays as it is, the thread has taken the
function out of it, and the ids `start` stores are those of the threads, in their order. Each
function is called at most once, under the name of its thread, which the system has cut to 15
bytes. -/
theorem threads_filled (h : (machine n tid mName).Reachable (fun _ _ => True) s) :
    (∀ i < s.returned n, s.threads i = filled (tid i) (workerName mName i)) ∧
    s.threadIds = (List.range (s.pushed n)).map (fun i => some (tid i)) ∧
    ∀ i, (s.contexts i).calls ≤ 1 ∧ ((s.contexts i).calls = 1 → (s.contexts i).cb = true ∧
      (s.contexts i).threadName = workerName mName i ∧
      (s.contexts i).systemName = (workerName mName i).take 15) := by
  have hinv := inv_of_reachable h
  refine ⟨fun i hi => ?_, hinv.ids, fun i => ?_⟩
  · have hgood := hinv.good i (lt_of_lt_of_le hi s.returned_le_created)
    rw [decide_eq_true hi] at hgood
    exact hgood.filled.2
  · rcases lt_or_ge i (s.created n) with hi | hi
    · have hcalled := (hinv.good i hi).called
      rw [make_workerName] at hcalled
      exact hcalled
    · rw [hinv.absent i hi]
      exact ⟨Nat.zero_le 1, fun hone => absurd hone (by decide)⟩

/-- Two threads, the second of which is still on its way in when `start` reads the id of the
first. -/
theorem threads_filled_two : ∃ s : Starting,
    (machine 2 (fun i => 100 + i) (bytes "io")).Reachable (fun _ _ => True) s ∧
      (s.phase = .wait 1 ∧ (s.contexts 0).calls = 1) ∧
      s.threads 0 = filled 100 (bytes "io_0") ∧ s.threadIds = [some 100] := by
  obtain ⟨s, hruns, hs⟩ : ∃ s,
      (machine 2 (fun i => 100 + i) (bytes "io")).Reachable (fun _ _ => True) s ∧
        s.phase = .wait 1 ∧ (s.contexts 0).calls = 1 := Machine.exists_of_exec
    [.start true, .thread 0, .thread 0, .thread 0, .thread 0, .thread 0, .start true,
      .thread 0, .start true, .start true, .thread 1] (by decide)
  obtain ⟨hfilled, hids, -⟩ := threads_filled hruns
  have hname : workerName (bytes "io") 0 = bytes "io_0" := by decide
  have hpushed : s.pushed 2 = 1 ∧ s.returned 2 = 1 := by
    simp only [pushed, returned, hs.1, and_self]
  rw [hpushed.1] at hids
  rw [hpushed.2] at hfilled
  exact ⟨s, hruns, hs, hname ▸ hfilled 0 Nat.one_pos, hids⟩

/-! ## `start` ends -/

/-- How far `start` is. -/
def startRank (n : ℕ) : StartPhase → ℕ
  | .create k => 3 * k
  | .wait k => 3 * k + 1
  | .push k => 3 * k + 2
  | .done => 3 * n + 1
  | .threw _ => 3 * n + 1

/-- How far `start` and the threads are. -/
def progress (n : ℕ) (s : Starting) : ℕ :=
  startRank n s.phase + ∑ i ∈ Finset.range n, (s.contexts i).phase.rank

theorem sum_rank_update {contexts : ℕ → Context} {i : ℕ} {c : Context} (hi : i < n)
    (hc : c.phase.rank = (contexts i).phase.rank + 1) :
    ∑ j ∈ Finset.range n, (Function.update contexts i c j).phase.rank =
      ∑ j ∈ Finset.range n, (contexts j).phase.rank + 1 := by
  have hsum := sum_update hi (fun c : Context => c.phase.rank) contexts c
  omega

/-- A step of `start` that makes no thread. -/
theorem progress_of_phase {t : Starting} (hcontexts : t.contexts = s.contexts)
    (hphase : startRank n s.phase < startRank n t.phase) : s.progress n + 1 ≤ t.progress n := by
  rw [progress, progress, hcontexts]
  omega

/-- A step of `start` that makes one. -/
theorem progress_of_create {t : Starting} {k : ℕ} {c : Context} (hk : k < n)
    (habsent : s.contexts k = Context.absent) (hc : c.phase = .enter)
    (hcontexts : t.contexts = Function.update s.contexts k c)
    (hphase : startRank n s.phase < startRank n t.phase) : s.progress n + 1 ≤ t.progress n := by
  have hrank : c.phase.rank = (s.contexts k).phase.rank + 1 := by
    rw [habsent, hc]
    rfl
  rw [progress, progress, hcontexts, sum_rank_update hk hrank]
  omega

/-- Each step is a step forward. -/
theorem Inv.progress_lt {name : ℕ → List UInt8} {t : Starting} {l : Label}
    (h : Inv n tid name s) (hstep : s.step n tid name l = some t) :
    s.progress n + 1 ≤ t.progress n := by
  cases l with
  | thread i =>
      obtain ⟨⟨o, c⟩, hrun, rfl⟩ := Option.map_eq_some_iff.mp hstep
      have hsum := sum_rank_update (lt_of_lt_of_le (h.lt_created hrun) h.le) (rank_runStep hrun)
      show startRank n s.phase + _ + 1 ≤
        startRank n s.phase + ∑ j ∈ Finset.range n, (Function.update s.contexts i c j).phase.rank
      rw [hsum]
      exact le_of_eq (Nat.add_assoc _ _ 1)
  | start ok =>
      replace hstep : s.startStep n name ok = some t := hstep
      have hle := h.le
      cases hphase : s.phase with
      | done => simp [startStep, hphase] at hstep
      | threw k => simp [startStep, hphase] at hstep
      | create k =>
          simp only [startStep, hphase] at hstep
          simp only [created, hphase] at hle
          have habsent : s.contexts k = Context.absent :=
            h.absent k (by simp only [created, hphase, le_refl])
          split_ifs at hstep with hk hok <;> cases hstep
          · exact progress_of_create hk habsent rfl rfl (by simp only [startRank, hphase]; omega)
          · exact progress_of_phase rfl (by simp only [startRank, hphase]; omega)
          · exact progress_of_phase rfl (by simp only [startRank, hphase]; omega)
      | wait k =>
          simp only [startStep, hphase] at hstep
          split_ifs at hstep with hsem
          cases hstep
          exact progress_of_phase rfl (by simp only [startRank, hphase]; omega)
      | push k =>
          simp only [startStep, hphase] at hstep
          cases hstep
          exact progress_of_phase rfl (by simp only [startRank, hphase]; omega)

theorem rank_le (p : Thread.Phase) : p.rank ≤ 8 := by
  cases p <;> decide

theorem Inv.progress_le {name : ℕ → List UInt8} (h : Inv n tid name s) :
    s.progress n ≤ 11 * n + 1 := by
  have hsum : ∑ i ∈ Finset.range n, (s.contexts i).phase.rank ≤ n * 8 := by
    have hcard := Finset.sum_le_card_nsmul (Finset.range n) (fun i => (s.contexts i).phase.rank) 8
      fun i _ => rank_le _
    rwa [Finset.card_range, smul_eq_mul] at hcard
  have hphase : startRank n s.phase ≤ 3 * n + 1 := by
    have hle := h.le
    obtain ⟨phase, threads, contexts, ids⟩ := s
    cases phase <;> simp only [created, startRank] at hle ⊢ <;> omega
  show startRank n s.phase + _ ≤ _
  omega

/-- Where nothing can happen any more, `start` is over and the threads are past its lock. -/
theorem Inv.over {name : ℕ → List UInt8} (h : Inv n tid name s)
    (hnone : ∀ l, s.step n tid name l = none) :
    (s.phase = .done ∨ ∃ k, s.phase = .threw k) ∧ s.locked = false ∧
      ∀ i < s.created n, (s.contexts i).phase = .working := by
  have hthread : ∀ i < s.created n, (s.contexts i).phase = .working ∨
      (s.contexts i).phase = .locking ∧ s.locked = true := fun i hi =>
    runStep_eq_none (Option.map_eq_none_iff.mp (hnone (.thread i))) (h.good i hi).enter
  have hstart : s.startStep n name true = none := hnone (.start true)
  have hover : s.phase = .done ∨ ∃ k, s.phase = .threw k := by
    cases hphase : s.phase with
    | done => exact .inl rfl
    | threw k => exact .inr ⟨k, rfl⟩
    | create k =>
        simp only [startStep, hphase, if_true] at hstart
        split_ifs at hstart
    | push k =>
        simp only [startStep, hphase] at hstart
        cases hstart
    | wait k =>
        -- the new thread takes no lock before it notifies
        have hk : k < s.created n := by
          simp only [created, hphase]
          exact Nat.lt_succ_self k
        have hwaits : decide (k < s.returned n) = false := by
          simp only [returned, hphase]
          exact decide_eq_false (lt_irrefl k)
        have hsem := (h.good k hk).semaphore
        have hrank : 6 ≤ (s.contexts k).phase.rank := by
          rcases hthread k hk with hp | ⟨hp, -⟩ <;> rw [hp] <;> decide
        rw [hwaits, if_pos hrank, Bool.toNat_false, Nat.add_zero] at hsem
        simp only [startStep, hphase, hsem] at hstart
        cases hstart
  have hunlocked : s.locked = false := by
    rcases hover with hp | ⟨k, hp⟩ <;> simp only [locked, hp]
  refine ⟨hover, hunlocked, fun i hi => ?_⟩
  rcases hthread i hi with hp | ⟨-, hlock⟩
  · exact hp
  · exact absurd (hlock.symm.trans hunlocked) (by decide)

/-- **`start` ends.** The constructors wait for threads whose function needs the lock that
`start` holds all the while, but they wait only for the part before it: a run takes at most
`11 n + 1` steps, and where it can go no further `start` has returned, or thrown, without the
lock and each thread that was made has had it. -/
theorem start_ends {ls : List Label}
    (h : (machine n tid mName).exec (fun _ _ => True) (machine n tid mName).start ls = some s) :
    ls.length ≤ 11 * n + 1 ∧
    ((∀ l, (machine n tid mName).step s l = none) →
      (s.phase = .done ∨ ∃ k, s.phase = .threw k) ∧ s.locked = false ∧
        ∀ i < s.created n, (s.contexts i).phase = .working) := by
  have hstart : Inv n tid (workerName mName) (machine n tid mName).start := inv_start
  obtain ⟨hinv, hlength⟩ := Machine.exec_length
    (fun hinv hstep => ⟨hinv.step hstep, hinv.progress_lt hstep⟩) ls hstart h
  have hbound := hinv.progress_le
  exact ⟨by omega, hinv.over⟩

/-- One thread, which gets the lock in the last of eleven steps. -/
theorem start_ends_one : ∃ (ls : List Label) (s : Starting),
    (machine 1 (fun _ => 100) (bytes "io")).exec (fun _ _ => True)
      (machine 1 (fun _ => 100) (bytes "io")).start ls = some s ∧
    ls.length = 11 ∧ ls.length ≤ 12 ∧ s.locked = false ∧ (s.contexts 0).phase = .working := by
  let ls : List Label := [.start true, .thread 0, .thread 0, .thread 0, .thread 0, .thread 0,
    .start true, .thread 0, .start true, .start true, .thread 0]
  have hrun : ((machine 1 (fun _ => 100) (bytes "io")).exec (fun _ _ => True)
      (machine 1 (fun _ => 100) (bytes "io")).start ls).any (fun s =>
        decide (s.phase = .done ∧ (s.contexts 0).phase = .working)) = true := by decide
  obtain ⟨s, hs, hp⟩ := (Option.any_eq_true _ _).mp hrun
  obtain ⟨hdone, hworking⟩ := of_decide_eq_true hp
  obtain ⟨hlength, hover⟩ := start_ends hs
  have habsent := (inv_of_reachable (Machine.runs_of_exec ls hs)).absent
  refine ⟨ls, s, hs, rfl, hlength, ?_⟩
  have hnone : ∀ l, (machine 1 (fun _ => 100) (bytes "io")).step s l = none := by
    intro l
    rcases l with ok | i
    · simp [machine, step, startStep, hdone]
    · rcases Nat.eq_zero_or_pos i with rfl | hi
      · simp [machine, step, threadStep, runStep, hworking]
      · have hcontext := habsent i (by
          simp only [created, hdone]
          exact hi)
        simp [machine, step, threadStep, runStep, hcontext, Context.absent]
  obtain ⟨-, hlocked, hall⟩ := hover hnone
  exact ⟨hlocked, hall 0 (by simp [created, hdone])⟩

end Runs

end Starting

end Skt
