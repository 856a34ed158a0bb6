import Skt.Lib.Refinement

/-!
# `CASLock`

A spinlock on one `std::atomic_flag`, behind guards that remember in `m_locked` whether they
hold it. What a flag without an initialiser starts with is left open by the standard the
project is built with.
-/

namespace Skt

open Lib

/-! ## A mutex -/

/-- What a mutex is for: at most one holds it. -/
def mutex (ι : Type) [DecidableEq ι] : Machine (Option ι) (ι × Bool) where
  start := none
  step owner l :=
    match l, owner with
    | (i, true), none => some (some i)
    | (i, false), some j => if i = j then some none else none
    | _, _ => none

/-! ## `CASLock` -/

/-- Where a `ScopedLockImpl<CASLock>` is. -/
inductive GuardPhase
  /-- not made yet, or destroyed -/
  | absent
  /-- in the loop of `CASLock::lock`, called by the constructor or by `lock` -/
  | spinning
  | locked
  | unlocked
  deriving DecidableEq, Repr

structure CASLock (ι : Type) where
  flag : Bool
  guards : ι → GuardPhase

namespace CASLock

variable {ι : Type} [DecidableEq ι]

inductive Label (ι : Type)
  | construct (i : ι)
  | lock (i : ι)
  /-- one `atomic_flag_test_and_set_explicit` -/
  | testAndSet (i : ι)
  | unlock (i : ι)
  | destroy (i : ι)

def move (s : CASLock ι) (i : ι) (phase : GuardPhase) : CASLock ι :=
  { s with guards := Function.update s.guards i phase }

/-- `CASLock::unlock`, called by a guard that goes to `phase`. -/
def clear (s : CASLock ι) (i : ι) (phase : GuardPhase) : CASLock ι :=
  { (s.move i phase) with flag := false }

def step (s : CASLock ι) : Label ι → Option (CASLock ι)
  | .construct i =>
      match s.guards i with
      | .absent => some (s.move i .spinning)
      | _ => none
  | .lock i =>
      match s.guards i with
      | .locked => some s
      | .unlocked => some (s.move i .spinning)
      | _ => none
  | .testAndSet i =>
      match s.guards i with
      | .spinning => some (if s.flag then s else { (s.move i .locked) with flag := true })
      | _ => none
  | .unlock i =>
      match s.guards i with
      | .locked => some (s.clear i .unlocked)
      | .unlocked => some s
      | _ => none
  | .destroy i =>
      match s.guards i with
      | .locked => some (s.clear i .absent)
      | .unlocked => some (s.move i .absent)
      | _ => none

/-- A new lock; `flag` is what its `atomic_flag` starts with. -/
def machine (ι : Type) [DecidableEq ι] (flag : Bool) : Machine (CASLock ι) (Label ι) where
  start := ⟨flag, fun _ => .absent⟩
  step := step

/-- Who holds the lock in terms of a mutex. A flag that is set from the start stays so, and
nobody gets the lock. -/
structure Owned (flag : Bool) (s : CASLock ι) (owner : Option ι) : Prop where
  locked_iff : ∀ i, s.guards i = .locked ↔ owner = some i
  flag_eq : s.flag = (flag || owner.isSome)
  clear_at_start : owner.isSome = true → flag = false

variable {flag : Bool} {s t : CASLock ι} {owner : Option ι}

theorem Owned.move {i : ι} {phase : GuardPhase} (h : Owned flag s owner)
    (hold : s.guards i ≠ .locked) (hnew : phase ≠ .locked) : Owned flag (s.move i phase) owner := by
  refine ⟨fun j => ?_, h.flag_eq, h.clear_at_start⟩
  show Function.update s.guards i phase j = .locked ↔ _
  rw [Function.update_apply]
  split_ifs with hj
  · rw [hj, ← h.locked_iff i]
    exact iff_of_false hnew hold
  · exact h.locked_iff j

theorem Owned.take {i : ι} (h : Owned flag s owner) (hflag : s.flag = false) :
    owner = none ∧ Owned flag { (s.move i .locked) with flag := true } (some i) := by
  have hparts : flag = false ∧ owner.isSome = false := by
    rw [h.flag_eq, Bool.or_eq_false_iff] at hflag
    exact hflag
  have hnone : owner = none := Option.not_isSome_iff_eq_none.mp (by simp [hparts.2])
  refine ⟨hnone, fun j => ?_, by simp, fun _ => hparts.1⟩
  show Function.update s.guards i .locked j = .locked ↔ some i = some j
  rw [Function.update_apply, Option.some.injEq]
  split_ifs with hj
  · exact iff_of_true rfl hj.symm
  · rw [h.locked_iff j, hnone]
    exact iff_of_false (by simp) fun heq => hj heq.symm

theorem Owned.release {i : ι} (phase : GuardPhase) (h : Owned flag s owner)
    (hold : s.guards i = .locked) (hnew : phase ≠ .locked) :
    owner = some i ∧ Owned flag (s.clear i phase) none := by
  have hown := (h.locked_iff i).mp hold
  have hflag : flag = false := h.clear_at_start (by rw [hown]; rfl)
  refine ⟨hown, fun j => ?_, by simp [CASLock.clear, hflag], by simp⟩
  show Function.update s.guards i phase j = .locked ↔ none = some j
  rw [Function.update_apply]
  split_ifs with hj
  · exact iff_of_false hnew (by simp)
  · rw [h.locked_iff j, hown, Option.some.injEq]
    exact iff_of_false (fun heq => hj heq.symm) (by simp)

/-- What a step is for a mutex: a guard takes it, or gives it back, or nothing happens. -/
def event (s : CASLock ι) : Label ι → List (ι × Bool)
  | .testAndSet i => if s.flag then [] else [(i, true)]
  | .unlock i => if s.guards i = .locked then [(i, false)] else []
  | .destroy i => if s.guards i = .locked then [(i, false)] else []
  | _ => []

theorem exec_give (i : ι) :
    (mutex ι).exec (fun _ _ => True) (some i) [(i, false)] = some none := by
  simp [Machine.exec, mutex]

/-- A step of the lock is one of the mutex, or none. -/
theorem Owned.step {l : Label ι} (h : Owned flag s owner) (hstep : s.step l = some t) :
    ∃ owner', (mutex ι).exec (fun _ _ => True) owner (s.event l) = some owner' ∧
      Owned flag t owner' := by
  cases l with
  | construct i =>
      cases hi : s.guards i with
      | absent =>
          simp only [CASLock.step, hi, Option.some.injEq] at hstep
          exact ⟨owner, rfl, hstep ▸ h.move (by simp [hi]) (by simp)⟩
      | _ => simp [CASLock.step, hi] at hstep
  | lock i =>
      cases hi : s.guards i with
      | locked =>
          simp only [CASLock.step, hi, Option.some.injEq] at hstep
          exact ⟨owner, rfl, hstep ▸ h⟩
      | unlocked =>
          simp only [CASLock.step, hi, Option.some.injEq] at hstep
          exact ⟨owner, rfl, hstep ▸ h.move (by simp [hi]) (by simp)⟩
      | _ => simp [CASLock.step, hi] at hstep
  | testAndSet i =>
      cases hi : s.guards i with
      | spinning =>
          simp only [CASLock.step, hi, Option.some.injEq] at hstep
          cases hflag : s.flag with
          | true =>
              rw [hflag, if_pos rfl] at hstep
              exact ⟨owner, by rw [event, hflag]; rfl, hstep ▸ h⟩
          | false =>
              rw [hflag, if_neg Bool.false_ne_true] at hstep
              obtain ⟨rfl, howned⟩ := h.take (i := i) hflag
              exact ⟨some i, by rw [event, hflag]; rfl, hstep ▸ howned⟩
      | _ => simp [CASLock.step, hi] at hstep
  | unlock i =>
      cases hi : s.guards i with
      | locked =>
          simp only [CASLock.step, hi, Option.some.injEq] at hstep
          obtain ⟨rfl, howned⟩ := h.release .unlocked hi (by simp)
          exact ⟨none, by rw [event, if_pos hi]; exact exec_give i, hstep ▸ howned⟩
      | unlocked =>
          simp only [CASLock.step, hi, Option.some.injEq] at hstep
          exact ⟨owner, by rw [event, hi]; rfl, hstep ▸ h⟩
      | _ => simp [CASLock.step, hi] at hstep
  | destroy i =>
      cases hi : s.guards i with
      | locked =>
          simp only [CASLock.step, hi, Option.some.injEq] at hstep
          obtain ⟨rfl, howned⟩ := h.release .absent hi (by simp)
          exact ⟨none, by rw [event, if_pos hi]; exact exec_give i, hstep ▸ howned⟩
      | unlocked =>
          simp only [CASLock.step, hi, Option.some.injEq] at hstep
          exact ⟨owner, by rw [event, hi]; rfl, hstep ▸ h.move (by simp [hi]) (by simp)⟩
      | _ => simp [CASLock.step, hi] at hstep

/-- **`CASLock` is a mutex.** Over any run of any number of guards, the guards take the lock and
give it back as a mutex lets them, one after the other, and who is locked at the end is who owns
the mutex then. The flag is set while one is, and where it is set from the start nobody ever
gets the lock. -/
theorem refines_mutex {ls : List (Label ι)}
    (h : (machine ι flag).exec (fun _ _ => True) (machine ι flag).start ls = some s) :
    ∃ owner, (mutex ι).exec (fun _ _ => True) none
        ((machine ι flag).emitted event (machine ι flag).start ls) = some owner ∧
      Owned flag s owner := by
  have hstart : Owned flag (machine ι flag).start none :=
    ⟨fun i => by simp [machine], by simp [machine], by simp⟩
  exact Machine.exec_simulates (fun howned hstep => howned.step hstep) ls hstart h

/-- Two guards: the second spins until the first is destroyed. -/
theorem refines_mutex_two : ∃ (ls : List (Label (Fin 2))) (s : CASLock (Fin 2)),
    (machine (Fin 2) false).exec (fun _ _ => True) (machine (Fin 2) false).start ls = some s ∧
      (machine (Fin 2) false).emitted event (machine (Fin 2) false).start ls =
        [(0, true), (0, false), (1, true)] ∧
      s.guards 1 = .locked ∧ ∃ owner, (mutex (Fin 2)).exec (fun _ _ => True) none
        [(0, true), (0, false), (1, true)] = some owner ∧ Owned false s owner := by
  let ls : List (Label (Fin 2)) :=
    [.construct 0, .testAndSet 0, .construct 1, .testAndSet 1, .destroy 0, .testAndSet 1]
  have hrun : ((machine (Fin 2) false).exec (fun _ _ => True) (machine (Fin 2) false).start
      ls).any (fun s => decide (s.guards 1 = .locked)) = true := by decide
  obtain ⟨s, hs, hlocked⟩ := (Option.any_eq_true _ _).mp hrun
  exact ⟨ls, s, hs, by decide, of_decide_eq_true hlocked, refines_mutex hs⟩

end CASLock

end Skt
