import Mathlib

/-!
# Machines

A machine takes one labelled step at a time; a label stands for one choice of
the environment, and a label that is not possible in a state has no step. What
holds along every run is proved from what one step keeps.
-/

namespace Lib

structure Machine (σ L : Type) where
  start : σ
  step : σ → L → Option σ

namespace Machine

variable {σ L : Type} (M : Machine σ L)

/-- A run from one state to another whose steps all meet `Ok`. -/
inductive Runs (Ok : σ → L → Prop) : σ → σ → Prop
  | refl (s : σ) : Runs Ok s s
  | tail {s t u : σ} (l : L) : Runs Ok s t → Ok t l → M.step t l = some u →
      Runs Ok s u

def Reachable (Ok : σ → L → Prop) (s : σ) : Prop := M.Runs Ok M.start s

variable {M} {Ok : σ → L → Prop}

theorem Runs.trans {s t u : σ} (h₁ : M.Runs Ok s t) (h₂ : M.Runs Ok t u) :
    M.Runs Ok s u := by
  induction h₂ with
  | refl => exact h₁
  | tail l _ hok hstep ih => exact .tail l ih hok hstep

/-- What every step keeps holds at the end of a run. -/
theorem Runs.invariant {I : σ → Prop} {s t : σ} (h : M.Runs Ok s t)
    (hstep : ∀ {s t : σ} {l : L}, I s → Ok s l → M.step s l = some t → I t)
    (hs : I s) : I t := by
  induction h with
  | refl => exact hs
  | tail l _ hok hst ih => exact hstep ih hok hst

theorem Reachable.invariant {I : σ → Prop} {s : σ} (h : M.Reachable Ok s)
    (hstart : I M.start)
    (hstep : ∀ {s t : σ} {l : L}, I s → Ok s l → M.step s l = some t → I t) : I s :=
  Runs.invariant h hstep hstart

/-- An order that every step respects, where `I` holds, is respected by runs. -/
theorem Runs.le {I : σ → Prop} {R : σ → σ → Prop} {s t : σ} (h : M.Runs Ok s t)
    (hrefl : ∀ s, R s s) (htrans : ∀ {s t u}, R s t → R t u → R s u)
    (hstep : ∀ {s t : σ} {l : L}, I s → Ok s l → M.step s l = some t → I t ∧ R s t)
    (hs : I s) : I t ∧ R s t := by
  induction h with
  | refl => exact ⟨hs, hrefl _⟩
  | tail l _ hok hst ih =>
      obtain ⟨hI, hR⟩ := ih
      obtain ⟨hI', hR'⟩ := hstep hI hok hst
      exact ⟨hI', htrans hR hR'⟩

theorem Runs.mono {Ok' : σ → L → Prop} {s t : σ} (h : M.Runs Ok s t)
    (hok : ∀ s l, Ok s l → Ok' s l) : M.Runs Ok' s t := by
  induction h with
  | refl => exact .refl _
  | tail l _ hl hstep ih => exact .tail l ih (hok _ l hl) hstep

/-! ## Running a machine -/

/-- The state behind a list of labels that all meet `Ok`. -/
def exec (M : Machine σ L) (Ok : σ → L → Prop) [∀ s l, Decidable (Ok s l)] :
    σ → List L → Option σ
  | s, [] => some s
  | s, l :: ls =>
      if Ok s l then
        match M.step s l with
        | none => none
        | some t => exec M Ok t ls
      else none

variable [∀ s l, Decidable (Ok s l)]

theorem runs_of_exec :
    ∀ (ls : List L) {s t : σ}, M.exec Ok s ls = some t → M.Runs Ok s t
  | [], s, t, h => by
      cases h
      exact .refl s
  | l :: ls, s, t, h => by
      simp only [exec] at h
      split_ifs at h with hl
      cases hstep : M.step s l with
      | none => simp [hstep] at h
      | some u =>
          simp only [hstep] at h
          have hone : M.Runs Ok s u := .tail l (.refl s) hl hstep
          exact hone.trans (runs_of_exec ls h)

/-- A state at the end of a run, found by taking the steps of a list. -/
theorem exists_of_exec (ls : List L) {s : σ} {P : σ → Prop} [DecidablePred P]
    (h : (M.exec Ok s ls).any (fun t => decide (P t)) = true) :
    ∃ t, M.Runs Ok s t ∧ P t := by
  cases ht : M.exec Ok s ls with
  | none =>
      rw [ht] at h
      cases h
  | some t =>
      rw [ht] at h
      exact ⟨t, runs_of_exec ls ht, of_decide_eq_true h⟩

end Machine

end Lib
