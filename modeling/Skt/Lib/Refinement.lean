import Skt.Lib.Machine

/-!
# Refinement and progress of machines

A relation between the states of two machines that every step of the first keeps, with what
it emits as the steps of the second, carries over to runs: what a run emits is a run of the
second machine. A number that every step makes larger bounds how long a run can be.
-/

namespace Lib

namespace Machine

variable {σ L τ K : Type} {M : Machine σ L} {N : Machine τ K} {Ok : σ → L → Prop}
  [∀ s l, Decidable (Ok s l)] {Ok' : τ → K → Prop} [∀ a k, Decidable (Ok' a k)]

theorem exec_append {a b : τ} (ks ks' : List K) (h : N.exec Ok' a ks = some b) :
    N.exec Ok' a (ks ++ ks') = N.exec Ok' b ks' := by
  induction ks generalizing a with
  | nil =>
      cases h
      rfl
  | cons k ks ih =>
      rw [List.cons_append]
      simp only [exec] at h ⊢
      split_ifs at h with hk
      rw [if_pos hk]
      cases hc : N.step a k with
      | none => simp [hc] at h
      | some c =>
          simp only [hc] at h
          exact ih h

/-- What the steps of a run emit, one after the other. -/
def emitted (M : Machine σ L) (emit : σ → L → List K) : σ → List L → List K
  | _, [] => []
  | s, l :: ls =>
      match M.step s l with
      | none => []
      | some t => emit s l ++ emitted M emit t ls

/-- **Simulation.** Each step is matched by what it emits, so each run is. -/
theorem exec_simulates {R : σ → τ → Prop} {emit : σ → L → List K}
    (hstep : ∀ {s t : σ} {l : L} {a : τ}, R s a → M.step s l = some t →
      ∃ b, N.exec Ok' a (emit s l) = some b ∧ R t b)
    (ls : List L) {s t : σ} {a : τ} (hR : R s a) (h : M.exec Ok s ls = some t) :
    ∃ b, N.exec Ok' a (M.emitted emit s ls) = some b ∧ R t b := by
  induction ls generalizing s a with
  | nil =>
      cases h
      exact ⟨a, rfl, hR⟩
  | cons l ls ih =>
      simp only [exec] at h
      split_ifs at h with hl
      cases hu : M.step s l with
      | none => simp [hu] at h
      | some u =>
          simp only [hu] at h
          obtain ⟨b, hexec, hR'⟩ := hstep hR hu
          obtain ⟨c, hrest, hR''⟩ := ih hR' h
          refine ⟨c, ?_, hR''⟩
          rw [emitted, hu]
          exact (exec_append _ _ hexec).trans hrest

/-- **Progress.** The steps of a run are paid for by what grows. -/
theorem exec_length {I : σ → Prop} {f : σ → ℕ}
    (hstep : ∀ {s t : σ} {l : L}, I s → M.step s l = some t → I t ∧ f s + 1 ≤ f t)
    (ls : List L) {s t : σ} (hs : I s) (h : M.exec Ok s ls = some t) :
    I t ∧ f s + ls.length ≤ f t := by
  induction ls generalizing s with
  | nil =>
      cases h
      exact ⟨hs, le_refl _⟩
  | cons l ls ih =>
      simp only [exec] at h
      split_ifs at h with hl
      cases hu : M.step s l with
      | none => simp [hu] at h
      | some u =>
          simp only [hu] at h
          obtain ⟨hI, hlt⟩ := hstep hs hu
          obtain ⟨hI', hle⟩ := ih hI h
          refine ⟨hI', ?_⟩
          rw [List.length_cons]
          omega

end Machine

end Lib
