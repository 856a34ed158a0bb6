import Mathlib

/-!
# Counting

How many of the first `n` members of a family pass a test, and what changing one
member does to that number.
-/

namespace Lib

variable {α : Type}

def tally (n : ℕ) (p : α → Bool) (f : ℕ → α) : ℤ :=
  ∑ v ∈ Finset.range n, ((p (f v)).toNat : ℤ)

/-- Changing one member changes a sum by the difference at that member. -/
theorem sum_update {M : Type} [AddCommMonoid M] {n w : ℕ} (hw : w < n) (g : α → M) (f : ℕ → α)
    (a : α) : ∑ v ∈ Finset.range n, g (Function.update f w a v) + g (f w) =
      ∑ v ∈ Finset.range n, g (f v) + g a := by
  have hmem := Finset.mem_range.mpr hw
  have hrest : ∑ v ∈ (Finset.range n).erase w, g (Function.update f w a v) =
      ∑ v ∈ (Finset.range n).erase w, g (f v) := by
    apply Finset.sum_congr rfl
    intro v hv
    rw [Function.update_of_ne (Finset.ne_of_mem_erase hv)]
  rw [← Finset.add_sum_erase _ _ hmem, ← Finset.add_sum_erase _ (fun v => g (f v)) hmem,
    Function.update_self, hrest, add_comm (g a), add_comm (g (f w)), add_right_comm]

/-- A sum of one has one term that is not zero, and that is one. -/
theorem exists_of_sum_eq_one {n : ℕ} {g : ℕ → ℕ} (h : ∑ v ∈ Finset.range n, g v = 1) :
    ∃ w, w < n ∧ g w = 1 ∧ ∀ v, v < n → v ≠ w → g v = 0 := by
  obtain ⟨w, hw, hne⟩ := Finset.exists_ne_zero_of_sum_ne_zero (h.trans_ne one_ne_zero)
  rw [← Finset.add_sum_erase _ _ hw] at h
  have hrest : ∑ v ∈ (Finset.range n).erase w, g v = 0 := by omega
  refine ⟨w, Finset.mem_range.mp hw, by omega, fun v hv hvw => ?_⟩
  exact Finset.sum_eq_zero_iff.mp hrest v
    (Finset.mem_erase.mpr ⟨hvw, Finset.mem_range.mpr hv⟩)

theorem tally_update {n w : ℕ} (hw : w < n) (p : α → Bool) (f : ℕ → α) (a : α) :
    tally n p (Function.update f w a) + (p (f w)).toNat = tally n p f + (p a).toNat :=
  sum_update hw (fun b => ((p b).toNat : ℤ)) f a

theorem tally_pos {n w : ℕ} (hw : w < n) {p : α → Bool} {f : ℕ → α}
    (h : p (f w) = true) : 0 < tally n p f := by
  apply Finset.sum_pos' (fun v _ => Int.natCast_nonneg _)
  refine ⟨w, Finset.mem_range.mpr hw, ?_⟩
  rw [h]
  exact Int.one_pos

theorem eq_false_of_tally {n w : ℕ} (hw : w < n) {p : α → Bool} {f : ℕ → α}
    (h : tally n p f ≤ 0) : p (f w) = false := by
  cases hp : p (f w) with
  | false => rfl
  | true => exact absurd (tally_pos hw hp) (not_lt.mpr h)

end Lib
