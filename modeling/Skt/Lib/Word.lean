import Mathlib

/-!
# Machine words

Masks of the low bits of a word, and the word with its bytes in reverse order, both
described by their bits.
-/

namespace Lib

/-- The word whose low `n` bits are set. -/
def lowMask (w n : ℕ) : BitVec w := BitVec.ofNat w (2 ^ n - 1)

theorem getLsbD_lowMask (w n i : ℕ) :
    (lowMask w n).getLsbD i = (decide (i < w) && decide (i < n)) := by
  rw [lowMask, BitVec.getLsbD_ofNat, Nat.testBit_two_pow_sub_one]

/-- `bswap_32`. -/
def bswap32 (v : BitVec 32) : BitVec 32 :=
  v.extractLsb' 0 8 ++ v.extractLsb' 8 8 ++ v.extractLsb' 16 8 ++ v.extractLsb' 24 8

/-- Where a bit of the swapped word comes from. -/
theorem getLsbD_bswap32 (v : BitVec 32) {i : ℕ} (hi : i < 32) :
    (bswap32 v).getLsbD i = v.getLsbD (24 - i / 8 * 8 + i % 8) := by
  simp only [bswap32, BitVec.getLsbD_append, BitVec.getLsbD_extractLsb']
  split_ifs with h₁ h₂ h₃
  · rw [decide_eq_true h₁, Bool.true_and]
    congr 1
    omega
  · rw [decide_eq_true h₂, Bool.true_and]
    congr 1
    omega
  · rw [decide_eq_true h₃, Bool.true_and]
    congr 1
    omega
  · rw [decide_eq_true (by omega), Bool.true_and]
    congr 1
    omega

theorem bswap32_bswap32 (v : BitVec 32) : bswap32 (bswap32 v) = v := by
  apply BitVec.eq_of_getLsbD_eq
  intro i hi
  rw [getLsbD_bswap32 _ hi, getLsbD_bswap32 _ (by omega)]
  congr 1
  omega

theorem bswap32_and (v u : BitVec 32) : bswap32 (v &&& u) = bswap32 v &&& bswap32 u := by
  apply BitVec.eq_of_getLsbD_eq
  intro i hi
  rw [BitVec.getLsbD_and, getLsbD_bswap32 _ hi, getLsbD_bswap32 _ hi, getLsbD_bswap32 _ hi,
    BitVec.getLsbD_and]

theorem bswap32_not (v : BitVec 32) : bswap32 (~~~v) = ~~~bswap32 v := by
  apply BitVec.eq_of_getLsbD_eq
  intro i hi
  rw [BitVec.getLsbD_not, getLsbD_bswap32 _ hi, getLsbD_bswap32 _ hi, BitVec.getLsbD_not,
    decide_eq_true hi, decide_eq_true (by omega)]

/-- A word that has the same bits inside and outside of a mask is zero. -/
theorem eq_zero_of_and_eq {w : ℕ} {x m : BitVec w} (h : x &&& m = x &&& ~~~m) :
    x = 0#w := by
  apply BitVec.eq_of_getLsbD_eq
  intro i hi
  have hbit := congrArg (fun v => v.getLsbD i) h
  simp only [BitVec.getLsbD_and, BitVec.getLsbD_not, hi, decide_true, Bool.true_and] at hbit
  rw [BitVec.getLsbD_zero]
  cases hx : x.getLsbD i with
  | false => rfl
  | true =>
      rw [hx, Bool.true_and, Bool.true_and] at hbit
      cases hm : m.getLsbD i <;> simp [hm] at hbit

end Lib
