import Mathlib

/-!
# The bytes of a number

Fixed-width byte representations in the two byte orders, and the base-128
groups of a number of any size, the lowest first, with the top bit of every
group but the last set.
-/

namespace Lib

/-- The `k` low bytes of a number, the lowest first. -/
def leBytes (k v : ℕ) : List UInt8 :=
  (List.range k).map fun i => UInt8.ofNat (v / 256 ^ i)

/-- The `k` low bytes of a number, the highest first. -/
def beBytes (k v : ℕ) : List UInt8 :=
  (List.range k).map fun i => UInt8.ofNat (v / 256 ^ (k - 1 - i))

/-- The number of bytes given lowest first. -/
def ofLeBytes : List UInt8 → ℕ
  | [] => 0
  | b :: bs => b.toNat + 256 * ofLeBytes bs

@[simp] theorem length_leBytes (k v : ℕ) : (leBytes k v).length = k := by
  simp [leBytes]

theorem leBytes_succ (k v : ℕ) :
    leBytes (k + 1) v = UInt8.ofNat v :: leBytes k (v / 256) := by
  simp only [leBytes, List.range_succ_eq_map, List.map_cons, List.map_map, pow_zero,
    Nat.div_one]
  congr 2
  funext i
  simp only [Function.comp_apply, Nat.succ_eq_add_one, pow_succ', Nat.div_div_eq_div_mul]

theorem reverse_leBytes (k v : ℕ) : (leBytes k v).reverse = beBytes k v := by
  apply List.ext_getElem
  · simp [leBytes, beBytes]
  · intro i h₁ h₂
    simp [leBytes, beBytes]

theorem reverse_beBytes (k v : ℕ) : (beBytes k v).reverse = leBytes k v := by
  rw [← reverse_leBytes, List.reverse_reverse]

@[simp] theorem length_beBytes (k v : ℕ) : (beBytes k v).length = k := by
  simp [beBytes]

theorem ofLeBytes_leBytes : ∀ k v : ℕ, ofLeBytes (leBytes k v) = v % 256 ^ k
  | 0, v => by simp [leBytes, ofLeBytes, Nat.mod_one]
  | k + 1, v => by
      rw [leBytes_succ, ofLeBytes, ofLeBytes_leBytes k (v / 256), pow_succ', Nat.mod_mul]
      rfl

theorem leBytes_ofLeBytes : ∀ bs : List UInt8, leBytes bs.length (ofLeBytes bs) = bs
  | [] => rfl
  | b :: bs => by
      have hb := b.toNat_lt
      have hdiv : (b.toNat + 256 * ofLeBytes bs) / 256 = ofLeBytes bs := by omega
      have hlow : UInt8.ofNat (b.toNat + 256 * ofLeBytes bs) = b := by
        apply UInt8.toNat_inj.mp
        rw [UInt8.toNat_ofNat']
        omega
      rw [List.length_cons, leBytes_succ, ofLeBytes, hdiv, hlow, leBytes_ofLeBytes bs]

/-! ## Base-128 groups -/

def groups (v : ℕ) : List UInt8 :=
  if v < 128 then [UInt8.ofNat v]
  else UInt8.ofNat (v % 128 + 128) :: groups (v / 128)

theorem groups_of_lt {v : ℕ} (h : v < 128) : groups v = [UInt8.ofNat v] := by
  rw [groups, if_pos h]

theorem groups_of_le {v : ℕ} (h : 128 ≤ v) :
    groups v = UInt8.ofNat (v % 128 + 128) :: groups (v / 128) := by
  rw [groups, if_neg (Nat.not_lt.mpr h)]

/-- `k + 1` groups hold `7 * (k + 1)` bits. -/
theorem length_groups_le : ∀ (k v : ℕ), v < 128 ^ (k + 1) → (groups v).length ≤ k + 1
  | 0, v, h => by
      rw [groups_of_lt (by simpa using h)]
      rfl
  | k + 1, v, h => by
      rcases Nat.lt_or_ge v 128 with hv | hv
      · rw [groups_of_lt hv]
        simp
      · have hdiv : v / 128 < 128 ^ (k + 1) := by
          rw [Nat.div_lt_iff_lt_mul (by decide), ← pow_succ]
          exact h
        rw [groups_of_le hv, List.length_cons]
        exact Nat.succ_le_succ (length_groups_le k (v / 128) hdiv)

/-- The number of base-128 groups given lowest first, whatever their top bits. -/
def ofGroups : List UInt8 → ℕ
  | [] => 0
  | b :: bs => b.toNat % 128 + 128 * ofGroups bs

/-- The low seven bits of a byte. -/
theorem toNat_and_low (b : UInt8) : (b &&& 0x7f).toNat = b.toNat % 128 := by
  rw [UInt8.toNat_and]
  exact Nat.and_two_pow_sub_one_eq_mod b.toNat 7

/-- Joining bits above those of a number is addition. -/
theorem or_shiftLeft {r i : ℕ} (h : r < 2 ^ i) (u : ℕ) : r ||| u <<< i = r + u * 2 ^ i := by
  rw [Nat.or_comm, ← Nat.shiftLeft_add_eq_or_of_lt h, Nat.shiftLeft_eq, Nat.add_comm]

/-- The same where the number above is cut off at `w` bits. -/
theorem or_shiftLeft_mod {r i w : ℕ} (h : r < 2 ^ i) (hi : i ≤ w) (u : ℕ) :
    r ||| u <<< i % 2 ^ w = r + u * 2 ^ i % 2 ^ w := by
  have hsplit : (2 : ℕ) ^ w = 2 ^ i * 2 ^ (w - i) := by
    rw [← pow_add]
    congr 1
    omega
  have hmod : u * 2 ^ i % 2 ^ w = (u % 2 ^ (w - i)) * 2 ^ i := by
    rw [hsplit, Nat.mul_comm u, Nat.mul_mod_mul_left, Nat.mul_comm]
  rw [Nat.shiftLeft_eq, hmod, ← Nat.shiftLeft_eq, or_shiftLeft h, Nat.shiftLeft_eq]

end Lib
