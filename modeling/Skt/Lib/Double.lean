import Mathlib

/-!
# Double-precision quotients of naturals

The `double` nearest to a quotient of two naturals, and its ceiling. A double
carries 53 significant bits and every operation rounds to nearest, ties to
even, so `ceil(1.0 * a / b)` is computed from two roundings: the conversion of
the operands and the division.

`ceilQuot_eq` is the exactness result: below `2 ^ 53` the two roundings are
invisible and the ceiling is the integer one. `le_ceilCount` is the crude
bound that survives beyond it.
-/

namespace Lib.Double

/-- The integer nearest to `a / b`, ties to even. -/
def roundHalfEven (a b : ℕ) : ℕ :=
  if 2 * (a % b) < b then a / b
  else if b < 2 * (a % b) then a / b + 1
  else if a / b % 2 = 0 then a / b
  else a / b + 1

/-- The double nearest to a natural, as a natural. -/
def ofNat (n : ℕ) : ℕ :=
  if n < 2 ^ 53 then n
  else roundHalfEven n (2 ^ (n.log2 - 52)) * 2 ^ (n.log2 - 52)

/-- The least `k` with `b * 2 ^ 52 ≤ a * 2 ^ k`: scaling the quotient by
`2 ^ k` gives its 53-bit significand. -/
def scale (a b : ℕ) : ℕ :=
  if (b * 2 ^ 52 - 1) / a = 0 then 0 else ((b * 2 ^ 52 - 1) / a).log2 + 1

/-- The ceiling of the double nearest to `a / b`. -/
def ceilQuot (a b : ℕ) : ℕ :=
  if a < b * 2 ^ 53 then
    (roundHalfEven (a * 2 ^ scale a b) b + 2 ^ scale a b - 1) / 2 ^ scale a b
  else
    roundHalfEven a (b * 2 ^ ((a / b).log2 - 52)) * 2 ^ ((a / b).log2 - 52)

/-- `ceil(1.0 * a / b)` for integers `a` and `b`. -/
def ceilCount (a b : ℕ) : ℕ := ceilQuot (ofNat a) (ofNat b)

/-! ## Rounding -/

theorem div_le_roundHalfEven (a b : ℕ) : a / b ≤ roundHalfEven a b := by
  unfold roundHalfEven
  split_ifs <;> omega

theorem roundHalfEven_le {a b c : ℕ} (hb : 0 < b) (h : a ≤ c * b) :
    roundHalfEven a b ≤ c := by
  have hdiv : a / b ≤ c := Nat.div_le_of_le_mul (by rwa [Nat.mul_comm])
  rcases Nat.lt_or_ge (a / b) c with hlt | hge
  · unfold roundHalfEven
    split_ifs <;> omega
  · -- the quotient is exact, so there is no remainder to round
    have hq : a / b = c := le_antisymm hdiv hge
    have hmod : a % b = 0 := by
      have hsplit := Nat.div_add_mod a b
      rw [hq, Nat.mul_comm] at hsplit
      omega
    simp [roundHalfEven, hmod, hb, hq]

theorem lt_roundHalfEven {a b c r : ℕ} (hb : 0 < b) (h : c * b + r ≤ a)
    (hr : b < 2 * r) : c < roundHalfEven a b := by
  rcases Nat.lt_or_ge c (a / b) with hlt | hge
  · exact lt_of_lt_of_le hlt (div_le_roundHalfEven a b)
  · have hq : a / b = c :=
      le_antisymm hge ((Nat.le_div_iff_mul_le hb).mpr (by omega))
    -- the remainder is at least `r`, more than half of `b`: round up
    have hmod : r ≤ a % b := by
      have hsplit := Nat.div_add_mod a b
      rw [hq, Nat.mul_comm] at hsplit
      omega
    unfold roundHalfEven
    rw [if_neg (by omega), if_pos (by omega), hq]
    exact Nat.lt_succ_self c

theorem le_two_mul_roundHalfEven {a b : ℕ} (hb : 0 < b) (h : b ≤ a) :
    a ≤ 2 * (roundHalfEven a b * b) := by
  have hle := Nat.mul_le_mul_right b (div_le_roundHalfEven a b)
  have hone : 1 ≤ a / b := (Nat.one_le_div_iff hb).mpr h
  have hb_le : b ≤ a / b * b := Nat.le_mul_of_pos_left b hone
  have hsplit := Nat.div_add_mod' a b
  have hmod := Nat.mod_lt a hb
  omega

/-! ## The scale of a quotient -/

theorem le_mul_two_pow_scale {a b : ℕ} (ha : 0 < a) :
    b * 2 ^ 52 ≤ a * 2 ^ scale a b := by
  have hlt : (b * 2 ^ 52 - 1) / a < 2 ^ scale a b := by
    unfold scale
    split_ifs with hz
    · rw [hz]
      exact Nat.one_pos
    · exact Nat.lt_log2_self
  have hmul := (Nat.div_lt_iff_lt_mul ha).mp hlt
  rw [Nat.mul_comm a]
  omega

theorem lt_two_mul_two_pow_scale {a b : ℕ} (ha : 0 < a) (h : a < 2 ^ 53) :
    b < 2 * 2 ^ scale a b := by
  have hle := le_mul_two_pow_scale (b := b) ha
  have hlt : a * 2 ^ scale a b < 2 ^ 53 * 2 ^ scale a b :=
    Nat.mul_lt_mul_of_pos_right h (Nat.two_pow_pos _)
  omega

/-! ## The ceiling -/

/-- A ceiling is pinned by the half-open interval it closes. -/
theorem ceilDiv_eq_of_lt_of_le {m d q : ℕ} (hd : 0 < d)
    (hlt : q * d < m) (hle : m ≤ (q + 1) * d) : (m + d - 1) / d = q + 1 := by
  apply Nat.div_eq_of_lt_le
  · rw [Nat.succ_mul]
    omega
  · rw [Nat.succ_mul (q + 1)]
    omega

/-- **Exactness.** For operands below `2 ^ 53` the ceiling of the rounded
quotient is the ceiling of the quotient: rounding cannot reach the next
integer from below, and cannot fall back to the previous one because the
quotient exceeds it by at least `1 / b`. -/
theorem ceilQuot_eq {a b : ℕ} (ha : 0 < a) (hb : 0 < b) (h : a < 2 ^ 53) :
    ceilQuot a b = (a + b - 1) / b := by
  obtain ⟨q, hq⟩ : ∃ q, (a + b - 1) / b = q + 1 :=
    ⟨(a + b - 1) / b - 1, by
      have : 1 ≤ (a + b - 1) / b := (Nat.one_le_div_iff hb).mpr (by omega)
      omega⟩
  have hlow : q * b < a := by
    have := Nat.div_mul_le_self (a + b - 1) b
    rw [hq, Nat.succ_mul] at this
    omega
  have hhigh : a ≤ (q + 1) * b := by
    have := Nat.lt_div_mul_add (a := a + b - 1) hb
    rw [hq] at this
    omega
  have hpow : 0 < 2 ^ scale a b := Nat.two_pow_pos _
  have hsmall : a < b * 2 ^ 53 :=
    lt_of_lt_of_le h (Nat.le_mul_of_pos_left _ hb)
  rw [ceilQuot, if_pos hsmall, hq]
  apply ceilDiv_eq_of_lt_of_le hpow
  · refine lt_roundHalfEven hb ?_ (lt_two_mul_two_pow_scale (b := b) ha h)
    calc q * 2 ^ scale a b * b + 2 ^ scale a b
        = (q * b + 1) * 2 ^ scale a b := by ring
      _ ≤ a * 2 ^ scale a b := Nat.mul_le_mul_right _ hlow
  · apply roundHalfEven_le hb
    calc a * 2 ^ scale a b ≤ (q + 1) * b * 2 ^ scale a b :=
          Nat.mul_le_mul_right _ hhigh
      _ = (q + 1) * 2 ^ scale a b * b := by ring

theorem ofNat_eq {n : ℕ} (h : n < 2 ^ 53) : ofNat n = n := if_pos h

theorem ceilCount_eq {a b : ℕ} (ha : 0 < a) (hb : 0 < b) (h : a < 2 ^ 53)
    (hb' : b < 2 ^ 53) : ceilCount a b = (a + b - 1) / b := by
  rw [ceilCount, ofNat_eq h, ofNat_eq hb', ceilQuot_eq ha hb h]

/-! ## A bound beyond the exact range -/

theorem le_two_mul_ofNat (n : ℕ) : n ≤ 2 * ofNat n := by
  unfold ofNat
  split_ifs with h
  · omega
  · refine le_two_mul_roundHalfEven (Nat.two_pow_pos _) ?_
    have hn : n ≠ 0 := by omega
    exact le_trans (Nat.pow_le_pow_right (by norm_num) (by omega))
      (Nat.log2_self_le hn)

theorem le_two_mul_ceilQuot {a b : ℕ} (ha : 0 < a) (hb : 0 < b) :
    a ≤ 2 * (ceilQuot a b * b) := by
  unfold ceilQuot
  split_ifs with h
  · set d := 2 ^ scale a b with hd
    have hpow : 0 < d := Nat.two_pow_pos _
    have hscaled := le_mul_two_pow_scale (b := b) ha
    rw [← hd] at hscaled
    have hround : a * d ≤ 2 * (roundHalfEven (a * d) b * b) :=
      le_two_mul_roundHalfEven hb (by omega)
    have hceil : roundHalfEven (a * d) b ≤
        (roundHalfEven (a * d) b + d - 1) / d * d := by
      have := Nat.lt_div_mul_add (a := roundHalfEven (a * d) b + d - 1) hpow
      omega
    refine Nat.le_of_mul_le_mul_right ?_ hpow
    calc a * d ≤ 2 * (roundHalfEven (a * d) b * b) := hround
      _ ≤ 2 * ((roundHalfEven (a * d) b + d - 1) / d * d * b) :=
          Nat.mul_le_mul_left 2 (Nat.mul_le_mul_right b hceil)
      _ = 2 * ((roundHalfEven (a * d) b + d - 1) / d * b) * d := by ring
  · set d := 2 ^ ((a / b).log2 - 52) with hd
    have hquot : a / b ≠ 0 := by
      have : 2 ^ 53 ≤ a / b := (Nat.le_div_iff_mul_le hb).mpr (by omega)
      omega
    have hd_le : d ≤ a / b :=
      le_trans (Nat.pow_le_pow_right (by norm_num) (by omega))
        (Nat.log2_self_le hquot)
    have hround : a ≤ 2 * (roundHalfEven a (b * d) * (b * d)) := by
      refine le_two_mul_roundHalfEven (Nat.mul_pos hb (Nat.two_pow_pos _)) ?_
      calc b * d ≤ b * (a / b) := Nat.mul_le_mul_left b hd_le
        _ ≤ a := Nat.mul_div_le a b
    calc a ≤ 2 * (roundHalfEven a (b * d) * (b * d)) := hround
      _ = 2 * (roundHalfEven a (b * d) * d * b) := by ring

/-- However large the dividend, the rounded ceiling loses at most a factor of
four. -/
theorem le_ceilCount {a b : ℕ} (ha : 0 < a) (hb : 0 < b) (hb' : b < 2 ^ 53) :
    a ≤ 4 * (ceilCount a b * b) := by
  have h := le_two_mul_ofNat a
  have hq := le_two_mul_ceilQuot (a := ofNat a) (b := b) (by omega) hb
  rw [ceilCount, ofNat_eq hb']
  omega

end Lib.Double
