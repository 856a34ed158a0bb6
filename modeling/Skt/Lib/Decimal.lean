import Skt.Lib.CString

/-!
# Numbers as text

What the standard library prints for an integer, and that `atoi` reads it back.
-/

namespace Lib

set_option maxRecDepth 4000

namespace CString

/-- The decimal digits of a number, the most significant one first. -/
def decimal (n : ℕ) : List UInt8 :=
  if n = 0 then [48] else (Nat.digits 10 n).reverse.map fun d => UInt8.ofNat (48 + d)

/-- `std::to_string` of an `int`, and what `os <<` writes for one. -/
def toText (z : ℤ) : List UInt8 :=
  if z < 0 then 45 :: decimal z.natAbs else decimal z.natAbs

theorem digit_ofNat : ∀ d < 10, digit 10 (UInt8.ofNat (48 + d)) = some d := by
  decide

theorem isSome_digit_iff : ∀ c : UInt8,
    (digit 10 c).isSome = true ↔ 48 ≤ c.toNat ∧ c.toNat ≤ 57 := by
  decide

theorem decimal_ne_nil (n : ℕ) : decimal n ≠ [] := by
  unfold decimal
  split_ifs with h
  · exact List.cons_ne_nil _ _
  · simpa [Nat.digits_eq_nil_iff_eq_zero] using h

theorem mem_decimal {n : ℕ} {c : UInt8} (h : c ∈ decimal n) : (digit 10 c).isSome = true := by
  unfold decimal at h
  split_ifs at h with hn
  · rw [List.mem_singleton.mp h]
    decide
  · obtain ⟨d, hd, rfl⟩ := List.mem_map.mp h
    rw [digit_ofNat d (Nat.digits_lt_base (by decide) (List.mem_reverse.mp hd))]
    rfl

theorem digits_snoc {b : ℕ} {l : List UInt8} (hl : ∀ c ∈ l, (digit b c).isSome = true)
    {c : UInt8} {d : ℕ} (hc : digit b c = some d) (acc : ℕ) :
    digits b (l ++ [c]) acc = digits b l acc * b + d := by
  induction l generalizing acc with
  | nil => simp only [List.nil_append, digits, hc]
  | cons c' l ih =>
      obtain ⟨v, hv⟩ := Option.isSome_iff_exists.mp (hl c' List.mem_cons_self)
      simp only [List.cons_append, digits, hv]
      exact ih (fun c hc => hl c (List.mem_cons_of_mem _ hc)) _

/-- Digits that are written with `f` are read back. -/
theorem digits_map {b : ℕ} {f : ℕ → UInt8} (hf : ∀ d < b, digit b (f d) = some d)
    {ds : List ℕ} (hds : ∀ d ∈ ds, d < b) :
    digits b (ds.reverse.map f) 0 = Nat.ofDigits b ds := by
  induction ds with
  | nil => rfl
  | cons d ds ih =>
      have htail : ∀ e ∈ ds, e < b := fun e he => hds e (List.mem_cons_of_mem _ he)
      rw [List.reverse_cons, List.map_append, List.map_singleton, digits_snoc _
        (hf d (hds d List.mem_cons_self)), ih htail, Nat.ofDigits_cons]
      · ring
      · intro c hc
        obtain ⟨e, he, rfl⟩ := List.mem_map.mp hc
        rw [hf e (htail e (List.mem_reverse.mp he))]
        rfl

theorem digits_decimal (n : ℕ) : digits 10 (decimal n) 0 = n := by
  unfold decimal
  split_ifs with h
  · rw [h]
    decide
  · rw [digits_map digit_ofNat fun d hd => Nat.digits_lt_base (by decide) hd,
      Nat.ofDigits_digits]

/-! ## Hexadecimal numbers -/

def hexDigit (d : ℕ) : UInt8 := UInt8.ofNat (if d < 10 then 48 + d else 87 + d)

/-- What `os << std::hex` writes for a number. -/
def hexadecimal (n : ℕ) : List UInt8 :=
  if n = 0 then [48] else (Nat.digits 16 n).reverse.map hexDigit

theorem digit_hexDigit : ∀ d < 16, digit 16 (hexDigit d) = some d := by
  decide

theorem hexadecimal_ne_nil (n : ℕ) : hexadecimal n ≠ [] := by
  unfold hexadecimal
  split_ifs with h
  · exact List.cons_ne_nil _ _
  · simpa [Nat.digits_eq_nil_iff_eq_zero] using h

theorem mem_hexadecimal {n : ℕ} {c : UInt8} (h : c ∈ hexadecimal n) :
    (digit 16 c).isSome = true := by
  unfold hexadecimal at h
  split_ifs at h with hn
  · rw [List.mem_singleton.mp h]
    decide
  · obtain ⟨d, hd, rfl⟩ := List.mem_map.mp h
    rw [digit_hexDigit d (Nat.digits_lt_base (by decide) (List.mem_reverse.mp hd))]
    rfl

theorem digits_hexadecimal (n : ℕ) : digits 16 (hexadecimal n) 0 = n := by
  unfold hexadecimal
  split_ifs with h
  · rw [h]
    decide
  · rw [digits_map digit_hexDigit fun d hd => Nat.digits_lt_base (by decide) hd,
      Nat.ofDigits_digits]

theorem length_hexadecimal_le {n k : ℕ} (hk : 0 < k) (h : n < 16 ^ k) :
    (hexadecimal n).length ≤ k := by
  unfold hexadecimal
  split_ifs
  · exact hk
  · rw [List.length_map, List.length_reverse]
    exact (Nat.digits_length_le_iff (by decide) n).mpr h

/-! ## Reading numbers -/

/-- Decimal digits up to the end of the string or a byte that is no digit. -/
theorem atoi_digits {l rest : List UInt8} (hne : l ≠ [])
    (hl : ∀ c ∈ l, (digit 10 c).isSome = true)
    (hrest : ∀ c ∈ rest.head?, digit 10 c = none) :
    atoi (l ++ rest) = toInt32 (min (digits 10 l 0 : ℤ) longMax) := by
  have hdigits : digits 10 (l ++ rest) 0 = digits 10 l 0 := by
    cases rest with
    | nil => rw [List.append_nil]
    | cons c m => exact digits_append (hrest c rfl) l m 0
  obtain ⟨d, l, rfl⟩ := List.exists_cons_of_ne_nil hne
  rw [atoi, List.cons_append, strtol_digit (hl d List.mem_cons_self), ← List.cons_append,
    hdigits]

/-- `atoi` of what was printed for a number that an `int` holds. -/
theorem atoi_decimal {n : ℕ} (hn : n ≤ 2147483647) {rest : List UInt8}
    (hrest : ∀ c ∈ rest.head?, digit 10 c = none) : atoi (decimal n ++ rest) = n := by
  rw [atoi_digits (decimal_ne_nil n) (fun c hc => mem_decimal hc) hrest, digits_decimal,
    min_eq_left (by unfold longMax; omega), toInt32_of_le (by omega) (by omega)]

end CString

end Lib
