import Mathlib

/-!
# C strings

The string functions of the C library on a byte buffer. A pointer into a
buffer is the list of the bytes from there on; the end of the list reads as
the terminating NUL.
-/

namespace Lib

set_option maxRecDepth 4000

/-- The bytes of an ASCII literal. -/
def bytes (s : String) : List UInt8 := s.toList.map fun c => UInt8.ofNat c.toNat

namespace CString

/-! ## Comparing -/

/-- `strncmp(name, at, strlen(name)) == 0`. -/
def startsWith (name ptr : List UInt8) : Bool := name.isPrefixOf ptr

/-- `strncmp(a, b, n) == 0`. -/
def strncmpEq : ℕ → List UInt8 → List UInt8 → Bool
  | 0, _, _ => true
  | n + 1, a, b =>
      a.headD 0 == b.headD 0 &&
        (a.headD 0 == 0 || strncmpEq n a.tail b.tail)

def toLower (c : UInt8) : UInt8 := if 65 ≤ c ∧ c ≤ 90 then c + 32 else c

def lexLess : List UInt8 → List UInt8 → Bool
  | [], ys => !ys.isEmpty
  | _ :: _, [] => false
  | x :: xs, y :: ys => x < y || (x = y && lexLess xs ys)

theorem lexLess_eq_or : ∀ a b : List UInt8, lexLess a b = true ∨ lexLess b a = true ∨ a = b
  | [], [] => Or.inr (Or.inr rfl)
  | [], _ :: _ => Or.inl rfl
  | _ :: _, [] => Or.inr (Or.inl rfl)
  | x :: xs, y :: ys => by
      simp only [lexLess, Bool.or_eq_true, Bool.and_eq_true, decide_eq_true_eq, List.cons.injEq]
      by_cases hxy : x = y
      · rcases lexLess_eq_or xs ys with h | h | h
        · exact Or.inl (Or.inr ⟨hxy, h⟩)
        · exact Or.inr (Or.inl (Or.inr ⟨hxy.symm, h⟩))
        · exact Or.inr (Or.inr ⟨hxy, h⟩)
      · rcases Nat.lt_or_gt_of_ne fun h => hxy (UInt8.toNat_inj.mp h) with hlt | hgt
        · exact Or.inl (Or.inl hlt)
        · exact Or.inr (Or.inl (Or.inl hgt))

theorem lexLess_irrefl : ∀ a : List UInt8, lexLess a a = false
  | [] => rfl
  | x :: xs => by simp [lexLess, lexLess_irrefl xs]

theorem lexLess_trans : ∀ {a b c : List UInt8}, lexLess a b = true → lexLess b c = true →
    lexLess a c = true
  | [], _, [], _, hbc => by
      cases ‹List UInt8› <;> cases hbc
  | [], _, _ :: _, _, _ => rfl
  | x :: xs, y :: ys, z :: zs, hab, hbc => by
      simp only [lexLess, Bool.or_eq_true, Bool.and_eq_true, decide_eq_true_eq] at hab hbc ⊢
      rcases hab with hxy | ⟨rfl, hab⟩
      · rcases hbc with hyz | ⟨rfl, -⟩
        · exact Or.inl (UInt8.lt_trans hxy hyz)
        · exact Or.inl hxy
      · rcases hbc with hyz | ⟨rfl, hbc⟩
        · exact Or.inl hyz
        · exact Or.inr ⟨rfl, lexLess_trans hab hbc⟩

/-- `strcasecmp(a.c_str(), b.c_str()) < 0`. -/
def strcasecmpLess (a b : List UInt8) : Bool :=
  lexLess ((a.takeWhile (· ≠ 0)).map toLower) ((b.takeWhile (· ≠ 0)).map toLower)

/-! ## Numbers -/

def isSpace (c : UInt8) : Bool := c = 32 || (9 ≤ c && c ≤ 13)

/-- The value of a digit in base `base`. -/
def digit (base : ℕ) (c : UInt8) : Option ℕ :=
  let n := c.toNat
  let v :=
    if 48 ≤ n ∧ n ≤ 57 then n - 48
    else if 97 ≤ n ∧ n ≤ 122 then n - 87
    else if 65 ≤ n ∧ n ≤ 90 then n - 55
    else base
  if v < base then some v else none

/-- The digits at the front of a string, as one number. -/
def digits (base : ℕ) : List UInt8 → ℕ → ℕ
  | [], acc => acc
  | c :: cs, acc =>
      match digit base c with
      | some v => digits base cs (acc * base + v)
      | none => acc

def longMax : ℤ := 9223372036854775807

/-- Base 16 admits a `0x` in front of the digits. -/
def skipHex (base : ℕ) : List UInt8 → List UInt8
  | 48 :: x :: c :: cs =>
      if base = 16 ∧ (x = 120 ∨ x = 88) ∧ (digit 16 c).isSome then c :: cs
      else 48 :: x :: c :: cs
  | s => s

/-- `strtol(ptr, NULL, base)` for the bases 10 and 16. -/
def strtol (base : ℕ) (ptr : List UInt8) : ℤ :=
  match ptr.dropWhile isSpace with
  | 45 :: s => max (-(digits base (skipHex base s) 0 : ℤ)) (-longMax - 1)
  | 43 :: s => min (digits base (skipHex base s) 0) longMax
  | s => min (digits base (skipHex base s) 0) longMax

/-- The conversion of a `long` to `int`. -/
def toInt32 (v : ℤ) : ℤ := v.bmod 4294967296

theorem toInt32_of_le {v : ℤ} (h₀ : 0 ≤ v) (h : v ≤ 2147483647) : toInt32 v = v := by
  rw [toInt32, Int.bmod_eq_of_le] <;> omega

theorem toInt32_add (x d : ℤ) : toInt32 (toInt32 x + d) = toInt32 (x + d) :=
  Int.bmod_add_bmod

/-- `atoi(ptr)`. -/
def atoi (ptr : List UInt8) : ℤ := toInt32 (strtol 10 ptr)

/-! ## What a call reads -/

theorem startsWith_stop {name : List UInt8} {c : UInt8} (hc : c ∉ name) :
    ∀ (l m m' : List UInt8),
      startsWith name (l ++ c :: m) = startsWith name (l ++ c :: m') := by
  induction name with
  | nil => intro l m m'; rfl
  | cons x name ih =>
      intro l m m'
      rw [List.mem_cons, not_or] at hc
      cases l with
      | nil =>
          have hne : (x == c) = false := by
            rw [beq_eq_false_iff_ne]
            exact fun h => hc.1 h.symm
          simp only [startsWith, List.nil_append, List.isPrefixOf, hne,
            Bool.false_and]
      | cons y l =>
          have htl := ih hc.2 l m m'
          simp only [startsWith] at htl
          simp only [startsWith, List.cons_append, List.isPrefixOf, htl]

theorem strncmpEq_take :
    ∀ {n : ℕ} {l : List UInt8} (m m' b : List UInt8), n ≤ l.length →
      strncmpEq n (l ++ m) b = strncmpEq n (l ++ m') b
  | 0, _, _, _, _, _ => rfl
  | n + 1, [], _, _, _, h => by simp at h
  | n + 1, x :: l, m, m', b, h => by
      have htl := strncmpEq_take (n := n) (l := l) m m' b.tail (by simpa using h)
      simp only [strncmpEq, List.cons_append, List.headD_cons, List.tail_cons,
        htl]

/-- A byte that is no digit ends the number. -/
theorem digits_append {base : ℕ} {c : UInt8} (hc : digit base c = none) :
    ∀ (l m : List UInt8) (acc : ℕ),
      digits base (l ++ c :: m) acc = digits base l acc
  | [], _, _ => by simp only [List.nil_append, digits, hc]
  | x :: l, m, acc => by
      simp only [List.cons_append, digits]
      cases digit base x with
      | none => rfl
      | some v => exact digits_append hc l m _

theorem skipHex_ten (s : List UInt8) : skipHex 10 s = s := by
  unfold skipHex
  split
  · rw [if_neg (by simp)]
  · rfl

/-- A string that starts with neither white space nor a sign. -/
theorem strtol_unsigned {base : ℕ} {d : UInt8} (hspace : isSpace d = false)
    (hminus : d ≠ 45) (hplus : d ≠ 43) (s : List UInt8) :
    strtol base (d :: s) =
      min (digits base (skipHex base (d :: s)) 0 : ℤ) longMax := by
  have hdrop : (d :: s).dropWhile isSpace = d :: s := by
    rw [List.dropWhile_cons_of_neg (by rw [hspace]; exact Bool.false_ne_true)]
  unfold strtol
  rw [hdrop]
  split
  · rename_i h
    exact absurd (List.cons.inj h).1 hminus
  · rename_i h
    exact absurd (List.cons.inj h).1 hplus
  · rfl

theorem ne_of_digit_ten : ∀ d : UInt8, (digit 10 d).isSome →
    isSpace d = false ∧ d ≠ 45 ∧ d ≠ 43 := by
  decide

theorem strtol_digit {d : UInt8} (hd : (digit 10 d).isSome) (s : List UInt8) :
    strtol 10 (d :: s) = min (digits 10 (d :: s) 0 : ℤ) longMax := by
  obtain ⟨hspace, hminus, hplus⟩ := ne_of_digit_ten d hd
  rw [strtol_unsigned hspace hminus hplus, skipHex_ten]

theorem ne_of_digit_sixteen : ∀ d : UInt8, (digit 16 d).isSome →
    (isSpace d = false ∧ d ≠ 45 ∧ d ≠ 43) ∧ d ≠ 120 ∧ d ≠ 88 := by
  decide

theorem skipHex_of_ne {base : ℕ} {d : UInt8} {s : List UInt8}
    (h : ∀ x t, s = x :: t → x ≠ 120 ∧ x ≠ 88) :
    skipHex base (d :: s) = d :: s := by
  unfold skipHex
  split
  · rename_i x c cs heq
    obtain ⟨-, hs⟩ := List.cons.inj heq
    have hx := h x (c :: cs) hs
    rw [if_neg fun hc => hc.2.1.elim hx.1 hx.2, ← heq]
  · rfl

/-- Hexadecimal digits up to a byte that is neither a digit nor an `x`. -/
theorem strtol_sixteen {c : UInt8} (hc : digit 16 c = none)
    (hx : c ≠ 120 ∧ c ≠ 88) {l : List UInt8} (hne : l ≠ [])
    (hl : ∀ d ∈ l, (digit 16 d).isSome) (m : List UInt8) :
    strtol 16 (l ++ c :: m) = min (digits 16 l 0 : ℤ) longMax := by
  obtain ⟨d, l, rfl⟩ := List.exists_cons_of_ne_nil hne
  obtain ⟨⟨hspace, hminus, hplus⟩, -⟩ :=
    ne_of_digit_sixteen d (hl d List.mem_cons_self)
  have hsecond : ∀ x t, l ++ c :: m = x :: t → x ≠ 120 ∧ x ≠ 88 := by
    intro x t h
    cases l with
    | nil =>
        obtain ⟨rfl, -⟩ := List.cons.inj h
        exact hx
    | cons e l =>
        obtain ⟨rfl, -⟩ := List.cons.inj h
        exact (ne_of_digit_sixteen e
          (hl e (List.mem_cons_of_mem _ List.mem_cons_self))).2
  rw [List.cons_append, strtol_unsigned hspace hminus hplus,
    skipHex_of_ne hsecond, ← List.cons_append, digits_append hc]

/-- A decimal number that starts with a digit ends at the first other byte. -/
theorem atoi_stop {d c : UInt8} (hd : (digit 10 d).isSome)
    (hc : digit 10 c = none) (l m m' : List UInt8) :
    atoi (d :: l ++ c :: m) = atoi (d :: l ++ c :: m') := by
  simp only [atoi, List.cons_append, strtol_digit hd]
  rw [← List.cons_append, ← List.cons_append, digits_append hc (d :: l),
    digits_append hc (d :: l)]

end CString

end Lib
