import Mathlib

/-!
# Tables by number

A binary tree with a value for each number: `0` at the root, the odd numbers on the left and
the other even numbers on the right. There is no balance to keep and numbers are compared by
`Nat.beq`, so the kernel has little to do for an access.
-/

namespace Lib

inductive Trie (β : Type)
  | empty
  | node (x : β) (left right : Trie β)

namespace Trie

variable {β : Type}

def root (d : β) : Trie β → β
  | .empty => d
  | .node x _ _ => x

def left : Trie β → Trie β
  | .empty => .empty
  | .node _ l _ => l

def right : Trie β → Trie β
  | .empty => .empty
  | .node _ _ r => r

/-- The value for a number; `d` where none is set. -/
def get (d : β) : Trie β → ℕ → β
  | .empty, _ => d
  | .node x l r, n =>
      bif n.beq 0 then x else bif (n % 2).beq 1 then l.get d (n / 2) else r.get d (n / 2 - 1)

/-- `set` with the number of levels it may go down. -/
def setFrom (d x : β) : ℕ → Trie β → ℕ → Trie β
  | 0, t, _ => t
  | fuel + 1, t, n =>
      bif n.beq 0 then .node x t.left t.right
      else bif (n % 2).beq 1 then .node (t.root d) (setFrom d x fuel t.left (n / 2)) t.right
      else .node (t.root d) t.left (setFrom d x fuel t.right (n / 2 - 1))

def set (d : β) (t : Trie β) (n : ℕ) (x : β) : Trie β := setFrom d x (n + 1) t n

@[simp] theorem get_empty (d : β) (n : ℕ) : (empty : Trie β).get d n = d := by
  rw [get]

/-- The three kinds of numbers. -/
theorem number_cases (n : ℕ) : n = 0 ∨ (∃ k, n = 2 * k + 1) ∨ ∃ k, n = 2 * k + 2 := by
  rcases Nat.even_or_odd' n with ⟨k, rfl | rfl⟩
  · cases k with
    | zero => exact Or.inl rfl
    | succ k => exact Or.inr (Or.inr ⟨k, rfl⟩)
  · exact Or.inr (Or.inl ⟨k, rfl⟩)

section

variable (d : β) (t : Trie β) (k : ℕ)

theorem get_zero : t.get d 0 = t.root d := by
  cases t <;> rfl

theorem get_odd : t.get d (2 * k + 1) = t.left.get d k := by
  cases t with
  | empty => rw [left, get_empty, get_empty]
  | node x l r =>
      have hmod : ((2 * k + 1) % 2).beq 1 = true := by
        rw [show (2 * k + 1) % 2 = 1 by omega]
        rfl
      have hdiv : (2 * k + 1) / 2 = k := by omega
      rw [get, hmod, hdiv]
      rfl

theorem get_even : t.get d (2 * k + 2) = t.right.get d k := by
  cases t with
  | empty => rw [right, get_empty, get_empty]
  | node x l r =>
      have hmod : ((2 * k + 2) % 2).beq 1 = false := by
        rw [show (2 * k + 2) % 2 = 0 by omega]
        rfl
      have hdiv : (2 * k + 2) / 2 - 1 = k := by omega
      rw [get, hmod, hdiv]
      rfl

end

theorem setFrom_zero (d x : β) (fuel : ℕ) (t : Trie β) :
    setFrom d x (fuel + 1) t 0 = .node x t.left t.right := rfl

theorem setFrom_odd (d x : β) (fuel : ℕ) (t : Trie β) (k : ℕ) :
    setFrom d x (fuel + 1) t (2 * k + 1) =
      .node (t.root d) (setFrom d x fuel t.left k) t.right := by
  have hmod : ((2 * k + 1) % 2).beq 1 = true := by
    rw [show (2 * k + 1) % 2 = 1 by omega]
    rfl
  have hdiv : (2 * k + 1) / 2 = k := by omega
  rw [setFrom, hmod, hdiv]
  rfl

theorem setFrom_even (d x : β) (fuel : ℕ) (t : Trie β) (k : ℕ) :
    setFrom d x (fuel + 1) t (2 * k + 2) =
      .node (t.root d) t.left (setFrom d x fuel t.right k) := by
  have hmod : ((2 * k + 2) % 2).beq 1 = false := by
    rw [show (2 * k + 2) % 2 = 0 by omega]
    rfl
  have hdiv : (2 * k + 2) / 2 - 1 = k := by omega
  rw [setFrom, hmod, hdiv]
  rfl

theorem get_setFrom (d x : β) :
    ∀ (fuel : ℕ) (t : Trie β) (n m : ℕ), n < fuel →
      (setFrom d x fuel t n).get d m = if m = n then x else t.get d m
  | fuel + 1, t, n, m, h => by
      rcases number_cases n with rfl | ⟨k, rfl⟩ | ⟨k, rfl⟩
      · rw [setFrom_zero]
        rcases number_cases m with rfl | ⟨j, rfl⟩ | ⟨j, rfl⟩
        · rw [get_zero, if_pos rfl, root]
        · rw [get_odd, get_odd, if_neg (by omega), left]
        · rw [get_even, get_even, if_neg (by omega), right]
      · have hrec := get_setFrom d x fuel t.left k
        rw [setFrom_odd]
        rcases number_cases m with rfl | ⟨j, rfl⟩ | ⟨j, rfl⟩
        · rw [get_zero, get_zero, if_neg (by omega), root]
        · rw [get_odd, get_odd, left, hrec j (by omega)]
          simp
        · rw [get_even, get_even, if_neg (by omega), right]
      · have hrec := get_setFrom d x fuel t.right k
        rw [setFrom_even]
        rcases number_cases m with rfl | ⟨j, rfl⟩ | ⟨j, rfl⟩
        · rw [get_zero, get_zero, if_neg (by omega), root]
        · rw [get_odd, get_odd, if_neg (by omega), left]
        · rw [get_even, get_even, right, hrec j (by omega)]
          simp

theorem get_set (d : β) (t : Trie β) (n m : ℕ) (x : β) :
    (t.set d n x).get d m = if m = n then x else t.get d m :=
  get_setFrom d x (n + 1) t n m (Nat.lt_succ_self n)

end Trie

end Lib
