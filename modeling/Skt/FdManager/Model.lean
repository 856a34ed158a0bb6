import Skt.Lib.CString
import Skt.Lib.Decimal

/-!
# `FdManager`

The table `m_datas` of contexts by file descriptor. The sizes are compared as `int`,
so a table of `2^31` entries looks empty; the new size `fd * 1.5` is computed in
floating point, where it is exact, and cut down to an integer.
-/

namespace Skt

namespace FdManager

open Lib Lib.CString

/-- `m_datas`. -/
abbrev Datas (α : Type) := List (Option α)

variable {α : Type}

/-- `FdManager::FdManager`. -/
def new : Datas α := List.replicate 64 none

/-- `m_datas[fd]`, where there is one. -/
def entry (datas : Datas α) (fd : ℕ) : Option α := (datas[fd]?).join

/-- The part of `get` under the read lock: what is returned, or `none` to go on. -/
def lookup (datas : Datas α) (fd : ℕ) (autoCreate : Bool) : Option (Option α) :=
  if toInt32 datas.length ≤ fd then
    if autoCreate then none else some none
  else if (entry datas fd).isSome || !autoCreate then some (entry datas fd)
  else none

/-- `m_datas.resize(n)`. -/
def resize (n : ℕ) (datas : Datas α) : Datas α :=
  datas.take n ++ List.replicate (n - datas.length) none

/-- The part under the write lock, with the context that it makes. -/
def create (datas : Datas α) (fd : ℕ) (ctx : α) : Datas α :=
  if toInt32 datas.length ≤ fd then (resize (fd * 3 / 2) datas).set fd (some ctx)
  else datas.set fd (some ctx)

/-- `get(fd, auto_create)` by one thread alone. -/
def get (datas : Datas α) (fd : ℕ) (autoCreate : Bool) (ctx : α) : Option α × Datas α :=
  (lookup datas fd autoCreate).elim (some ctx, create datas fd ctx) fun found => (found, datas)

/-- `del(fd)`. -/
def del (datas : Datas α) (fd : ℕ) : Datas α :=
  if toInt32 datas.length ≤ fd then datas else datas.set fd none

/-! ## Sizes -/

theorem toInt32_le (n : ℕ) : toInt32 n ≤ n := by
  unfold toInt32
  rw [Int.bmod_def]
  split_ifs <;> omega

theorem toInt32_length {n : ℕ} (h : n < 2147483648) : toInt32 n = n :=
  toInt32_of_le (by omega) (by omega)

theorem length_resize (n : ℕ) (datas : Datas α) : (resize n datas).length = n := by
  simp [resize]
  omega

theorem entry_resize {n : ℕ} {datas : Datas α} (h : datas.length ≤ n) (fd : ℕ) :
    entry (resize n datas) fd = entry datas fd := by
  unfold entry resize
  rw [List.take_of_length_le h]
  by_cases hfd : fd < datas.length
  · rw [List.getElem?_append_left hfd]
  · rw [List.getElem?_append_right (by omega), List.getElem?_eq_none (by omega : datas.length ≤ fd)]
    rw [List.getElem?_replicate]
    split_ifs <;> rfl

theorem entry_set {datas : Datas α} {fd : ℕ} (h : fd < datas.length) (c : Option α) (fd' : ℕ) :
    entry (datas.set fd c) fd' = if fd' = fd then c else entry datas fd' := by
  unfold entry
  by_cases hfd : fd' = fd
  · subst hfd
    rw [List.getElem?_set_self h, if_pos rfl]
    rfl
  · rw [List.getElem?_set_ne (Ne.symm hfd), if_neg hfd]

theorem entry_of_length_le {datas : Datas α} {fd : ℕ} (h : datas.length ≤ fd) :
    entry datas fd = none := by
  unfold entry
  rw [List.getElem?_eq_none h]
  rfl

theorem entry_new (fd : ℕ) : entry (new : Datas α) fd = none := by
  unfold entry new
  rw [List.getElem?_replicate]
  split_ifs <;> rfl

/-! ## Looking up and creating -/

/-- The table does not look empty, or the new entry makes it no shorter. -/
def Fits (datas : Datas α) (fd : ℕ) : Prop :=
  datas.length < 2147483648 ∨ datas.length ≤ fd * 3 / 2

instance (datas : Datas α) (fd : ℕ) : Decidable (Fits datas fd) :=
  inferInstanceAs (Decidable (_ ∨ _))

theorem entry_of_lookup {datas : Datas α} {fd : ℕ} {found : Option α}
    (h : lookup datas fd true = some found) : found = entry datas fd ∧ found ≠ none := by
  simp only [lookup, if_true, Bool.not_true, Bool.or_false] at h
  split_ifs at h with hsize hsome
  cases h
  exact ⟨rfl, Option.isSome_iff_ne_none.mp hsome⟩

theorem lookup_eq {datas : Datas α} (hlen : datas.length < 2147483648) (fd : ℕ) :
    lookup datas fd false = some (entry datas fd) := by
  simp only [lookup, toInt32_length hlen, Bool.false_eq_true, if_false, Bool.not_false,
    Bool.or_true, if_true]
  split_ifs with hsize
  · rw [entry_of_length_le (by omega)]
  · rfl

theorem lookup_none {datas : Datas α} (hlen : datas.length < 2147483648) {fd : ℕ}
    (h : lookup datas fd true = none) : entry datas fd = none := by
  simp only [lookup, toInt32_length hlen, if_true, Bool.not_true, Bool.or_false] at h
  split_ifs at h with hsize hnone
  · exact entry_of_length_le (by omega)
  · simpa using hnone

section Create

variable {datas : Datas α} {fd : ℕ} (hlen : 64 ≤ datas.length) (hfits : Fits datas fd)
include hlen hfits

theorem length_le_create (ctx : α) : datas.length ≤ (create datas fd ctx).length := by
  unfold create
  split_ifs with hsize
  · rw [List.length_set, length_resize]
    rcases hfits with h | h
    · rw [toInt32_length h] at hsize
      omega
    · exact h
  · rw [List.length_set]

theorem entry_create (ctx : α) (fd' : ℕ) :
    entry (create datas fd ctx) fd' = if fd' = fd then some ctx else entry datas fd' := by
  unfold create
  by_cases hsize : toInt32 datas.length ≤ fd
  · have hlt : datas.length ≤ fd * 3 / 2 ∧ fd < fd * 3 / 2 := by
      rcases hfits with h | h
      · rw [toInt32_length h] at hsize
        omega
      · omega
    rw [if_pos hsize, entry_set (by rw [length_resize]; exact hlt.2), entry_resize hlt.1]
  · have := toInt32_le datas.length
    rw [if_neg hsize, entry_set (by omega)]

end Create

/-- A table that looks empty is cut down to the new size. -/
theorem length_create_of_not_fits {datas : Datas α} {fd : ℕ} (hfits : ¬ Fits datas fd)
    (hlen : datas.length < 4294967296) (ctx : α) :
    (create datas fd ctx).length < datas.length := by
  obtain ⟨hbig, hnew⟩ := not_or.mp hfits
  have hsize : toInt32 datas.length ≤ fd := by
    unfold toInt32
    rw [Int.bmod_def]
    split_ifs <;> omega
  unfold create
  rw [if_pos hsize, List.length_set, length_resize]
  omega

theorem length_del (datas : Datas α) (fd : ℕ) : (del datas fd).length = datas.length := by
  unfold del
  split_ifs
  · rfl
  · rw [List.length_set]

theorem entry_del_of_ne (datas : Datas α) {fd fd' : ℕ} (h : fd' ≠ fd) :
    entry (del datas fd) fd' = entry datas fd' := by
  have := toInt32_le datas.length
  unfold del
  split_ifs with hsize
  · rfl
  · rw [entry_set (by omega), if_neg h]

end FdManager

end Skt
