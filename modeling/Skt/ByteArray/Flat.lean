import Skt.ByteArray.Model

/-!
# What a `ByteArray` is for: one flat array of cells with a cursor

The abstract machine the node chain implements. It has no nodes, no current
node and no pointers: `cells` are the `m_capacity` bytes of storage, `pos` the
cursor, `size` the number of bytes in use. Storage grows by whole multiples of
the base size, by the least number of them that makes the request fit.
-/

namespace Skt

open Lib

structure Flat where
  base : ℕ
  cells : List UInt8
  pos : ℕ
  size : ℕ
deriving DecidableEq

/-- One call on the buffer. A `read` asks for at least one byte. -/
inductive Op where
  | write (buf : List UInt8)
  | read (n : ℕ) (hn : 1 ≤ n)
  | setPosition (v : ℕ)
  | getWriteBuffers (len : ℕ)
  | clear
  | toString

/-- What a call returns. -/
inductive Out where
  | none
  | bytes (d : List UInt8)
  | count (n : ℕ)
deriving DecidableEq

namespace Flat

def capacity (f : Flat) : ℕ := f.cells.length

/-- The least number of nodes that makes `n` bytes fit behind the cursor. -/
noncomputable def need (f : Flat) (n : ℕ) : ℕ :=
  sInf {k | f.pos + n ≤ f.capacity + k * f.base}

/-- Add `k` times `base` cells, as the allocator grants them. -/
def extend (mem : Allocator) : ℕ → Flat → Except Fault Unit × Flat
  | 0, f => (.ok (), f)
  | k + 1, f =>
      match mem.grant (f.capacity + f.base) with
      | none => (.error .badAlloc, f)
      | some junk =>
          extend mem k { f with cells := f.cells ++ (List.range f.base).map junk }

noncomputable def reserve (mem : Allocator) (f : Flat) (n : ℕ) :
    Except Fault Unit × Flat :=
  extend mem (f.need n) f

noncomputable def write (mem : Allocator) (f : Flat) (d : List UInt8) :
    Except Fault Unit × Flat :=
  match f.reserve mem d.length with
  | (.error e, f') => (.error e, f')
  | (.ok (), f') =>
      (.ok (), { f' with cells := overlay f'.cells f'.pos d,
                         pos := f'.pos + d.length,
                         size := max f'.size (f'.pos + d.length) })

def read (f : Flat) (n : ℕ) : Except Fault (List UInt8) × Flat :=
  if f.size - f.pos < n then (.error .outOfRange, f)
  else (.ok (slice f.cells f.pos n), { f with pos := f.pos + n })

def setPosition (f : Flat) (v : ℕ) : Except Fault Unit × Flat :=
  if f.capacity < v then (.error .outOfRange, f)
  else (.ok (), { f with pos := v, size := max f.size v })

def clear (f : Flat) : Flat :=
  { f with cells := f.cells.take f.base, pos := 0, size := 0 }

def toString (f : Flat) : List UInt8 := slice f.cells f.pos (f.size - f.pos)

noncomputable def exec (mem : Allocator) (f : Flat) :
    Op → Except Fault Out × Flat
  | .write buf => Prod.map (Except.map fun _ => .none) id (f.write mem buf)
  | .read n _ => Prod.map (Except.map .bytes) id (f.read n)
  | .setPosition v => Prod.map (Except.map fun _ => .none) id (f.setPosition v)
  | .getWriteBuffers len =>
      Prod.map (Except.map fun _ => .count len) id (f.reserve mem len)
  | .clear => (.ok .none, f.clear)
  | .toString => (.ok (.bytes f.toString), f)

/-- The outcome of each call of a run and the state after it. A run ends with
the first `bad_alloc`. -/
noncomputable def run : Flat → List (Allocator × Op) →
    List (Except Fault Out × Flat)
  | _, [] => []
  | f, (mem, op) :: ops =>
      let r := f.exec mem op
      if r.1 = .error .badAlloc then [r] else r :: run r.2 ops

/-! ## The number of nodes added -/

theorem need_fits {f : Flat} (hb : 0 < f.base) (n : ℕ) :
    f.pos + n ≤ f.capacity + f.need n * f.base := by
  have hne : {k | f.pos + n ≤ f.capacity + k * f.base}.Nonempty :=
    ⟨f.pos + n, le_trans (Nat.le_mul_of_pos_right _ hb) (Nat.le_add_left _ _)⟩
  exact Nat.sInf_mem hne

/-- As long as fewer nodes are added there is too little room. -/
theorem lt_of_lt_need {f : Flat} {n k : ℕ} (h : k < f.need n) :
    f.capacity + k * f.base < f.pos + n := by
  have hnot : k ∉ {k | f.pos + n ≤ f.capacity + k * f.base} := Nat.notMem_of_lt_sInf h
  exact Nat.not_le.mp hnot

/-- The least number of nodes is the ceiling of the missing bytes. -/
theorem need_eq {f : Flat} (hb : 0 < f.base) (n : ℕ) :
    f.need n = (f.pos + n - f.capacity + f.base - 1) / f.base := by
  apply le_antisymm
  · refine Nat.sInf_le ?_
    have := Nat.lt_div_mul_add (a := f.pos + n - f.capacity + f.base - 1) hb
    show f.pos + n ≤ _
    omega
  · have hfit := need_fits hb n
    rw [Nat.div_le_iff_le_mul_add_pred hb, Nat.mul_comm]
    omega

theorem need_eq_zero {f : Flat} {n : ℕ} (h : f.pos + n ≤ f.capacity) :
    f.need n = 0 := by
  refine Nat.le_zero.mp (Nat.sInf_le ?_)
  show f.pos + n ≤ f.capacity + 0 * f.base
  omega

end Flat

end Skt
