import Skt.Lib.CString
import Skt.Lib.Overlay

/-!
# Reading from a socket stream

A peer is the bytes it still sends and the list of what each `recv` will do:
the network may cut the bytes anywhere. When the list is used up the peer has
closed the connection, and `recv` returns `0`.
-/

namespace Skt

namespace SocketStream

open Lib Lib.CString

/-- One `recv`: it finds at most `k` bytes, or returns `-1`. -/
inductive Recv
  | got (k : ℕ)
  | failed
  deriving DecidableEq, Repr

/-- No `recv` transfers more bytes than this. -/
def maxRw : ℕ := 2147479552

/-- `read(buffer, n)`: the bytes it puts into the buffer, or `none` for `-1`. -/
def Recv.read (n : ℕ) (coming : List UInt8) : Recv → Option (List UInt8)
  | .got k => some (coming.take (min k (min n maxRw)))
  | .failed => none

/-- What reads of `n` bytes get, up to the first one that returns no byte. -/
def pieces (n : ℕ) : List Recv → List UInt8 → List (List UInt8)
  | [], _ => []
  | r :: rs, coming =>
      match r.read n coming with
      | none => []
      | some [] => []
      | some (c :: cs) =>
          (c :: cs) :: pieces n rs (coming.drop (c :: cs).length)

/-- The loop of `Stream::readFixSize(&body[start], length)`: what it returns
and what it leaves in `body`, or `none` where it writes in front of `body`. The
result of `read` is kept in a `size_t`: `-1` is not seen as a failure but moves
`offset` back by one and adds one to `left`. -/
def readFixSize (start length : ℕ) :
    List Recv → List UInt8 → List UInt8 → ℤ → ℕ → Option (ℤ × List UInt8)
  | [], _, body, _, left =>
      if left = 0 then some (toInt32 length, body) else some (0, body)
  | r :: rs, coming, body, offset, left =>
      if left = 0 then some (toInt32 length, body)
      else
        match r.read left coming with
        | none =>
            readFixSize start length rs coming body (offset - 1)
              ((left + 1) % 18446744073709551616)
        | some [] => some (0, body)
        | some (c :: cs) =>
            if (start : ℤ) + offset < 0 then none
            else
              readFixSize start length rs (coming.drop (c :: cs).length)
                (overlay body (start + offset).toNat (c :: cs))
                (offset + (c :: cs).length) (left - (c :: cs).length)

/-- The reads and the bytes that `readFixSize` leaves for later ones. -/
def readRest : List Recv → List UInt8 → ℕ → List Recv × List UInt8
  | [], coming, _ => ([], coming)
  | r :: rs, coming, left =>
      if left = 0 then (r :: rs, coming)
      else
        match r.read left coming with
        | none => readRest rs coming ((left + 1) % 18446744073709551616)
        | some [] => (rs, coming)
        | some (c :: cs) =>
            readRest rs (coming.drop (c :: cs).length) (left - (c :: cs).length)

/-- What the calls of `read` in `readFixSize` bring; the last `recv` finds the connection
closed. -/
def results : List Recv → List UInt8 → ℕ → List (Option (List UInt8))
  | [], _, _ => [some []]
  | r :: rs, coming, left =>
      if left = 0 then []
      else
        match r.read left coming with
        | none => none :: results rs coming ((left + 1) % 18446744073709551616)
        | some [] => [some []]
        | some (c :: cs) =>
            some (c :: cs) :: results rs (coming.drop (c :: cs).length) (left - (c :: cs).length)

/-- A `recv` that does not fail and finds a byte if there is one. -/
def Recv.Positive : Recv → Prop
  | .got k => 0 < k
  | .failed => False

instance : DecidablePred Recv.Positive
  | .got k => inferInstanceAs (Decidable (0 < k))
  | .failed => inferInstanceAs (Decidable False)

/-- A read that brings bytes brings the next ones, and no more than it asks
for. -/
theorem of_read {n : ℕ} {coming piece : List UInt8} {r : Recv}
    (h : r.read n coming = some piece) :
    coming.take piece.length = piece ∧ piece.length ≤ n := by
  cases r with
  | got k =>
      obtain rfl := Option.some.inj h
      rw [List.length_take]
      refine ⟨?_, by omega⟩
      rw [List.take_eq_take_iff]
      omega
  | failed => cases h

theorem read_positive {n : ℕ} {coming : List UInt8} {r : Recv} (hr : r.Positive)
    (hn : 0 < n) (hne : coming ≠ []) :
    ∃ x xs, r.read n coming = some (x :: xs) := by
  cases r with
  | got k =>
      obtain ⟨x, t, rfl⟩ := List.exists_cons_of_ne_nil hne
      have hk : 0 < k := hr
      obtain ⟨m, hm⟩ : ∃ m, min k (min n maxRw) = m + 1 :=
        ⟨min k (min n maxRw) - 1, by unfold maxRw; omega⟩
      exact ⟨x, t.take m, by rw [Recv.read, hm, List.take_succ_cons]⟩
  | failed => exact hr.elim

theorem read_nil {n : ℕ} {r : Recv} (x : UInt8) (xs : List UInt8) :
    r.read n [] ≠ some (x :: xs) := by
  intro h
  have := (of_read h).1
  simp at this

/-- How many bytes the reads can bring before one of them brings none, if each asks for
enough. -/
def supplied : List Recv → ℕ
  | .got (k + 1) :: rs => min (k + 1) maxRw + supplied rs
  | _ => 0

/-- Reads that do not fail: the rest is filled if as many bytes come, and else the loop ends
with the `0` of the peer. -/
theorem readFixSize_supplied {start : ℕ} (length : ℕ) : ∀ (rs : List Recv)
    (coming : List UInt8) {body : List UInt8} {offset left : ℕ}, (∀ r ∈ rs, r ≠ .failed) →
    start + offset + left ≤ body.length →
    (left ≤ min (supplied rs) coming.length →
      readFixSize start length rs coming body offset left =
        some (toInt32 length, overlay body (start + offset) (coming.take left))) ∧
    (min (supplied rs) coming.length < left →
      ∃ body', readFixSize start length rs coming body offset left = some (0, body'))
  | [], coming, body, offset, left, _, _ => by
      have hnone : supplied [] = 0 := rfl
      rw [hnone, Nat.zero_min]
      constructor
      · intro hleft
        obtain rfl := Nat.le_zero.mp hleft
        rw [readFixSize, if_pos rfl, List.take_zero, overlay_nil]
      · intro hleft
        exact ⟨body, by rw [readFixSize, if_neg hleft.ne']⟩
  | r :: rs, coming, body, offset, left, hok, hbody => by
      rcases Nat.eq_zero_or_pos left with rfl | hleft
      · refine ⟨fun _ => ?_, fun h => absurd h (Nat.not_lt_zero _)⟩
        rw [readFixSize, if_pos rfl, List.take_zero, overlay_nil]
      rw [readFixSize, if_neg hleft.ne']
      rcases hread : r.read left coming with _ | _ | ⟨x, xs⟩
      · cases r with
        | failed => exact absurd rfl (hok .failed List.mem_cons_self)
        | got k => cases hread
      · -- No byte: the peer is at its end.
        have hend : min (supplied (r :: rs)) coming.length = 0 := by
          cases r with
          | failed => exact absurd rfl (hok .failed List.mem_cons_self)
          | got k =>
              rcases List.take_eq_nil_iff.mp (Option.some.inj hread) with hzero | rfl
              · have hk : k = 0 := by
                  unfold maxRw at hzero
                  omega
                rw [hk]
                exact Nat.zero_min _
              · exact Nat.min_zero _
        rw [hend]
        exact ⟨fun h => absurd h hleft.not_ge, fun _ => ⟨body, rfl⟩⟩
      · obtain ⟨htake, hle⟩ := of_read hread
        have hsome : 0 < (x :: xs).length := Nat.succ_pos _
        have hsupplied : left ≤ min (supplied (r :: rs)) coming.length ↔
            left - (x :: xs).length ≤
              min (supplied rs) (coming.drop (x :: xs).length).length := by
          cases r with
          | failed => cases hread
          | got k =>
              have hlen := congrArg List.length (Option.some.inj hread)
              rw [List.length_take] at hlen
              rw [List.length_drop]
              cases k with
              | zero =>
                  rw [Nat.zero_min, Nat.zero_min] at hlen
                  exact absurd hlen hsome.ne
              | succ k =>
                  rw [supplied]
                  generalize (x :: xs).length = n at hlen hle hsome ⊢
                  generalize maxRw = m at hlen ⊢
                  omega
        have hoff : ((start : ℤ) + offset).toNat = start + offset := by omega
        have hnext : (offset : ℤ) + (x :: xs).length = ((offset + (x :: xs).length : ℕ) : ℤ) := by
          push_cast
          rfl
        have hlen : (overlay body (start + offset) (x :: xs)).length = body.length :=
          length_overlay (by omega)
        dsimp only
        rw [if_neg (by omega), hoff, hnext]
        have hfits : start + (offset + (x :: xs).length) + (left - (x :: xs).length) ≤
            (overlay body (start + offset) (x :: xs)).length := by
          omega
        have hrest := readFixSize_supplied length rs (coming.drop (x :: xs).length)
          (fun r' hr' => hok r' (List.mem_cons_of_mem _ hr')) hfits
        constructor
        · intro h
          have hsplit : coming.take left = (x :: xs) ++
              (coming.drop (x :: xs).length).take (left - (x :: xs).length) := by
            have hadd := List.take_add (l := coming) (i := (x :: xs).length)
              (j := left - (x :: xs).length)
            rwa [Nat.add_sub_cancel' hle, htake] at hadd
          rw [hrest.1 (hsupplied.mp h), hsplit, ← Nat.add_assoc, overlay_overlay (by omega)]
        · intro h
          exact hrest.2 (Nat.not_le.mp fun hge => absurd (hsupplied.mpr hge) (Nat.not_le.mpr h))

theorem length_le_supplied : ∀ {rs : List Recv}, (∀ r ∈ rs, r.Positive) → rs.length ≤ supplied rs
  | [], _ => Nat.le_refl _
  | r :: rs, hpos => by
      have hrest := length_le_supplied fun r' hr' => hpos r' (List.mem_cons_of_mem _ hr')
      have hr := hpos r List.mem_cons_self
      cases r with
      | failed => exact hr.elim
      | got k =>
          cases k with
          | zero => exact absurd hr (Nat.lt_irrefl 0)
          | succ k =>
              have hone : 1 ≤ min (k + 1) maxRw := by
                unfold maxRw
                omega
              rw [supplied, List.length_cons]
              omega

end SocketStream

end Skt
