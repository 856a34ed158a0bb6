import Skt.Stream.SocketStream

/-!
# `readFixSize` and `writeFixSize`

The two loops over a buffer are one: they differ in what a call of `read` or `write` does to
the bytes. The loops run over the results of the calls, `none` for `-1`; when the results are
used up a call is still under way. `offset`, `left` and `len` are `size_t`.

`SocketStream.readFixSize` is this loop with the calls made to a peer and a part of a list for
the buffer.
-/

namespace Skt

namespace Stream

open Lib Lib.CString

/-- `windows` are the offset and the length passed to each call; `returned` is `none` as
long as the loop is in a call. -/
structure Outcome (σ : Type) where
  windows : List (ℕ × ℕ)
  state : σ
  returned : Option ℤ

/-- The conversion of an `int` to `size_t`. -/
def toSize (v : ℤ) : ℕ := (v % 18446744073709551616).toNat

section Loop

variable {ρ σ : Type} (size : ρ → ℕ) (move : ℕ → ρ → σ → σ)

/-- What a call returns. -/
def value : Option ρ → ℤ
  | none => -1
  | some x => size x

/-- The loop of `readFixSize` and `writeFixSize`. -/
def fixSize (length : ℕ) : List (Option ρ) → σ → ℕ → ℕ → Outcome σ
  | [], st, offset, left =>
      if left = 0 then ⟨[], st, some (toInt32 length)⟩ else ⟨[(offset, left)], st, none⟩
  | r :: rs, st, offset, left =>
      if left = 0 then ⟨[], st, some (toInt32 length)⟩
      else
        let len := toSize (value size r)
        -- `len` is unsigned, so this is `len == 0`
        if len ≤ 0 then ⟨[(offset, left)], st, some (toInt32 len)⟩
        else
          let next := fixSize length rs (r.elim st fun x => move offset x st)
            ((offset + len) % 18446744073709551616)
            ((left + 18446744073709551616 - len) % 18446744073709551616)
          { next with windows := (offset, left) :: next.windows }

/-! ## What the loop is to do -/

/-- How many bytes a list of calls has moved. -/
def total (xs : List ρ) : ℕ := (xs.map size).sum

/-- No call moves more bytes than it is asked for. -/
def Answers (windows : List (ℕ × ℕ)) (rs : List (Option ρ)) : Prop :=
  ∀ call ∈ windows.zip rs, ∀ x, call.2 = some x → size x ≤ call.1.2

/-- The loop over the results `rs` does what it is for; `moved xs` is the state after calls
that have moved `xs` one after the other. -/
structure Right (length : ℕ) (rs : List (Option ρ)) (moved : List ρ → σ) (out : Outcome σ) :
    Prop where
  inside : ∀ w ∈ out.windows, w.1 + w.2 ≤ length
  stops : ∀ xs r post, rs = xs.map some ++ r :: post → (∀ x ∈ xs, 0 < size x) →
    total size xs < length → value size r ≤ 0 →
      out.returned = some (value size r) ∧ out.windows.length = xs.length + 1 ∧
        out.state = moved xs
  completes : ∀ xs post, rs = xs.map some ++ post → (∀ x ∈ xs, 0 < size x) →
    total size xs = length →
      out.returned = some (length : ℤ) ∧ out.windows.length = xs.length ∧ out.state = moved xs
  waits : ∀ xs, rs = xs.map some → (∀ x ∈ xs, 0 < size x) → total size xs < length →
    out.returned = none ∧ out.state = moved xs

/-- A call fails before all bytes are moved. -/
def Fails (length : ℕ) (rs : List (Option ρ)) : Prop :=
  ∃ xs post, rs = xs.map some ++ none :: post ∧ (∀ x ∈ xs, 0 < size x) ∧ total size xs < length

/-! ## Calls that move bytes -/

/-- The state after calls that move `xs`. -/
def moveAll : ℕ → List ρ → σ → σ
  | _, [], st => st
  | offset, x :: xs, st => moveAll (offset + size x) xs (move offset x st)

/-- The windows of calls that move `xs`. -/
def windowsOf : ℕ → ℕ → List ρ → List (ℕ × ℕ)
  | _, _, [] => []
  | offset, left, x :: xs => (offset, left) :: windowsOf (offset + size x) (left - size x) xs

variable {size move} {length offset left : ℕ} {st : σ} {rs post : List (Option ρ)} {x : ρ}
  {xs : List ρ}

@[simp] theorem total_nil : total size ([] : List ρ) = 0 := rfl

@[simp] theorem total_cons : total size (x :: xs) = size x + total size xs := rfl

theorem value_none_nonpos : value size (none : Option ρ) ≤ 0 := by
  rw [value]
  omega

theorem toSize_of_lt {n : ℕ} (h : n < 18446744073709551616) : toSize n = n := by
  unfold toSize
  omega

theorem fixSize_done : fixSize size move length rs st offset 0 =
    ⟨[], st, some (toInt32 length)⟩ := by
  cases rs <;> rw [fixSize, if_pos rfl]

/-- One round of the loop, with a call that moves bytes. -/
theorem fixSize_some (hpos : 0 < size x) (hle : size x ≤ left)
    (hlt : left < 18446744073709551616) (offset : ℤ) :
    fixSize size move length (some x :: rs) st (toSize offset) left =
      { fixSize size move length rs (move (toSize offset) x st) (toSize (offset + size x))
          (left - size x) with
        windows := (toSize offset, left) ::
          (fixSize size move length rs (move (toSize offset) x st) (toSize (offset + size x))
            (left - size x)).windows } := by
  have hlen : toSize (value size (some x)) = size x := toSize_of_lt (by omega)
  have hoffset : (toSize offset + size x) % 18446744073709551616 = toSize (offset + size x) := by
    unfold toSize
    omega
  have hleft : (left + 18446744073709551616 - size x) % 18446744073709551616 =
      left - size x := by
    omega
  rw [fixSize, if_neg (by omega)]
  simp only [hlen, hoffset, hleft]
  rw [if_neg (by omega)]
  rfl

/-- One round with a call that fails. -/
theorem fixSize_none (hleft : left ≠ 0) (offset : ℤ) :
    fixSize size move length (none :: rs) st (toSize offset) left =
      { fixSize size move length rs st (toSize (offset - 1))
          ((left + 1) % 18446744073709551616) with
        windows := (toSize offset, left) ::
          (fixSize size move length rs st (toSize (offset - 1))
            ((left + 1) % 18446744073709551616)).windows } := by
  have hlen : toSize (value size (none : Option ρ)) = 18446744073709551615 := by
    rw [value]
    decide
  have hoffset : (toSize offset + 18446744073709551615) % 18446744073709551616 =
      toSize (offset - 1) := by
    unfold toSize
    omega
  have hnext : (left + 18446744073709551616 - 18446744073709551615) % 18446744073709551616 =
      (left + 1) % 18446744073709551616 := by
    omega
  rw [fixSize, if_neg hleft]
  simp only [hlen, hoffset, hnext]
  rw [if_neg (by omega)]
  rfl

theorem fixSize_cons (hpos : 0 < size x) (hle : size x ≤ left)
    (hlt : offset + left < 2147483648) :
    fixSize size move length (some x :: rs) st offset left =
      { fixSize size move length rs (move offset x st) (offset + size x) (left - size x) with
        windows := (offset, left) ::
          (fixSize size move length rs (move offset x st) (offset + size x)
            (left - size x)).windows } := by
  have hround : fixSize size move length (some x :: rs) st (toSize offset) left = _ :=
    fixSize_some hpos hle (by omega) offset
  rwa [toSize_of_lt (by omega), ← Nat.cast_add, toSize_of_lt (by omega)] at hround

/-- Calls that move bytes, one after the other. -/
theorem fixSize_append : ∀ {xs : List ρ} {offset left : ℕ} {st : σ},
    (∀ x ∈ xs, 0 < size x) → total size xs ≤ left → offset + left < 2147483648 →
    fixSize size move length (xs.map some ++ post) st offset left =
      { fixSize size move length post (moveAll size move offset xs st)
          (offset + total size xs) (left - total size xs) with
        windows := windowsOf size offset left xs ++
          (fixSize size move length post (moveAll size move offset xs st)
            (offset + total size xs) (left - total size xs)).windows }
  | [], _, _, _, _, _, _ => rfl
  | x :: xs, offset, left, st, hpos, hle, hlt => by
      rw [total_cons] at hle
      rw [List.map_cons, List.cons_append, fixSize_cons (hpos x List.mem_cons_self) (by omega) hlt,
        fixSize_append (fun y hy => hpos y (List.mem_cons_of_mem _ hy)) (by omega) (by omega),
        moveAll, windowsOf, total_cons, Nat.add_assoc, Nat.sub_sub]
      rfl

theorem length_windowsOf : ∀ (xs : List ρ) (offset left : ℕ),
    (windowsOf size offset left xs).length = xs.length
  | [], _, _ => rfl
  | _ :: xs, _, _ => congrArg (· + 1) (length_windowsOf xs _ _)

theorem mem_windowsOf : ∀ {xs : List ρ} {offset left : ℕ}, total size xs ≤ left →
    ∀ w ∈ windowsOf size offset left xs, w.1 + w.2 ≤ offset + left
  | x :: xs, offset, left, hle, w, hw => by
      rw [total_cons] at hle
      rcases List.mem_cons.mp hw with rfl | hw
      · exact le_rfl
      · have := mem_windowsOf (by omega) w hw
        omega

/-- A call that moves nothing ends the loop. -/
theorem fixSize_zero (hzero : size x = 0) (hleft : left ≠ 0) :
    fixSize size move length (some x :: rs) st offset left = ⟨[(offset, left)], st, some 0⟩ := by
  rw [fixSize, if_neg hleft]
  simp only [value, hzero, Nat.cast_zero]
  rfl

/-- The loop never returns `-1`. -/
theorem returned_ne (hlength : length < 2147483648) : ∀ (rs : List (Option ρ)) (st : σ)
    (offset left : ℕ), (fixSize size move length rs st offset left).returned ≠ some (-1)
  | [], st, offset, left => by
      have hint : toInt32 length = length := toInt32_of_le (by omega) (by omega)
      rw [fixSize]
      split_ifs
      · rw [hint]
        simp
      · simp
  | r :: rs, st, offset, left => by
      have hint : toInt32 length = length := toInt32_of_le (by omega) (by omega)
      rw [fixSize]
      dsimp only
      split_ifs with hleft hlen
      · rw [hint]
        simp
      · rw [Nat.le_zero.mp hlen]
        simp [toInt32]
      · exact returned_ne hlength rs _ _ _

/-- The results split into calls that move bytes, and what ends them. -/
theorem exists_prefix : ∀ (rs : List (Option ρ)) {st : σ} {offset left : ℕ},
    offset + left < 2147483648 →
    Answers size (fixSize size move length rs st offset left).windows rs →
    ∃ xs post, rs = xs.map some ++ post ∧ (∀ x ∈ xs, 0 < size x) ∧ total size xs ≤ left ∧
      (total size xs = left ∨ total size xs < left ∧
        (post = [] ∨ ∃ r post', post = r :: post' ∧ value size r ≤ 0))
  | [], _, _, left, _, _ => by
      refine ⟨[], [], rfl, by simp, Nat.zero_le left, ?_⟩
      rw [total_nil]
      rcases Nat.eq_zero_or_pos left with h | h
      · exact .inl h.symm
      · exact .inr ⟨h, .inl rfl⟩
  | r :: rs, st, offset, left, hlt, hanswers => by
      rcases Nat.eq_zero_or_pos left with rfl | hleft
      · exact ⟨[], r :: rs, rfl, by simp, le_rfl, .inl rfl⟩
      · by_cases hvalue : value size r ≤ 0
        · exact ⟨[], r :: rs, rfl, by simp, Nat.zero_le _, .inr ⟨hleft, .inr ⟨r, rs, rfl, hvalue⟩⟩⟩
        · cases r with
          | none => exact absurd value_none_nonpos hvalue
          | some x =>
              have hpos : 0 < size x := by
                simp only [value] at hvalue
                omega
              have hle : size x ≤ left := by
                have hwindow : ∃ ws, (fixSize size move length (some x :: rs) st offset
                    left).windows = (offset, left) :: ws := by
                  rw [fixSize, if_neg hleft.ne']
                  dsimp only
                  split_ifs <;> exact ⟨_, rfl⟩
                obtain ⟨ws, hws⟩ := hwindow
                rw [hws] at hanswers
                exact hanswers ((offset, left), some x) List.mem_cons_self x rfl
              rw [fixSize_cons hpos hle hlt] at hanswers
              obtain ⟨xs, post, rfl, hxs, htotal, hend⟩ := exists_prefix rs (by omega)
                fun call hcall => hanswers call (List.mem_cons_of_mem _ hcall)
              refine ⟨x :: xs, post, rfl, ?_, ?_, ?_⟩
              · intro y hy
                rcases List.mem_cons.mp hy with rfl | hy
                · exact hpos
                · exact hxs y hy
              · rw [total_cons]
                omega
              · rw [total_cons]
                rcases hend with hend | ⟨hend, hpost⟩
                · exact .inl (by omega)
                · exact .inr ⟨by omega, hpost⟩

theorem Fails.none_mem (h : Fails size length rs) : none ∈ rs := by
  obtain ⟨xs, post, rfl, -⟩ := h
  exact List.mem_append_right _ List.mem_cons_self

/-- Only the states after at most `length` bytes matter. -/
theorem Right.congr {moved moved' : List ρ → σ} {out : Outcome σ}
    (h : Right size length rs moved out)
    (heq : ∀ xs, total size xs ≤ length → moved xs = moved' xs) :
    Right size length rs moved' out where
  inside := h.inside
  stops xs r post hrs hpos htotal hvalue := by
    rw [← heq xs htotal.le]
    exact h.stops xs r post hrs hpos htotal hvalue
  completes xs post hrs hpos htotal := by
    rw [← heq xs htotal.le]
    exact h.completes xs post hrs hpos htotal
  waits xs hrs hpos htotal := by
    rw [← heq xs htotal.le]
    exact h.waits xs hrs hpos htotal

/-- The loop is right exactly if no call fails. -/
theorem fixSize_right_iff (hlength : length < 2147483648)
    (hanswers : Answers size (fixSize size move length rs st 0 length).windows rs) :
    Right size length rs (fun xs => moveAll size move 0 xs st)
      (fixSize size move length rs st 0 length) ↔ ¬Fails size length rs := by
  constructor
  · rintro hright ⟨xs, post, hrs, hpos, htotal⟩
    have hstop := (hright.stops xs none post hrs hpos htotal value_none_nonpos).1
    exact returned_ne hlength rs st 0 length hstop
  · intro hfails
    have hint : toInt32 length = length := toInt32_of_le (by omega) (by omega)
    have hlt : 0 + length < 2147483648 := by omega
    refine ⟨?_, ?_, ?_, ?_⟩
    · obtain ⟨xs, post, rfl, hpos, hle, hend⟩ := exists_prefix rs hlt hanswers
      intro w hw
      rw [fixSize_append hpos hle hlt] at hw
      rcases List.mem_append.mp hw with hw | hw
      · have := mem_windowsOf hle w hw
        omega
      · rcases hend with hend | ⟨hend, rfl | ⟨r, post, rfl, hvalue⟩⟩
        · rw [hend, Nat.sub_self, fixSize_done] at hw
          cases hw
        · rw [fixSize, if_neg (by omega)] at hw
          cases List.mem_singleton.mp hw
          dsimp only
          omega
        · cases r with
          | none => exact absurd ⟨xs, post, rfl, hpos, hend⟩ hfails
          | some x =>
              rw [fixSize_zero (by simpa [value] using hvalue) (by omega)] at hw
              cases List.mem_singleton.mp hw
              dsimp only
              omega
    · rintro xs r post rfl hpos htotal hvalue
      cases r with
      | none => exact absurd ⟨xs, post, rfl, hpos, htotal⟩ hfails
      | some x =>
          have hzero : size x = 0 := by simpa [value] using hvalue
          rw [fixSize_append hpos htotal.le hlt, fixSize_zero hzero (by omega)]
          refine ⟨?_, ?_, rfl⟩
          · rw [value, hzero]
            rfl
          · rw [List.length_append, length_windowsOf]
            rfl
    · rintro xs post rfl hpos htotal
      rw [fixSize_append hpos htotal.le hlt, htotal, Nat.sub_self, fixSize_done]
      refine ⟨congrArg some hint, ?_, rfl⟩
      rw [List.append_nil, length_windowsOf]
    · rintro xs rfl hpos htotal
      rw [← List.append_nil (xs.map some), fixSize_append hpos htotal.le hlt, fixSize,
        if_neg (by omega)]
      exact ⟨rfl, rfl⟩

end Loop

/-! ## The two functions -/

/-- A memory seen from the first byte of the buffer, with `d` stored at `buffer + offset`. -/
def deliver (offset : ℕ) (d : List UInt8) (mem : ℤ → UInt8) : ℤ → UInt8 := fun a =>
  if (offset : ℤ).bmod 18446744073709551616 ≤ a then
    d.getD (a - (offset : ℤ).bmod 18446744073709551616).toNat (mem a)
  else mem a

/-- The `n` bytes at `buffer + offset` are sent. -/
def send (mem : ℤ → UInt8) (offset n : ℕ) (sent : List UInt8) : List UInt8 :=
  sent ++ (List.range n).map fun i : ℕ => mem ((offset : ℤ).bmod 18446744073709551616 + i)

/-- `readFixSize(buffer, length)`; each call of `read` fails or brings some bytes. -/
def readFixSize (length : ℕ) (mem : ℤ → UInt8) (rs : List (Option (List UInt8))) :
    Outcome (ℤ → UInt8) :=
  fixSize List.length deliver length rs mem 0 length

/-- `writeFixSize(buffer, length)`; each call of `write` fails or takes some bytes. -/
def writeFixSize (length : ℕ) (mem : ℤ → UInt8) (rs : List (Option ℕ)) :
    Outcome (List UInt8) :=
  fixSize id (send mem) length rs [] 0 length

theorem bmod_of_lt {offset : ℕ} (h : offset < 2147483648) :
    (offset : ℤ).bmod 18446744073709551616 = offset := by
  rw [Int.bmod_eq_of_le] <;> omega

theorem deliver_nil (offset : ℕ) (mem : ℤ → UInt8) : deliver offset [] mem = mem := by
  funext a
  simp [deliver]

theorem deliver_deliver {offset : ℕ} {d d' : List UInt8} {mem : ℤ → UInt8}
    (h : offset + d.length < 2147483648) :
    deliver (offset + d.length) d' (deliver offset d mem) = deliver offset (d ++ d') mem := by
  funext a
  simp only [deliver, bmod_of_lt h, bmod_of_lt (show offset < 2147483648 by omega)]
  by_cases hd : (offset : ℤ) ≤ a
  · rw [if_pos hd]
    by_cases hd' : ((offset + d.length : ℕ) : ℤ) ≤ a
    · have hidx : (a - offset).toNat = d.length + (a - (offset + d.length : ℕ)).toNat := by
        omega
      rw [if_pos hd', if_pos hd, hidx, List.getD_append_right _ _ _ _ (Nat.le_add_right _ _),
        Nat.add_sub_cancel_left, List.getD_eq_default _ _ (Nat.le_add_right _ _)]
    · rw [if_neg hd', if_pos hd, List.getD_append _ _ _ _ (by omega)]
  · rw [if_neg hd, if_neg hd, if_neg (by omega)]

theorem moveAll_deliver : ∀ {xs : List (List UInt8)} {offset : ℕ} {mem : ℤ → UInt8},
    offset + total List.length xs < 2147483648 →
    moveAll List.length deliver offset xs mem = deliver offset xs.flatten mem
  | [], offset, mem, _ => (deliver_nil offset mem).symm
  | x :: xs, offset, mem, h => by
      rw [total_cons] at h
      rw [moveAll, moveAll_deliver (by omega), deliver_deliver (by omega), List.flatten_cons]

theorem send_send {mem : ℤ → UInt8} {offset n m : ℕ} {sent : List UInt8}
    (h : offset + n < 2147483648) :
    send mem (offset + n) m (send mem offset n sent) = send mem offset (n + m) sent := by
  simp only [send, bmod_of_lt h, bmod_of_lt (show offset < 2147483648 by omega),
    List.range_add, List.map_append, List.map_map, List.append_assoc, Function.comp_def]
  simp only [Nat.cast_add, add_assoc]

theorem moveAll_send {mem : ℤ → UInt8} : ∀ {ns : List ℕ} {offset : ℕ} {sent : List UInt8},
    offset + total id ns < 2147483648 →
    moveAll id (send mem) offset ns sent = send mem offset (total id ns) sent
  | [], offset, sent, _ => (List.append_nil sent).symm
  | n :: ns, offset, sent, h => by
      rw [total_cons, id_eq] at h
      rw [moveAll, id_eq, moveAll_send (by omega), send_send (by omega), total_cons, id_eq]

/-- **Transfers of a fixed size.** Whatever the calls return, short of moving more than they
are asked for: the two functions stay inside the buffer, stop at the first result that is not
positive and return it, and otherwise move all bytes in order and return the length, exactly
if no call returns `-1` before all bytes are moved. -/
theorem fixSize_iff {length : ℕ} (hlength : length < 2147483648) (mem : ℤ → UInt8) :
    (∀ rs, Answers List.length (readFixSize length mem rs).windows rs →
      (Right List.length length rs (fun xs => deliver 0 xs.flatten mem)
        (readFixSize length mem rs) ↔ ¬Fails List.length length rs)) ∧
    ∀ rs, Answers id (writeFixSize length mem rs).windows rs →
      (Right id length rs (fun ns => (List.range (total id ns)).map fun i : ℕ => mem i)
        (writeFixSize length mem rs) ↔ ¬Fails id length rs) := by
  refine ⟨fun rs hanswers => ?_, fun rs hanswers => ?_⟩
  · have hread : ∀ xs, total List.length xs ≤ length →
        moveAll List.length deliver 0 xs mem = deliver 0 xs.flatten mem :=
      fun xs hle => moveAll_deliver (by omega)
    rw [← fixSize_right_iff hlength hanswers]
    exact ⟨fun h => h.congr fun xs hle => (hread xs hle).symm, fun h => h.congr hread⟩
  · have hwrite : ∀ ns, total id ns ≤ length →
        moveAll id (send mem) 0 ns [] = (List.range (total id ns)).map fun i : ℕ => mem i := by
      intro ns hle
      rw [moveAll_send (by omega)]
      simp [send]
    rw [← fixSize_right_iff hlength hanswers]
    exact ⟨fun h => h.congr fun ns hle => (hwrite ns hle).symm, fun h => h.congr hwrite⟩

/-- Two short reads and two short writes. -/
theorem fixSize_iff_two :
    Right List.length 3 [some [1], some [2, 3]] (fun xs => deliver 0 xs.flatten fun _ => 0)
        (readFixSize 3 (fun _ => 0) [some [1], some [2, 3]]) ∧
      Right id 3 [some 2, some 1] (fun ns => (List.range (total id ns)).map fun _ : ℕ => 7)
        (writeFixSize 3 (fun _ => 7) [some 2, some 1]) := by
  constructor
  · have hwindows : (readFixSize 3 (fun _ => 0) [some [1], some [2, 3]]).windows =
        [(0, 3), (1, 2)] := by decide
    refine ((fixSize_iff (show 3 < 2147483648 by decide) _).1 _ ?_).mpr fun hfails => ?_
    · rw [hwindows]
      simp [Answers]
    · exact absurd hfails.none_mem (by decide)
  · have hwindows : (writeFixSize 3 (fun _ => 7) [some 2, some 1]).windows =
        [(0, 3), (2, 1)] := by decide
    refine ((fixSize_iff (show 3 < 2147483648 by decide) fun _ => 7).2 _ ?_).mpr fun hfails => ?_
    · rw [hwindows]
      simp [Answers]
    · exact absurd hfails.none_mem (by decide)

/-- The second call fails: the third is told to go on one byte before the end of the first,
for one byte more; and after a failure at once, in front of the buffer. -/
theorem fixSize_failed :
    (readFixSize 3 (fun _ => 0) [some [1], none, some [2, 3, 4]]).windows =
        [(0, 3), (1, 2), (0, 3)] ∧
      (readFixSize 3 (fun _ => 0) [some [1], none, some [2, 3, 4]]).returned = some 3 ∧
      (readFixSize 3 (fun _ => 0) [some [1], none, some [2, 3, 4]]).state 0 = 2 ∧
      (writeFixSize 3 (fun _ => 7) [none, some 2]).windows =
        [(0, 3), (18446744073709551615, 4), (1, 2)] := by
  decide

/-! ## Reading from a peer -/

section Peer

variable {start length : ℕ} {body : List UInt8} {mem : ℤ → UInt8}

/-- The memory around `&body[start]` has the bytes of `body`. -/
def Shows (start : ℕ) (body : List UInt8) (mem : ℤ → UInt8) : Prop :=
  ∀ (i : ℕ) c, body[i]? = some c → mem ((i : ℤ) - start) = c

/-- The loop has returned and left what `SocketStream.readFixSize` says, or has told a call to
write in front of `body`. -/
def Agrees (start : ℕ) (out : Outcome (ℤ → UInt8)) : Option (ℤ × List UInt8) → Prop
  | some (v, body) => out.returned = some v ∧ Shows start body out.state
  | none => ∃ w ∈ out.windows, (start : ℤ) + (w.1 : ℤ).bmod 18446744073709551616 < 0

theorem Agrees.cons {out : Outcome (ℤ → UInt8)} {r : Option (ℤ × List UInt8)}
    (h : Agrees start out r) (w : ℕ × ℕ) :
    Agrees start { out with windows := w :: out.windows } r := by
  cases r with
  | some x => exact h
  | none =>
      obtain ⟨w', hw', hneg⟩ := h
      exact ⟨w', List.mem_cons_of_mem _ hw', hneg⟩

theorem bmod_toSize {v : ℤ} (hlow : -9223372036854775808 ≤ v) (hhigh : v < 9223372036854775808) :
    (toSize v : ℤ).bmod 18446744073709551616 = v := by
  rw [toSize, Int.toNat_of_nonneg (Int.emod_nonneg _ (by decide))]
  have hmod : (v % 18446744073709551616).bmod 18446744073709551616 =
      v.bmod 18446744073709551616 := Int.emod_bmod v 18446744073709551616
  rw [hmod, Int.bmod_eq_of_le]
  · omega
  · omega

theorem Shows.deliver (h : Shows start body mem) {offset : ℤ} {d : List UInt8}
    (hlow : -9223372036854775808 ≤ offset) (hhigh : offset < 9223372036854775808)
    (hpos : 0 ≤ (start : ℤ) + offset) (hfits : start + offset + d.length ≤ body.length) :
    Shows start (overlay body (start + offset).toNat d) (deliver (toSize offset) d mem) := by
  intro i c hi
  rw [getElem?_overlay (by omega)] at hi
  rw [Stream.deliver, bmod_toSize hlow hhigh]
  split_ifs at hi with hin
  · have hidx : ((i : ℤ) - start - offset).toNat = i - (start + offset).toNat := by omega
    rw [if_pos (by omega), hidx, List.getD_eq_getElem?_getD, hi]
    rfl
  · by_cases hle : offset ≤ (i : ℤ) - start
    · rw [if_pos hle, List.getD_eq_default _ _ (by omega), h i c hi]
    · rw [if_neg hle, h i c hi]

/-- The two loops go on in step. -/
theorem fixSize_results (hbody : body.length < 4611686018427387904) :
    ∀ (rs : List SocketStream.Recv) (coming : List UInt8) {body' : List UInt8}
      {mem : ℤ → UInt8} {offset : ℤ} {left : ℕ}, body'.length = body.length →
      Shows start body' mem → (rs.length : ℤ) ≤ offset + 4611686018427387904 →
      start + offset + left ≤ body.length →
      Agrees start (fixSize List.length deliver length (SocketStream.results rs coming left) mem
          (toSize offset) left)
        (SocketStream.readFixSize start length rs coming body' offset left)
  | [], coming, body', mem, offset, left, _, hmem, _, _ => by
      rw [SocketStream.results, SocketStream.readFixSize]
      by_cases hleft : left = 0
      · rw [if_pos hleft, hleft, fixSize_done]
        exact ⟨rfl, hmem⟩
      · rw [if_neg hleft, fixSize_zero List.length_nil hleft]
        exact ⟨rfl, hmem⟩
  | r :: rs, coming, body', mem, offset, left, hlen, hmem, hrs, hfits => by
      rw [List.length_cons, Nat.cast_succ] at hrs
      rw [SocketStream.results, SocketStream.readFixSize]
      by_cases hleft : left = 0
      · rw [if_pos hleft, if_pos hleft, hleft, fixSize_done]
        exact ⟨rfl, hmem⟩
      rw [if_neg hleft, if_neg hleft]
      rcases hread : r.read left coming with _ | _ | ⟨x, xs⟩
      · dsimp only
        have hmod : (left + 1) % 18446744073709551616 = left + 1 := Nat.mod_eq_of_lt (by omega)
        rw [fixSize_none hleft, hmod]
        exact (fixSize_results hbody rs coming hlen hmem (by omega)
          (by push_cast; omega)).cons _
      · dsimp only
        rw [fixSize_zero List.length_nil hleft]
        exact ⟨rfl, hmem⟩
      · obtain ⟨-, hle⟩ := SocketStream.of_read hread
        have hpos : 0 < (x :: xs).length := Nat.succ_pos _
        dsimp only
        rw [fixSize_some hpos hle (by omega)]
        split_ifs with hneg
        · refine ⟨(toSize offset, left), List.mem_cons_self, ?_⟩
          rw [bmod_toSize (by omega) (by omega)]
          exact hneg
        · have hover : (overlay body' (start + offset).toNat (x :: xs)).length = body.length := by
            rw [length_overlay (by omega), hlen]
          exact (fixSize_results hbody rs _ hover
            (hmem.deliver (by omega) (by omega) (by omega) (by omega)) (by omega)
            (by omega)).cons _

/-- **Reading from a peer.** `SocketStream.readFixSize` is `readFixSize` on the part of `body`
behind `start` and what the peer lets the calls of `read` return. -/
theorem readFixSize_results (hbody : body.length < 4611686018427387904)
    (hfits : start + length ≤ body.length) (hmem : Shows start body mem)
    {rs : List SocketStream.Recv} (hrs : rs.length ≤ 4611686018427387904)
    (coming : List UInt8) :
    Agrees start (readFixSize length mem (SocketStream.results rs coming length))
      (SocketStream.readFixSize start length rs coming body 0 length) :=
  fixSize_results hbody rs coming rfl hmem (by omega) (by omega)

end Peer

end Stream

end Skt
