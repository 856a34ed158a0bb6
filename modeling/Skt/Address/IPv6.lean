import Skt.Address.IPv4

/-!
# `IPv6Address`

`broadcastAddress`, `networkAddress` and `subnetMask`. The prefix is split into whole bytes
and a rest; the byte in which it ends is at the index `prefix_len / 8`, which for a prefix
length of 128 is behind the address.
-/

namespace Skt

open Lib

/-- `s6_addr`. -/
abbrev In6Addr := Vector (BitVec 8) 16

/-- `sockaddr_in6`, as it is stored. -/
structure SockaddrIn6 where
  family : UInt16
  port : UInt16
  addr : In6Addr
  deriving DecidableEq, Repr

namespace IPv6Address

/-- `s6_addr[i] = f(s6_addr[i])`; `none` if the index is out of bounds. -/
def setByte (v : In6Addr) (i : ℕ) (f : BitVec 8 → BitVec 8) : Option In6Addr :=
  if h : i < 16 then some (v.set i (f v[i])) else none

/-- `for(i = lo; i < hi; ++i) s6_addr[i] = 0xff`. -/
def ones (lo hi : ℕ) (v : In6Addr) : In6Addr :=
  (List.range' lo (hi - lo)).foldl (fun v i => v.setIfInBounds i 0xff#8) v

/-- `CreateMask<uint8_t>`. The shift is by eight places at most. -/
def byteMask (bits : ℕ) : BitVec 8 := createMask 8 (fun _ => 0) bits

def broadcastAddress (a : SockaddrIn6) (p : ℕ) : Option SockaddrIn6 :=
  (setByte a.addr (p / 8) fun b => b ||| byteMask (p % 8)).map fun v =>
    { a with addr := ones (p / 8 + 1) 16 v }

def networkAddress (a : SockaddrIn6) (p : ℕ) : Option SockaddrIn6 :=
  (setByte a.addr (p / 8) fun b => b &&& byteMask (p % 8)).map fun v =>
    { a with addr := ones (p / 8 + 1) 16 v }

/-- `AF_INET6` is 10. -/
def subnetMask (p : ℕ) : Option SockaddrIn6 :=
  (setByte (Vector.replicate 16 0) (p / 8) fun _ => ~~~byteMask (p % 8)).map fun v =>
    { family := 10, port := 0, addr := ones 0 (p / 8) v }

/-! ## Bytes -/

theorem getElem_foldl_ones (v : In6Addr) {j : ℕ} (hj : j < 16) : ∀ lo n : ℕ,
    ((List.range' lo n).foldl (fun v i => v.setIfInBounds i 0xff#8) v)[j] =
      if lo ≤ j ∧ j < lo + n then 0xff#8 else v[j]
  | lo, 0 => by
      rw [if_neg (by omega)]
      rfl
  | lo, n + 1 => by
      rw [List.range'_1_concat, List.foldl_append, List.foldl_cons, List.foldl_nil,
        Vector.getElem_setIfInBounds, getElem_foldl_ones v hj lo n]
      by_cases hlast : lo + n = j
      · rw [if_pos hlast, if_pos (by omega)]
      · rw [if_neg hlast]
        exact if_congr (by omega) rfl rfl

theorem getElem_ones (v : In6Addr) (lo hi : ℕ) {j : ℕ} (hj : j < 16) :
    (ones lo hi v)[j] = if lo ≤ j ∧ j < hi then 0xff#8 else v[j] := by
  rw [ones, getElem_foldl_ones v hj]
  exact if_congr (by omega) rfl rfl

theorem setByte_of_lt (v : In6Addr) {i : ℕ} (f : BitVec 8 → BitVec 8) (hi : i < 16) :
    setByte v i f = some (v.set i (f v[i])) := by
  rw [setByte, dif_pos hi]

theorem setByte_of_le (v : In6Addr) {i : ℕ} (f : BitVec 8 → BitVec 8) (hi : 16 ≤ i) :
    setByte v i f = none := by
  rw [setByte, dif_neg (by omega)]

/-- The mask of a byte leaves out its first `r` bits. -/
theorem getMsbD_byteMask {r s : ℕ} (hr : r < 8) (hs : s < 8) :
    (byteMask r).getMsbD s = decide (r ≤ s) := by
  rw [byteMask, createMask, if_pos (by omega), BitVec.getMsbD_eq_getLsbD, getLsbD_lowMask,
    decide_eq_true hs, decide_eq_true (show 8 - 1 - s < 8 by omega), Bool.true_and,
    Bool.true_and]
  exact decide_eq_decide.mpr (by omega)

theorem getMsbD_ones {s : ℕ} (hs : s < 8) : (0xff#8).getMsbD s = true := by
  revert s
  decide

/-! ## Subnets -/

/-- A bit of an address, the first one first. -/
def bit (v : In6Addr) (j : Fin 128) : Bool :=
  have hj : j.val / 8 < 16 := by omega
  v[j.val / 8].getMsbD (j.val % 8)

theorem getMsbD_eq_bit (v : In6Addr) {i s : ℕ} (hi : i < 16) (hs : s < 8) :
    v[i].getMsbD s = bit v ⟨8 * i + s, by omega⟩ := by
  have hdiv : (8 * i + s) / 8 = i := by omega
  have hmod : (8 * i + s) % 8 = s := by omega
  simp only [bit, hdiv, hmod]

/-- What the three functions are for. -/
def IsSubnet (a : SockaddrIn6) (p : ℕ) : Prop :=
  ∃ m b n, subnetMask p = some m ∧ broadcastAddress a p = some b ∧
    networkAddress a p = some n ∧ ∀ j : Fin 128,
      bit m.addr j = decide (j < p) ∧
      bit b.addr j = (if j < p then bit a.addr j else true) ∧
      bit n.addr j = (if j < p then bit a.addr j else false)

variable {a : SockaddrIn6} {p : ℕ}

theorem bit_subnetMask (hp : p < 128) : ∃ m, subnetMask p = some m ∧
    ∀ j : Fin 128, bit m.addr j = decide (j < p) := by
  refine ⟨_, by rw [subnetMask, setByte_of_lt _ _ (by omega)]; rfl, fun j => ?_⟩
  have hj := j.isLt
  rw [bit, getElem_ones _ _ _ (by omega)]
  by_cases hlt : j.val / 8 < p / 8
  · rw [if_pos (by omega), getMsbD_ones (by omega), decide_eq_true (by omega)]
  · rw [if_neg (by omega), Vector.getElem_set]
    by_cases heq : p / 8 = j.val / 8
    · rw [if_pos heq, BitVec.getMsbD_not, getMsbD_byteMask (by omega) (by omega),
        decide_eq_true (by omega), Bool.true_and, ← decide_not]
      exact decide_eq_decide.mpr (by omega)
    · rw [if_neg heq, Vector.getElem_replicate, decide_eq_false (by omega)]
      exact BitVec.getMsbD_zero

theorem bit_broadcastAddress (a : SockaddrIn6) (hp : p < 128) :
    ∃ b, broadcastAddress a p = some b ∧
      ∀ j : Fin 128, bit b.addr j = if j < p then bit a.addr j else true := by
  refine ⟨_, by rw [broadcastAddress, setByte_of_lt _ _ (by omega)]; rfl, fun j => ?_⟩
  have hj := j.isLt
  rw [bit, getElem_ones _ _ _ (by omega)]
  by_cases hgt : p / 8 < j.val / 8
  · rw [if_pos (by omega), getMsbD_ones (by omega), if_neg (by omega)]
  · rw [if_neg (by omega), Vector.getElem_set]
    by_cases heq : p / 8 = j.val / 8
    · rw [if_pos heq, BitVec.getMsbD_or, getMsbD_byteMask (by omega) (by omega)]
      simp only [heq]
      by_cases hlt : j.val < p
      · rw [if_pos hlt, decide_eq_false (by omega), Bool.or_false]
        rfl
      · rw [if_neg hlt, decide_eq_true (by omega), Bool.or_true]
    · rw [if_neg heq, if_pos (by omega)]
      rfl

/-- The address that `networkAddress` gives: the prefix length's byte keeps its low bits, and
all bytes behind it are set. -/
theorem networkAddress_eq (a : SockaddrIn6) (hp : p < 128) :
    ∃ n, networkAddress a p = some n ∧ ∀ j (hj : j < 16), n.addr[j] =
      if p / 8 < j then 0xff#8
      else if j = p / 8 then a.addr[j] &&& byteMask (p % 8) else a.addr[j] := by
  refine ⟨_, by rw [networkAddress, setByte_of_lt _ _ (by omega)]; rfl, fun j hj => ?_⟩
  rw [getElem_ones _ _ _ hj]
  by_cases hgt : p / 8 < j
  · rw [if_pos (by omega), if_pos hgt]
  · rw [if_neg (by omega), if_neg hgt, Vector.getElem_set]
    by_cases heq : p / 8 = j
    · subst heq
      rw [if_pos rfl]
    · rw [if_neg heq, if_neg (Ne.symm heq)]

/-- `networkAddress` is right if the prefix ends in the last byte, which is zero. -/
theorem bit_networkAddress_iff (a : SockaddrIn6) {n : SockaddrIn6} (hp : p < 128)
    (hn : networkAddress a p = some n) :
    (∀ j : Fin 128, bit n.addr j = if j < p then bit a.addr j else false) ↔
      120 ≤ p ∧ a.addr[15] = 0#8 := by
  obtain ⟨n', hn', hbytes⟩ := networkAddress_eq a hp
  obtain rfl : n' = n := Option.some.inj (hn'.symm.trans hn)
  constructor
  · intro h
    have hlast : 120 ≤ p := by
      by_contra hlt
      have hbit := h ⟨127, by omega⟩
      rw [if_neg (show ¬127 < p by omega), bit] at hbit
      simp only [hbytes, Nat.reduceDiv, Nat.reduceMod] at hbit
      rw [if_pos (by omega)] at hbit
      exact absurd hbit (by decide)
    refine ⟨hlast, ?_⟩
    have hdiv : p / 8 = 15 := by omega
    refine eq_zero_of_and_eq (m := byteMask (p % 8)) ?_
    apply BitVec.eq_of_getMsbD_eq
    intro s hs
    have hbit := h ⟨8 * 15 + s, by omega⟩
    rw [← getMsbD_eq_bit n'.addr (by decide) hs, ← getMsbD_eq_bit a.addr (by decide) hs,
      hbytes 15 (by decide), if_neg (by omega), if_pos hdiv.symm] at hbit
    rw [hbit, BitVec.getMsbD_and, BitVec.getMsbD_not, getMsbD_byteMask (by omega) hs,
      decide_eq_true hs, Bool.true_and, ← decide_not]
    change (if 8 * 15 + s < p then _ else _) = _
    by_cases hlt : 8 * 15 + s < p
    · have hnot : ¬p % 8 ≤ s := by omega
      rw [if_pos hlt, decide_eq_true hnot, Bool.and_true]
    · have hle : ¬¬p % 8 ≤ s := by omega
      rw [if_neg hlt, decide_eq_false hle, Bool.and_false]
  · rintro ⟨hlast, hzero⟩ j
    have hj := j.isLt
    rw [bit]
    simp only [hbytes]
    rw [if_neg (by omega)]
    by_cases heq : j.val / 8 = p / 8
    · have hfifteen : j.val / 8 = 15 := by omega
      rw [if_pos heq]
      simp only [bit, hfifteen, hzero, BitVec.zero_and, BitVec.getMsbD_zero, ite_self]
    · rw [if_neg heq, if_pos (by omega)]
      rfl

theorem IsSubnet.last_byte {a : SockaddrIn6} {p : ℕ} (h : IsSubnet a p) (hlt : p < 128) :
    120 ≤ p ∧ a.addr[15] = 0#8 := by
  obtain ⟨_, _, n, -, -, hn, hbits⟩ := h
  exact (bit_networkAddress_iff a hlt hn).mp fun j => (hbits j).2.2

/-- **Subnets of an IPv6 address.** `networkAddress` keeps the bits that it should clear,
and sets the bytes behind them. For the prefix length 128 all three functions write behind
the address. -/
theorem isSubnet_iff_last_byte (a : SockaddrIn6) {p : ℕ} (hp : p ≤ 128) :
    IsSubnet a p ↔ 120 ≤ p ∧ p < 128 ∧ a.addr[15] = 0#8 := by
  rcases Nat.lt_or_eq_of_le hp with hlt | rfl
  · obtain ⟨m, hm, hmask⟩ := bit_subnetMask hlt
    obtain ⟨b, hb, hbroadcast⟩ := bit_broadcastAddress a hlt
    obtain ⟨n, hn, -⟩ := networkAddress_eq a hlt
    constructor
    · intro h
      obtain ⟨hlast, hzero⟩ := h.last_byte hlt
      exact ⟨hlast, hlt, hzero⟩
    · rintro ⟨hlast, -, hzero⟩
      have hnetwork := (bit_networkAddress_iff a hlt hn).mpr ⟨hlast, hzero⟩
      exact ⟨m, b, n, hm, hb, hn, fun j => ⟨hmask j, hbroadcast j, hnetwork j⟩⟩
  · constructor
    · rintro ⟨m, _, _, hm, -⟩
      rw [subnetMask, setByte_of_le _ _ (by decide)] at hm
      cases hm
    · rintro ⟨-, hlt, -⟩
      exact absurd hlt (by decide)

/-- The address `::` with the prefix length 120. -/
theorem isSubnet_iff_last_byte_zero : IsSubnet ⟨10, 0, Vector.replicate 16 0⟩ 120 :=
  (isSubnet_iff_last_byte _ (by decide)).mpr ⟨by decide, by decide, by decide⟩

/-- All bits of the network of `::` behind a prefix of 64 bits are set, except for those of
one byte; and the mask of 128 bits is not in the address. -/
theorem networkAddress_not_cleared :
    networkAddress ⟨10, 0, Vector.replicate 16 0⟩ 64 =
        some ⟨10, 0, #v[0, 0, 0, 0, 0, 0, 0, 0, 0, 255, 255, 255, 255, 255, 255, 255]⟩ ∧
      ¬IsSubnet ⟨10, 0, Vector.replicate 16 0⟩ 64 ∧ subnetMask 128 = none := by
  refine ⟨by decide, ?_, by decide⟩
  intro h
  exact absurd (h.last_byte (by decide)).1 (by decide)

end IPv6Address

end Skt
