import Skt.ByteArray.Codec
import Skt.Lib.Word

/-!
# `IPv4Address`

`broadcastAddress`, `networkAddress` and `subnetMask`, and the port. An address is kept in
network byte order, and the first three get their mask from `CreateMask`, which shifts an
`int`: a shift by 31 or 32 places is undefined, and `undef` is what the compiled code makes
of it.
-/

namespace Skt

open Lib

/-- `CreateMask` for a `w`-bit type. -/
def createMask (w : ℕ) (undef : ℕ → BitVec w) (bits : ℕ) : BitVec w :=
  if bits ≤ w ∧ w - bits < 31 then lowMask w (w - bits) else undef bits

/-- `byteswapOnLittleEndian` of a `uint32_t`. -/
def byteswapOnLittleEndian : Endian → BitVec 32 → BitVec 32
  | .little, v => bswap32 v
  | .big, v => v

/-- `byteswapOnLittleEndian` of a `uint16_t`. -/
def swap16 : Endian → ℕ → ℕ
  | .little, x => 256 * (x % 256) + x / 256
  | .big, x => x

/-- `sockaddr_in`, as it is stored. -/
structure SockaddrIn where
  family : UInt16
  port : UInt16
  addr : BitVec 32
  deriving DecidableEq, Repr

namespace IPv4Address

section

variable (host : Endian) (undef : ℕ → BitVec 32)

def broadcastAddress (a : SockaddrIn) (p : ℕ) : Option SockaddrIn :=
  if 32 < p then none
  else some { a with addr := a.addr ||| byteswapOnLittleEndian host (createMask 32 undef p) }

def networkAddress (a : SockaddrIn) (p : ℕ) : Option SockaddrIn :=
  if 32 < p then none
  else some { a with addr := a.addr &&& byteswapOnLittleEndian host (createMask 32 undef p) }

/-- `AF_INET` is 2. -/
def subnetMask (p : ℕ) : SockaddrIn where
  family := 2
  port := 0
  addr := ~~~byteswapOnLittleEndian host (createMask 32 undef p)

def getPort (a : SockaddrIn) : ℕ := swap16 host a.port.toNat

def setPort (a : SockaddrIn) (v : UInt16) : SockaddrIn :=
  { a with port := UInt16.ofNat (swap16 host v.toNat) }

/-- The address in host order. -/
def value (a : SockaddrIn) : BitVec 32 := byteswapOnLittleEndian host a.addr

end

variable {host : Endian} {undef : ℕ → BitVec 32}

/-! ## Byte order -/

theorem byteswap_and (v u : BitVec 32) : byteswapOnLittleEndian host (v &&& u) =
    byteswapOnLittleEndian host v &&& byteswapOnLittleEndian host u := by
  cases host
  · exact bswap32_and v u
  · rfl

theorem byteswap_not (v : BitVec 32) :
    byteswapOnLittleEndian host (~~~v) = ~~~byteswapOnLittleEndian host v := by
  cases host
  · exact bswap32_not v
  · rfl

theorem byteswap_byteswap (v : BitVec 32) :
    byteswapOnLittleEndian host (byteswapOnLittleEndian host v) = v := by
  cases host
  · exact bswap32_bswap32 v
  · rfl

theorem getPort_setPort (host : Endian) (a : SockaddrIn) (v : UInt16) :
    getPort host (setPort host a v) = v.toNat := by
  have hv := v.toNat_lt
  cases host with
  | big => simp [getPort, setPort, swap16]
  | little =>
      have hsmall : 256 * (v.toNat % 256) + v.toNat / 256 < 2 ^ 16 := by omega
      simp only [getPort, setPort, swap16, UInt16.toNat_ofNat', Nat.mod_eq_of_lt hsmall]
      omega

theorem value_subnetMask (p : ℕ) :
    value host (subnetMask host undef p) = ~~~createMask 32 undef p := by
  rw [value, subnetMask, byteswap_not, byteswap_byteswap]

/-! ## Subnets -/

/-- What the three functions are for, in host order. -/
structure IsSubnet (host : Endian) (undef : ℕ → BitVec 32) (a : SockaddrIn) (p : ℕ) : Prop where
  mask : ∀ i < 32, (value host (subnetMask host undef p)).getMsbD i = decide (i < p)
  network : ∃ b, networkAddress host undef a p = some b ∧
    value host b = value host a &&& value host (subnetMask host undef p) ∧
    value host b ≤ value host a ∧ networkAddress host undef b p = some b ∧
    b.family = a.family ∧ b.port = a.port
  broadcast : ∃ b, broadcastAddress host undef a p = some b ∧
    value host b = value host a ||| ~~~value host (subnetMask host undef p) ∧
    value host a ≤ value host b ∧ broadcastAddress host undef b p = some b ∧
    b.family = a.family ∧ b.port = a.port

/-- The mask is right when `CreateMask` is. -/
theorem mask_iff {p : ℕ} (hp : p ≤ 32) :
    (∀ i < 32, (value host (subnetMask host undef p)).getMsbD i = decide (i < p)) ↔
      createMask 32 undef p = lowMask 32 (32 - p) := by
  rw [value_subnetMask]
  constructor
  · intro h
    apply BitVec.eq_of_getLsbD_eq
    intro i hi
    have hbit := h (31 - i) (by omega)
    rw [BitVec.getMsbD_eq_getLsbD, BitVec.getLsbD_not, decide_eq_true (by omega),
      decide_eq_true (by omega), Bool.true_and, Bool.true_and,
      show 32 - 1 - (31 - i) = i by omega] at hbit
    rw [getLsbD_lowMask, decide_eq_true hi, Bool.true_and,
      ← Bool.not_not ((createMask 32 undef p).getLsbD i), hbit, ← decide_not]
    exact decide_eq_decide.mpr (by omega)
  · intro h i hi
    rw [h, BitVec.getMsbD_eq_getLsbD, BitVec.getLsbD_not, getLsbD_lowMask,
      decide_eq_true hi, decide_eq_true (show 32 - 1 - i < 32 by omega), Bool.true_and,
      Bool.true_and, Bool.true_and, ← decide_not]
    exact decide_eq_decide.mpr (by omega)

theorem createMask_eq_iff {p : ℕ} (hp : p ≤ 32) :
    createMask 32 undef p = lowMask 32 (32 - p) ↔ (p < 2 → undef p = lowMask 32 (32 - p)) := by
  unfold createMask
  split_ifs with h
  · exact iff_of_true rfl fun hlt => absurd h.2 (by omega)
  · exact ⟨fun heq _ => heq, fun himp => himp (by omega)⟩

/-- `networkAddress` keeps the low bits of the address, where it should clear them. -/
theorem value_networkAddress {a b : SockaddrIn} {p : ℕ}
    (h : networkAddress host undef a p = some b) :
    value host b = value host a &&& createMask 32 undef p := by
  unfold networkAddress at h
  split_ifs at h
  obtain rfl := Option.some.inj h
  rw [value, byteswap_and, byteswap_byteswap]
  rfl

theorem eq_zero_of_value {a : SockaddrIn} (h : value host a = 0#32) : a.addr = 0#32 := by
  have hswap := congrArg (byteswapOnLittleEndian host) h
  rw [value, byteswap_byteswap] at hswap
  rw [hswap]
  cases host
  · decide
  · rfl

theorem value_of_eq_zero (host : Endian) {a : SockaddrIn} (h : a.addr = 0#32) :
    value host a = 0#32 := by
  rw [value, h]
  cases host
  · decide
  · rfl

theorem IsSubnet.eq_zero {a : SockaddrIn} {p : ℕ} (h : IsSubnet host undef a p) :
    a.addr = 0#32 := by
  obtain ⟨b, hb, hvalue, -⟩ := h.network
  rw [value_networkAddress hb, value_subnetMask] at hvalue
  exact eq_zero_of_value (eq_zero_of_and_eq hvalue)

/-- **Subnets of an IPv4 address.** `networkAddress` takes the host part of the address for
its network part, so the three functions agree for the address 0.0.0.0 only; and for the
prefix lengths 0 and 1 this is up to the compiler. -/
theorem isSubnet_iff (host : Endian) (undef : ℕ → BitVec 32) (a : SockaddrIn) {p : ℕ}
    (hp : p ≤ 32) :
    IsSubnet host undef a p ↔ a.addr = 0#32 ∧ (p < 2 → undef p = lowMask 32 (32 - p)) := by
  rw [← createMask_eq_iff hp, ← mask_iff hp]
  constructor
  · intro h
    exact ⟨h.eq_zero, h.mask⟩
  · rintro ⟨hzero, hmask⟩
    have hle : ¬32 < p := by omega
    have hvalue := value_of_eq_zero host hzero
    refine ⟨hmask, ⟨a, ?_, ?_, BitVec.le_refl _, ?_, rfl, rfl⟩,
      ⟨{ a with addr := byteswapOnLittleEndian host (createMask 32 undef p) }, ?_, ?_, ?_, ?_,
        rfl, rfl⟩⟩
    · rw [networkAddress, if_neg hle, hzero, BitVec.zero_and, ← hzero]
    · rw [hvalue, BitVec.zero_and]
    · rw [networkAddress, if_neg hle, hzero, BitVec.zero_and, ← hzero]
    · rw [broadcastAddress, if_neg hle, hzero, BitVec.zero_or]
    · rw [hvalue, BitVec.zero_or, value_subnetMask, BitVec.not_not]
      exact byteswap_byteswap _
    · rw [hvalue, BitVec.le_def]
      exact Nat.zero_le _
    · rw [broadcastAddress, if_neg hle, BitVec.or_self]

/-- 0.0.0.0 with the prefix length 24. -/
theorem isSubnet_iff_zero : IsSubnet .little (fun _ => 0) ⟨2, 80, 0⟩ 24 :=
  (isSubnet_iff .little (fun _ => 0) ⟨2, 80, 0⟩ (by decide)).mpr ⟨rfl, by decide⟩

/-- The network of 192.168.1.5 with the prefix length 24 is said to be 0.0.0.5; no shift
here is undefined. -/
theorem networkAddress_host_part : ∃ a b, value .little a = 0xc0a80105#32 ∧
    networkAddress .little (fun _ => 0#32) a 24 = some b ∧ value .little b = 0x00000005#32 ∧
    value .little (subnetMask .little (fun _ => 0#32) 24) = 0xffffff00#32 ∧
    ¬IsSubnet .little (fun _ => 0#32) a 24 := by
  refine ⟨⟨2, 80, 0x0501a8c0#32⟩, ⟨2, 80, 0x05000000#32⟩, by decide, ?_, by decide, ?_, ?_⟩
  · rw [networkAddress, createMask, if_neg (by decide), if_pos (by decide)]
    decide
  · rw [value_subnetMask, createMask, if_pos (by decide)]
    decide
  · intro h
    exact absurd h.eq_zero (by decide)

end IPv4Address

end Skt
