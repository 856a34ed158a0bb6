import Skt.ByteArray.RoundTrip

/-!
# Varints

What `readUint32` and `readUint64` make of any bytes, and the signed numbers on top of
them, whose sign is to be folded into the lowest bit.
-/

namespace Skt

open Lib

namespace ByteArray

/-! ## Decoding -/

/-- The number of bytes a varint of at most `n` bytes takes from `d`: up to the first
byte without the top bit. -/
def groupCount (n : ℕ) (d : List UInt8) : ℕ := min n (d.findIdx (· < 0x80) + 1)

theorem groupCount_of_lt (n : ℕ) {b : UInt8} (hb : b < 0x80) (d : List UInt8) :
    groupCount (n + 1) (b :: d) = 1 := by
  rw [groupCount, List.findIdx_cons, decide_eq_true hb, cond_true]
  omega

theorem groupCount_of_not_lt (n : ℕ) {b : UInt8} (hb : ¬b < 0x80) (d : List UInt8) :
    groupCount (n + 1) (b :: d) = groupCount n d + 1 := by
  rw [groupCount, groupCount, List.findIdx_cons, decide_eq_false hb, cond_false]
  omega

theorem readFuint8_nil (host : Endian) {a : ByteArray} (h : Placed a)
    (hnil : a.flat.toString = []) : a.readFuint8 host = (.error .outOfRange, a) := by
  have hlen := Flat.toString_length (f := a.flat) h.position_le
    (by rw [h.length_cells]; exact h.size_le)
  rw [hnil, List.length_nil] at hlen
  have hread : a.read 1 = (.error .outOfRange, a) := by
    rw [ByteArray.read, h.getReadSize_eq]
    refine if_pos ?_
    have hlen : 0 = a.size - a.position := hlen
    omega
  rw [readFuint8, readV, hread]
  rfl

/-- A varint in front of what is left: how many bytes it takes, what it is worth, and
when there is too little. The bits below `i` are in `result`; the induction is on the
rounds that are left. -/
theorem readVarint_spec (host : Endian) (w : ℕ) : ∀ (n i result : ℕ) (a : ByteArray),
    Placed a → result < 2 ^ i → i + 7 * n ≤ w + 7 →
    (a.flat.toString.length < groupCount n a.flat.toString →
      ∃ a', readVarint (readFuint8 host) w (List.range' i n 7) result a =
        (.error .outOfRange, a')) ∧
    (groupCount n a.flat.toString ≤ a.flat.toString.length →
      ∃ r a', readVarint (readFuint8 host) w (List.range' i n 7) result a = (.ok r, a') ∧
        r % 2 ^ w = (result + ofGroups (a.flat.toString.take
          (groupCount n a.flat.toString)) * 2 ^ i) % 2 ^ w ∧
        Placed a' ∧
        a'.flat.toString = a.flat.toString.drop (groupCount n a.flat.toString))
  | 0, i, result, a, hpl, hresult, hw => by
      have hzero : groupCount 0 a.flat.toString = 0 := Nat.zero_min _
      rw [hzero]
      refine ⟨fun hlt => absurd hlt (Nat.not_lt_zero _), fun _ => ⟨result, a, rfl, ?_, hpl, rfl⟩⟩
      rw [List.take_zero, ofGroups, Nat.zero_mul, Nat.add_zero]
  | n + 1, i, result, a, hpl, hresult, hw => by
      have hi : i ≤ w := by omega
      rw [List.range'_succ]
      cases hd : a.flat.toString with
      | nil =>
          have hone : groupCount (n + 1) [] = 1 := by
            rw [groupCount, List.findIdx_nil]
            omega
          rw [hone]
          refine ⟨fun _ => ⟨a, ?_⟩, fun hle => absurd hle (by decide)⟩
          rw [readVarint, readFuint8_nil host hpl hd]
      | cons b rest =>
          obtain ⟨a', hread, hpl', hrest⟩ := reads_readFuint8 host b a rest hpl hd
          dsimp only at hread
          rw [readVarint_cons hread]
          by_cases hb : b < 0x80
          · have hlt : b.toNat < 128 := hb
            rw [groupCount_of_lt n hb, if_pos hlt, or_shiftLeft_mod hresult hi]
            refine ⟨fun h => ?_, fun _ => ⟨_, a', rfl, ?_, hpl', hrest⟩⟩
            · rw [List.length_cons] at h
              omega
            · rw [List.take_succ_cons, List.take_zero, ofGroups, ofGroups, Nat.mul_zero,
                Nat.add_zero, Nat.mod_eq_of_lt hlt, Nat.add_mod_mod]
          · have hge : ¬b.toNat < 128 := hb
            have hbits : result + b.toNat % 128 * 2 ^ i % 2 ^ w < 2 ^ (i + 7) := by
              have hle : b.toNat % 128 * 2 ^ i ≤ 127 * 2 ^ i :=
                Nat.mul_le_mul_right _ (by omega)
              have hmod := Nat.mod_le (b.toNat % 128 * 2 ^ i) (2 ^ w)
              have hpow : (2 : ℕ) ^ (i + 7) = 128 * 2 ^ i := by
                rw [pow_add, Nat.mul_comm]
                rfl
              omega
            rw [groupCount_of_not_lt n hb, if_neg hge, or_shiftLeft_mod hresult hi]
            obtain ⟨hshort, hlong⟩ := readVarint_spec host w n (i + 7) _ a' hpl' hbits (by omega)
            rw [hrest] at hshort hlong
            constructor
            · intro hlt
              rw [List.length_cons] at hlt
              exact hshort (by omega)
            · intro hle
              rw [List.length_cons] at hle
              obtain ⟨r, a'', hr, hvalue, hpl'', hleft⟩ := hlong (by omega)
              refine ⟨r, a'', hr, ?_, hpl'', hleft⟩
              rw [hvalue, List.take_succ_cons, ofGroups, Nat.add_right_comm, Nat.add_mod_mod,
                pow_add]
              congr 1
              ring

/-- What a varint of at most `n` bytes for a `w`-bit number is read as. -/
def Decodes (n w : ℕ) (d : List UInt8) (r : Except Fault ℕ × ByteArray) : Prop :=
  (r.1 = .error .outOfRange ↔ d.length < groupCount n d) ∧
  (groupCount n d ≤ d.length →
    r.1 = .ok (ofGroups (d.take (groupCount n d)) % 2 ^ w) ∧
    r.2.toString = .ok (d.drop (groupCount n d)))

theorem decodes_of_readVarint (host : Endian) {n w : ℕ} (hw : 7 * n ≤ w + 7) {α : Type}
    {f : ℕ → α} {g : α → ℕ} (hfg : ∀ r, g (f r) = r % 2 ^ w) {a : ByteArray} (h : Placed a) :
    Decodes n w a.flat.toString (Prod.map (Except.map g) id (Prod.map (Except.map f) id
      (readVarint (readFuint8 host) w (List.range' 0 n 7) 0 a))) := by
  obtain ⟨hshort, hlong⟩ := readVarint_spec host w n 0 0 a h (by decide) (by omega)
  rcases Nat.lt_or_ge a.flat.toString.length (groupCount n a.flat.toString) with hlt | hge
  · obtain ⟨a', hread⟩ := hshort hlt
    rw [hread]
    exact ⟨iff_of_true rfl hlt, fun hle => absurd hlt (Nat.not_lt.mpr hle)⟩
  · obtain ⟨r, a', hread, hvalue, hpl', hleft⟩ := hlong hge
    rw [hread]
    refine ⟨iff_of_false (fun h => by cases h) (Nat.not_lt.mpr hge), fun _ => ⟨?_, ?_⟩⟩
    · rw [Nat.zero_add, pow_zero, Nat.mul_one] at hvalue
      rw [← hvalue, ← hfg]
      rfl
    · exact (toString_spec hpl').trans (congrArg _ hleft)

/-- **Any bytes.** `readUint32` takes up to five bytes and `readUint64` up to ten, as many
as there are up to the first one below 0x80; the result is the number their groups make,
modulo 2^32 or 2^64, and there is an exception just if there are not that many. What
`writeUint32` and `writeUint64` store is stored again for the number that was read. -/
theorem readUint_exact {a : ByteArray} (h : Placed a) (host : Endian) :
    ∃ d, a.toString = .ok d ∧
      Decodes 5 32 d (Prod.map (Except.map UInt32.toNat) id (a.readUint32 host)) ∧
      Decodes 10 64 d (Prod.map (Except.map UInt64.toNat) id (a.readUint64 host)) ∧
      (∀ v rest, d = varint (UInt32.toNat v) ++ rest →
        ∃ v', (a.readUint32 host).1 = .ok v' ∧ varint v'.toNat = varint v.toNat) ∧
      ∀ v rest, d = varint (UInt64.toNat v) ++ rest →
        ∃ v', (a.readUint64 host).1 = .ok v' ∧ varint v'.toNat = varint v.toNat := by
  refine ⟨a.flat.toString, toString_spec h, ?_, ?_, ?_, ?_⟩
  · exact decodes_of_readVarint host (n := 5) (f := UInt32.ofNat) (g := UInt32.toNat)
      (by decide) (fun _ => UInt32.toNat_ofNat') h
  · exact decodes_of_readVarint host (n := 10) (f := UInt64.ofNat) (g := UInt64.toNat)
      (by decide) (fun _ => UInt64.toNat_ofNat') h
  · intro v rest hd
    rw [varint_eq] at hd
    obtain ⟨a', hread, -⟩ := reads_varint host (n := 5) (w := 32) (by decide)
      (lt_trans v.toNat_lt (by decide)) v.toNat_lt UInt32.ofNat UInt32.ofNat_toNat a rest h hd
    have hread : a.readUint32 host = (.ok v, a') := hread
    refine ⟨v, ?_, rfl⟩
    rw [hread]
  · intro v rest hd
    rw [varint_eq] at hd
    obtain ⟨a', hread, -⟩ := reads_varint host (n := 10) (w := 64) (by decide)
      (lt_trans v.toNat_lt (by decide)) v.toNat_lt UInt64.ofNat UInt64.ofNat_toNat a rest h hd
    have hread : a.readUint64 host = (.ok v, a') := hread
    refine ⟨v, ?_, rfl⟩
    rw [hread]

/-- Three bytes to be read, from nodes of two. -/
def varintSample : ByteArray where
  baseSize := 2
  capacity := 4
  position := 0
  size := 3
  nodes := [⟨[0xAC, 0x82]⟩, ⟨[7, 0]⟩]
  cur := some 0

theorem placed_varintSample : Placed varintSample where
  base_pos := by decide
  sized := by unfold Sized; decide
  nodes_pos := by decide
  nodes_capacity := by decide
  position_le := by decide
  size_le := by decide
  cur_eq := by decide
  bounded := by decide

/-- The third byte ends the number. -/
theorem readUint_exact_sample :
    (Prod.map (Except.map UInt32.toNat) id (varintSample.readUint32 .little)).1 =
      .ok (0x2C + 0x02 * 128 + 7 * 128 ^ 2) := by
  obtain ⟨d, hd, h32, -⟩ := readUint_exact placed_varintSample .little
  have hbytes : varintSample.toString = .ok [0xAC, 0x82, 7] := by decide
  rw [hbytes, Except.ok.injEq] at hd
  subst hd
  exact (h32.2 (by decide)).1.trans (by decide)

/-! ## Signed numbers -/

/-- The body of `EncodeZigzag32` and `EncodeZigzag64`; the parameter is unsigned. -/
def encodeZigzag {w : ℕ} (v : BitVec w) : BitVec w := if v < 0 then (-v) * 2 - 1 else v * 2

/-- The body of `DecodeZigzag32` and `DecodeZigzag64`. -/
def decodeZigzag {w : ℕ} (v : BitVec w) : BitVec w := (v >>> 1) ^^^ -(v &&& 1)

def encodeZigzag32 (v : UInt32) : UInt32 := .ofBitVec (encodeZigzag v.toBitVec)

def encodeZigzag64 (v : UInt64) : UInt64 := .ofBitVec (encodeZigzag v.toBitVec)

def decodeZigzag32 (v : UInt32) : UInt32 := .ofBitVec (decodeZigzag v.toBitVec)

def decodeZigzag64 (v : UInt64) : UInt64 := .ofBitVec (decodeZigzag v.toBitVec)

def writeInt32 (mem : Allocator) (a : ByteArray) (value : Int32) :
    Except Fault Unit × ByteArray :=
  a.writeUint32 mem (encodeZigzag32 value.toUInt32)

def writeInt64 (mem : Allocator) (a : ByteArray) (value : Int64) :
    Except Fault Unit × ByteArray :=
  a.writeUint64 mem (encodeZigzag64 value.toUInt64)

def readInt32 (host : Endian) (a : ByteArray) : Except Fault Int32 × ByteArray :=
  Prod.map (Except.map fun v => (decodeZigzag32 v).toInt32) id (a.readUint32 host)

def readInt64 (host : Endian) (a : ByteArray) : Except Fault Int64 × ByteArray :=
  Prod.map (Except.map fun v => (decodeZigzag64 v).toInt64) id (a.readUint64 host)

/-- The sign bit is shifted out, and nothing takes its place. -/
theorem decodeZigzag_encode {w : ℕ} (v : BitVec (w + 1)) :
    (decodeZigzag (encodeZigzag v)).toNat = v.toNat % 2 ^ w := by
  have hdouble : (v * 2).toNat = v.toNat % 2 ^ w * 2 := by
    rw [← Nat.mul_mod_mul_right, ← pow_succ]
    simp [BitVec.toNat_mul]
  have heven : v * 2 &&& 1 = 0 := by
    apply BitVec.eq_of_toNat_eq
    have hone : (1 : BitVec (w + 1)).toNat = 1 :=
      Nat.mod_eq_of_lt (Nat.one_lt_two_pow w.succ_ne_zero)
    rw [BitVec.toNat_and, hone, Nat.and_one_is_mod, hdouble, Nat.mul_mod_left]
    rfl
  have hpos : ¬v < 0 := BitVec.not_lt_zero
  rw [encodeZigzag, if_neg hpos, decodeZigzag, heven]
  have hsame : (v * 2) >>> 1 ^^^ -(0 : BitVec (w + 1)) = (v * 2) >>> 1 := by simp
  rw [hsame, BitVec.toNat_ushiftRight, hdouble, Nat.shiftRight_one,
    Nat.mul_div_cancel _ Nat.two_pos]

/-- A number comes back just if its sign bit is not set. -/
theorem zigzag_iff {w : ℕ} (v : BitVec (w + 1)) :
    decodeZigzag (encodeZigzag v) = v ↔ 0 ≤ v.toInt := by
  have hlt := v.isLt
  rw [← BitVec.toNat_inj, decodeZigzag_encode, Nat.mod_eq_iff_lt (Nat.two_pow_pos w).ne',
    BitVec.toInt_eq_toNat_cond]
  rw [pow_succ] at hlt ⊢
  split <;> omega

theorem stores_writeInt32 :
    Stores writeInt32 fun v => groups (encodeZigzag32 v.toUInt32).toNat :=
  stores_of_write fun _ a _ => congrArg (a.write _) (varint_eq _)

theorem stores_writeInt64 :
    Stores writeInt64 fun v => groups (encodeZigzag64 v.toUInt64).toNat :=
  stores_of_write fun _ a _ => congrArg (a.write _) (varint_eq _)

theorem reads_readInt32 (host : Endian) (v : Int32) :
    Reads (readInt32 host) (groups (encodeZigzag32 v.toUInt32).toNat)
      (decodeZigzag32 (encodeZigzag32 v.toUInt32)).toInt32 :=
  (reads_varint host (n := 5) (by decide) (lt_trans (UInt32.toNat_lt _) (by decide))
    (UInt32.toNat_lt _) UInt32.ofNat UInt32.ofNat_toNat).map _

theorem reads_readInt64 (host : Endian) (v : Int64) :
    Reads (readInt64 host) (groups (encodeZigzag64 v.toUInt64).toNat)
      (decodeZigzag64 (encodeZigzag64 v.toUInt64)).toInt64 :=
  (reads_varint host (n := 10) (by decide) (lt_trans (UInt64.toNat_lt _) (by decide))
    (UInt64.toNat_lt _) UInt64.ofNat UInt64.ofNat_toNat).map _

/-- A sequence whose elements are read as `dec` says comes back just if each of them is
what it is read as. -/
theorem readEach_iff {α : Type} {read : ByteArray → Except Fault α × ByteArray}
    {enc : α → List UInt8} {dec : α → α} (h : ∀ x, Reads read (enc x) (dec x))
    {c : ByteArray} (hc : Placed c) {xs : List (Allocator × α)}
    (hleft : c.flat.toString = xs.flatMap fun w => enc w.2) :
    (readEach read xs.length c).1 = .ok (xs.map Prod.snd) ↔ ∀ w ∈ xs, dec w.2 = w.2 := by
  have hreads := reads_each h (xs.map Prod.snd) c []
  rw [List.length_map, List.flatMap_map, List.append_nil, List.map_map] at hreads
  obtain ⟨d, hread, -⟩ := hreads hc hleft
  rw [hread, Except.ok.injEq, List.map_inj_left]
  exact Iff.rfl

/-- **Signed varints.** For every base size: a sequence of numbers written to a fresh array
with `writeInt32`, or with `writeInt64`, and read from the start comes back just if none
of them is negative. -/
theorem ints_roundTrip_iff {base : ℕ} (hb : 1 ≤ base) {mem : Allocator} {a : ByteArray}
    (hnew : ByteArray.new mem base = .ok a) (host : Endian) :
    (∀ vs : List (Allocator × Int32),
      ((writeEach writeInt32 a vs).1 = .error .badAlloc ∧
        RefusedIn (fun v => groups (encodeZigzag32 v.toUInt32).toNat) base 0 vs) ∨
      ∃ b c, writeEach writeInt32 a vs = (.ok (), b) ∧ b.setPosition 0 = (.ok (), c) ∧
        ((readEach (readInt32 host) vs.length c).1 = .ok (vs.map Prod.snd) ↔
          ∀ w ∈ vs, 0 ≤ w.2.toInt)) ∧
    ∀ vs : List (Allocator × Int64),
      ((writeEach writeInt64 a vs).1 = .error .badAlloc ∧
        RefusedIn (fun v => groups (encodeZigzag64 v.toUInt64).toNat) base 0 vs) ∨
      ∃ b c, writeEach writeInt64 a vs = (.ok (), b) ∧ b.setPosition 0 = (.ok (), c) ∧
        ((readEach (readInt64 host) vs.length c).1 = .ok (vs.map Prod.snd) ↔
          ∀ w ∈ vs, 0 ≤ w.2.toInt) := by
  constructor
  · intro vs
    rcases stores_writeInt32.fresh hb hnew vs with hbad | ⟨b, c, hwrite, hset, -, hc, hleft⟩
    · exact Or.inl hbad
    · refine Or.inr ⟨b, c, hwrite, hset, ?_⟩
      rw [readEach_iff (reads_readInt32 host) hc hleft]
      exact forall₂_congr fun w _ => Int32.toBitVec_inj.symm.trans (zigzag_iff _)
  · intro vs
    rcases stores_writeInt64.fresh hb hnew vs with hbad | ⟨b, c, hwrite, hset, -, hc, hleft⟩
    · exact Or.inl hbad
    · refine Or.inr ⟨b, c, hwrite, hset, ?_⟩
      rw [readEach_iff (reads_readInt64 host) hc hleft]
      exact forall₂_congr fun w _ => Int64.toBitVec_inj.symm.trans (zigzag_iff _)

/-- One byte, where the number is small. -/
theorem writeInt32_of_lt {v : Int32} (h : (encodeZigzag32 v.toUInt32).toNat < 128)
    (mem : Allocator) (a : ByteArray) :
    a.writeInt32 mem v = a.write mem [UInt8.ofNat (encodeZigzag32 v.toUInt32).toNat] := by
  rw [writeInt32, writeUint32, varint_eq, groups_of_lt h]

/-- A number that is not negative comes back. -/
theorem ints_roundTrip_iff_sample :
    ByteArray.new wholeSpace 2 = .ok freshSample ∧
    ∃ b c, writeEach writeInt32 freshSample [(wholeSpace, 60)] = (.ok (), b) ∧
      b.setPosition 0 = (.ok (), c) ∧ (readEach (readInt32 .little) 1 c).1 = .ok [60] := by
  refine ⟨new_freshSample, ?_⟩
  rcases (ints_roundTrip_iff (by decide) new_freshSample .little).1 [(wholeSpace, 60)] with
    ⟨hbad, -⟩ | ⟨b, c, hwrite, hset, hiff⟩
  · rw [writeEach, writeInt32_of_lt (by decide)] at hbad
    exact absurd hbad (by decide)
  · exact ⟨b, c, hwrite, hset, hiff.mpr (by decide)⟩

/-- -2147483648 comes back as 0. -/
theorem ints_negative :
    (readEach (readInt32 .little) 1
      ((writeEach writeInt32 freshSample [(wholeSpace, -2147483648)]).2.setPosition 0).2).1 =
        .ok [0] := by
  rw [writeEach, writeInt32_of_lt (by decide)]
  decide

end ByteArray

end Skt
