import Skt.ByteArray.Each

/-!
# Numbers written are read back

Every write of a number is a `write` of bytes that depend on the number and on
`m_endian` only, and the matching read takes exactly these bytes off what is
left to read. So what a sequence of writes stores is read back number by
number, wherever the ends of nodes fall.
-/

namespace Skt

open Lib

/-! ## Byte orders -/

namespace Endian

@[simp] theorem length_bytes (o : Endian) (k v : ℕ) : (o.bytes k v).length = k := by
  cases o
  · exact length_leBytes k v
  · exact length_beBytes k v

theorem value_bytes (o : Endian) (k v : ℕ) : o.value (o.bytes k v) = v % 256 ^ k := by
  cases o
  · exact ofLeBytes_leBytes k v
  · rw [bytes, value, reverse_beBytes, ofLeBytes_leBytes]

/-- A byte has only one order. -/
theorem bytes_one (o o' : Endian) (v : ℕ) : o.bytes 1 v = o'.bytes 1 v := by
  cases o <;> cases o' <;> simp [bytes, leBytes, beBytes]

end Endian

theorem leBytes_byteswap (k v : ℕ) : leBytes k (byteswap k v) = beBytes k v := by
  have hlen : (leBytes k v).reverse.length = k := by simp
  have h := leBytes_ofLeBytes (leBytes k v).reverse
  rw [hlen, reverse_leBytes] at h
  rw [byteswap, reverse_leBytes]
  exact h

/-- Swapped, a number has in the one order the bytes it had in the other. -/
theorem bytes_swap (host endian : Endian) (k v : ℕ) :
    host.bytes k (if endian ≠ host then byteswap k v else v) = endian.bytes k v := by
  have hbe : beBytes k (byteswap k v) = leBytes k v := by
    rw [← reverse_leBytes, leBytes_byteswap, reverse_beBytes]
  cases host <;> cases endian
  · rfl
  · exact leBytes_byteswap k v
  · exact hbe
  · rfl

/-- The bytes of one order taken for a number of the other, and swapped. -/
theorem swap_value (host endian : Endian) (k v : ℕ) :
    (if endian = host then host.value (endian.bytes k v)
      else byteswap k (host.value (endian.bytes k v))) = v % 256 ^ k := by
  have hswap : ∀ d : List UInt8, d.length = k →
      byteswap k (ofLeBytes d) = ofLeBytes d.reverse := by
    rintro d rfl
    rw [byteswap, leBytes_ofLeBytes]
  by_cases heq : endian = host
  · rw [if_pos heq, heq, Endian.value_bytes]
  · rw [if_neg heq]
    cases host <;> cases endian
    · exact absurd rfl heq
    · rw [Endian.value, Endian.bytes, hswap _ (length_beBytes k v), reverse_beBytes,
        ofLeBytes_leBytes]
    · rw [Endian.value, Endian.bytes, hswap _ (by simp), List.reverse_reverse,
        ofLeBytes_leBytes]
    · exact absurd rfl heq

namespace ByteArray

/-! ## Writing -/

/-- The bytes that a write of a number stores: in the order of `m_endian`, or
the groups of a varint. -/
def stored (endian : Endian) : Value → List UInt8
  | .Fint8 v => endian.bytes 1 v.toUInt8.toNat
  | .Fuint8 v => endian.bytes 1 v.toNat
  | .Fint16 v => endian.bytes 2 v.toUInt16.toNat
  | .Fuint16 v => endian.bytes 2 v.toNat
  | .Fint32 v => endian.bytes 4 v.toUInt32.toNat
  | .Fuint32 v => endian.bytes 4 v.toNat
  | .Fint64 v => endian.bytes 8 v.toUInt64.toNat
  | .Fuint64 v => endian.bytes 8 v.toNat
  | .Uint32 v => groups v.toNat
  | .Uint64 v => groups v.toNat

theorem varint_eq (v : ℕ) : varint v = groups v := by
  induction v using Nat.strongRecOn with
  | ind v ih =>
      rcases Nat.lt_or_ge v 128 with hv | hv
      · rw [groups_of_lt hv, varint, if_neg (Nat.not_le.mpr hv)]
      · have hlow : v &&& 0x7F = v % 128 := Nat.and_two_pow_sub_one_eq_mod v 7
        have hbits : v % 128 ||| 0x80 = v % 128 + 128 :=
          or_shiftLeft (i := 7) (Nat.mod_lt _ (by decide)) 1
        have hshift : v >>> 7 = v / 128 := Nat.shiftRight_eq_div_pow v 7
        rw [groups_of_le hv, varint, if_pos hv, hlow, hbits, hshift,
          ih (v / 128) (by omega)]

theorem writeValue_eq (host endian : Endian) (mem : Allocator) (a : ByteArray) (v : Value) :
    a.writeValue host endian mem v = a.write mem (stored endian v) := by
  cases v with
  | Fint8 v | Fuint8 v => exact congrArg (a.write mem) (Endian.bytes_one host endian _)
  | Uint32 v | Uint64 v => exact congrArg (a.write mem) (varint_eq _)
  | Fint16 v | Fuint16 v | Fint32 v | Fuint32 v | Fint64 v | Fuint64 v =>
      exact congrArg (a.write mem) (bytes_swap host endian _ _)

/-! ## Reading -/

theorem reads_readV (host : Endian) {d : List UInt8} (hd : 0 < d.length) :
    Reads (fun a => a.readV host d.length) d (host.value d) :=
  (reads_read hd).map host.value

theorem reads_readF (host endian : Endian) (k v : ℕ) (hk : 0 < k) :
    Reads (fun a => a.readF host endian k) (endian.bytes k v) (v % 256 ^ k) := by
  have hread := (reads_readV host (d := endian.bytes k v) (by simpa using hk)).map
    fun v => if endian = host then v else byteswap k v
  rw [Endian.length_bytes, swap_value] at hread
  exact hread

theorem reads_readFuint8 (host : Endian) (b : UInt8) :
    Reads (fun a => a.readFuint8 host) [b] b := by
  have hread := (reads_readV host (d := [b]) Nat.one_pos).map UInt8.ofNat
  have hvalue : UInt8.ofNat (host.value [b]) = b := by
    cases host <;> simp [Endian.value, ofLeBytes]
  rw [hvalue] at hread
  exact hread

theorem readVarint_cons {f : ByteArray → Except Fault UInt8 × ByteArray}
    {a a' : ByteArray} {b : UInt8} (hf : f a = (.ok b, a')) (w i result : ℕ)
    (is : List ℕ) :
    readVarint f w (i :: is) result a =
      if b.toNat < 128 then (.ok (result ||| (b.toNat <<< i) % 2 ^ w), a')
      else readVarint f w is (result ||| ((b.toNat % 128) <<< i) % 2 ^ w) a' := by
  rw [readVarint, hf, ← toNat_and_low]
  rfl

/-- A group that fits joins the bits below it. -/
theorem or_group {w i u g result : ℕ} (hg : g ≤ u) (hr : result < 2 ^ i)
    (hw : result + u * 2 ^ i < 2 ^ w) :
    result ||| (g <<< i) % 2 ^ w = result + g * 2 ^ i := by
  have hle : g * 2 ^ i ≤ u * 2 ^ i := Nat.mul_le_mul_right _ hg
  rw [Nat.mod_eq_of_lt (by rw [Nat.shiftLeft_eq]; omega), or_shiftLeft hr]

/-- The loop on the groups of `u`, with the bits below `i` in `result`. The
induction is on the number of rounds left. -/
theorem reads_readVarint {f : ByteArray → Except Fault UInt8 × ByteArray}
    (hread : ∀ b, Reads f [b] b) (w : ℕ) :
    ∀ (n i u result : ℕ), u < 128 ^ n → 0 < n → result < 2 ^ i →
      result + u * 2 ^ i < 2 ^ w →
      Reads (readVarint f w (List.range' i n 7) result) (groups u)
        (result + u * 2 ^ i)
  | 0, _, _, _, _, hn, _, _ => absurd hn (Nat.lt_irrefl 0)
  | n + 1, i, u, result, hu, _, hr, hw => by
      intro a rest hpl hrest
      rw [List.range'_succ]
      rcases Nat.lt_or_ge u 128 with hlast | hmore
      · have hnat : (UInt8.ofNat u).toNat = u := by
          rw [UInt8.toNat_ofNat']
          omega
        rw [groups_of_lt hlast] at hrest
        obtain ⟨a', hf, hpl', hrest'⟩ := hread _ a rest hpl hrest
        refine ⟨a', ?_, hpl', hrest'⟩
        rw [readVarint_cons hf, hnat, if_pos hlast, or_group (Nat.le_refl u) hr hw]
      · have hnat : (UInt8.ofNat (u % 128 + 128)).toNat = u % 128 + 128 := by
          rw [UInt8.toNat_ofNat']
          omega
        have hlow : (u % 128 + 128) % 128 = u % 128 := by omega
        have hn : 0 < n := by
          rcases Nat.eq_zero_or_pos n with rfl | hn
          · rw [pow_one] at hu
            omega
          · exact hn
        have hdiv : u / 128 < 128 ^ n := by
          rw [Nat.div_lt_iff_lt_mul (by decide), ← pow_succ]
          exact hu
        have hpow : (2 : ℕ) ^ (i + 7) = 128 * 2 ^ i := by
          rw [pow_add, Nat.mul_comm]
          rfl
        -- the group and what is left of `u` make up `u`
        have hsplit : result + u % 128 * 2 ^ i + u / 128 * 2 ^ (i + 7) =
            result + u * 2 ^ i := by
          rw [hpow]
          conv_rhs => rw [← Nat.mod_add_div u 128]
          ring
        have hbits : result + u % 128 * 2 ^ i < 2 ^ (i + 7) := by
          have hle : u % 128 * 2 ^ i ≤ 127 * 2 ^ i := Nat.mul_le_mul_right _ (by omega)
          omega
        rw [groups_of_le hmore, List.cons_append] at hrest
        obtain ⟨a', hf, hpl', hrest'⟩ := hread _ a _ hpl hrest
        obtain ⟨a'', hf', hdone⟩ := reads_readVarint hread w n (i + 7) (u / 128) _ hdiv hn
          hbits (by rw [hsplit]; exact hw) a' rest hpl' hrest'
        refine ⟨a'', ?_, hdone⟩
        rw [readVarint_cons hf, hnat, if_neg (by omega), hlow,
          or_group (Nat.mod_le u 128) hr hw, hf', hsplit]

/-- A fixed-width number comes back through the conversion `g` of its type. -/
theorem reads_fixed {α : Type} (host endian : Endian) {k v : ℕ} (hk : 0 < k)
    (hv : v < 256 ^ k) (g : ℕ → α) {x : α} (hg : g v = x) :
    Reads (fun a => Prod.map (Except.map g) id (a.readF host endian k))
      (endian.bytes k v) x := by
  have hread := (reads_readF host endian k v hk).map g
  rw [Nat.mod_eq_of_lt hv, hg] at hread
  exact hread

theorem reads_byte {α : Type} (host endian : Endian) {v : ℕ} (hv : v < 256) (g : ℕ → α)
    {x : α} (hg : g v = x) :
    Reads (fun a => Prod.map (Except.map g) id (a.readV host 1)) (endian.bytes 1 v) x := by
  have hread := (reads_readV host (d := host.bytes 1 v) (by simp)).map g
  rw [Endian.length_bytes, Endian.value_bytes, pow_one, Nat.mod_eq_of_lt hv, hg,
    Endian.bytes_one host endian] at hread
  exact hread

theorem reads_varint {α : Type} (host : Endian) {w n v : ℕ} (hn : 0 < n) (hv : v < 128 ^ n)
    (hw : v < 2 ^ w) (g : ℕ → α) {x : α} (hg : g v = x) :
    Reads (fun a => Prod.map (Except.map g) id
        (readVarint (readFuint8 host) w (List.range' 0 n 7) 0 a)) (groups v) x := by
  have hread := (reads_readVarint (reads_readFuint8 host) w n 0 v 0 hv hn (by decide)
    (by rw [Nat.zero_add, pow_zero, Nat.mul_one]; exact hw)).map g
  rw [Nat.zero_add, pow_zero, Nat.mul_one, hg] at hread
  exact hread

/-- What the write of a number stores, the matching read takes for the number. -/
theorem reads_readValue (host endian : Endian) (v : Value) :
    Reads (fun a => a.readValue host endian v.kind) (stored endian v) v := by
  cases v with
  | Fint8 v =>
      exact (reads_byte host endian v.toUInt8.toNat_lt Int8.ofNat
        (Int8.toBitVec_inj.mp (by simp))).map Value.Fint8
  | Fuint8 v =>
      exact (reads_byte host endian v.toNat_lt UInt8.ofNat UInt8.ofNat_toNat).map
        Value.Fuint8
  | Fint16 v =>
      exact (reads_fixed host endian (by decide) v.toUInt16.toNat_lt Int16.ofNat
        (Int16.toBitVec_inj.mp (by simp))).map Value.Fint16
  | Fuint16 v =>
      exact (reads_fixed host endian (by decide) v.toNat_lt UInt16.ofNat
        UInt16.ofNat_toNat).map Value.Fuint16
  | Fint32 v =>
      exact (reads_fixed host endian (by decide) v.toUInt32.toNat_lt Int32.ofNat
        (Int32.toBitVec_inj.mp (by simp))).map Value.Fint32
  | Fuint32 v =>
      exact (reads_fixed host endian (by decide) v.toNat_lt UInt32.ofNat
        UInt32.ofNat_toNat).map Value.Fuint32
  | Fint64 v =>
      exact (reads_fixed host endian (by decide) v.toUInt64.toNat_lt Int64.ofNat
        (Int64.toBitVec_inj.mp (by simp))).map Value.Fint64
  | Fuint64 v =>
      exact (reads_fixed host endian (by decide) v.toNat_lt UInt64.ofNat
        UInt64.ofNat_toNat).map Value.Fuint64
  | Uint32 v =>
      exact (reads_varint host (n := 5) (by decide) (lt_trans v.toNat_lt (by decide))
        v.toNat_lt UInt32.ofNat UInt32.ofNat_toNat).map Value.Uint32
  | Uint64 v =>
      exact (reads_varint host (n := 10) (by decide) (lt_trans v.toNat_lt (by decide))
        v.toNat_lt UInt64.ofNat UInt64.ofNat_toNat).map Value.Uint64

/-! ## The round trip -/

/-- **What is written is read back.** For every base size and byte order, any
sequence of numbers is written to a fresh array unless the allocator refuses.
It is then there byte for byte, each number in the order of `m_endian` or as a
varint; and read from the start, by the matching calls, the same numbers come
back and nothing is left. -/
theorem values_roundTrip {base : ℕ} (hb : 1 ≤ base) {mem : Allocator} {a : ByteArray}
    (hnew : ByteArray.new mem base = .ok a) (host endian : Endian)
    (vs : List (Allocator × Value)) :
    ((a.writeValues host endian vs).1 = .error .badAlloc ∧
      RefusedIn (stored endian) base 0 vs) ∨
    ∃ b c d, a.writeValues host endian vs = (.ok (), b) ∧
      b.setPosition 0 = (.ok (), c) ∧
      c.toString = .ok (vs.flatMap fun w => stored endian w.2) ∧
      c.readValues host endian (vs.map fun w => w.2.kind) = (.ok (vs.map Prod.snd), d) ∧
      d.getReadSize = 0 := by
  have hstores : Stores (writeValue host endian) (stored endian) :=
    stores_of_write (writeValue_eq host endian)
  rcases hstores.fresh hb hnew vs with hbad | ⟨b, c, hwrite, hset, -, hc, hleft⟩
  · exact Or.inl hbad
  · have hreads := reads_all (reads_readValue host endian) (vs.map Prod.snd) c []
    rw [List.map_map, List.flatMap_map, List.append_nil, List.map_id'] at hreads
    obtain ⟨d, hread, hd, hnone⟩ := hreads hc hleft
    refine Or.inr ⟨b, c, d, hwrite, hset, ?_, ?_, (toString_nil_iff hd).mp hnone⟩
    · rw [toString_spec hc, hleft]
    · rw [readValues, List.map_map]
      exact hread

theorem values_roundTrip_sample :
    ByteArray.new wholeSpace 2 = .ok freshSample ∧
    ∃ b c d, freshSample.writeValues .little .big
        [(wholeSpace, .Fint16 (-2)), (wholeSpace, .Uint64 300), (wholeSpace, .Fuint8 7)] =
          (.ok (), b) ∧
      b.setPosition 0 = (.ok (), c) ∧
      c.toString = .ok [0xFF, 0xFE, 0xAC, 0x02, 7] ∧
      c.readValues .little .big [.Fint16, .Uint64, .Fuint8] =
        (.ok [.Fint16 (-2), .Uint64 300, .Fuint8 7], d) ∧
      d.getReadSize = 0 := by
  refine ⟨new_freshSample, ?_⟩
  rcases values_roundTrip (by decide) new_freshSample .little .big
    [(wholeSpace, .Fint16 (-2)), (wholeSpace, .Uint64 300), (wholeSpace, .Fuint8 7)] with
    ⟨hbad, -⟩ | ⟨b, c, d, hwrite, hset, hbytes, hread, hnone⟩
  · refine absurd hbad ?_
    decide +kernel
  · refine ⟨b, c, d, hwrite, hset, hbytes.trans ?_, hread, hnone⟩
    decide +kernel

end ByteArray

end Skt
