import Skt.ByteArray.RoundTrip
import Skt.Lib.Groups

/-!
# Floating point numbers

`writeFloat` and `writeDouble` store the bits of a number as a varint, `readFloat` and
`readDouble` take them from four or eight bytes. A number here is its bits.
-/

namespace Skt

open Lib

namespace ByteArray

def writeFloat (mem : Allocator) (a : ByteArray) (value : UInt32) :
    Except Fault Unit × ByteArray :=
  a.writeUint32 mem value

def writeDouble (mem : Allocator) (a : ByteArray) (value : UInt64) :
    Except Fault Unit × ByteArray :=
  a.writeUint64 mem value

def readFloat (host endian : Endian) (a : ByteArray) : Except Fault UInt32 × ByteArray :=
  a.readFuint32 host endian

def readDouble (host endian : Endian) (a : ByteArray) : Except Fault UInt64 × ByteArray :=
  a.readFuint64 host endian

theorem stores_writeFloat : Stores writeFloat fun v => groups v.toNat :=
  stores_of_write fun _ a _ => congrArg (a.write _) (varint_eq _)

theorem stores_writeDouble : Stores writeDouble fun v => groups v.toNat :=
  stores_of_write fun _ a _ => congrArg (a.write _) (varint_eq _)

/-! ## What a read of fixed width takes -/

theorem bytes_value (o : Endian) (d : List UInt8) : o.bytes d.length (o.value d) = d := by
  cases o with
  | little => exact leBytes_ofLeBytes d
  | big =>
      have hle := leBytes_ofLeBytes d.reverse
      rw [List.length_reverse] at hle
      rw [Endian.bytes, Endian.value, ← reverse_leBytes, hle, List.reverse_reverse]

theorem value_lt (o : Endian) (d : List UInt8) : o.value d < 256 ^ d.length := by
  have h := Endian.value_bytes o d.length (o.value d)
  rw [bytes_value] at h
  rw [h]
  exact Nat.mod_lt _ (Nat.pow_pos (by decide))

theorem takes_readF (host endian : Endian) (k : ℕ) :
    Takes (fun a => a.readF host endian k) fun v d => v < 256 ^ k ∧ d = endian.bytes k v := by
  intro a a' v hpl hread
  have htakes := ((takes_read k).map host.value).map
    fun v => if endian = host then v else byteswap k v
  obtain ⟨hpl', d, hd, x, hx, y, hy, rfl, hlen⟩ := htakes a a' v hpl hread
  refine ⟨hpl', y, hd, ?_⟩
  have hswap := swap_value host endian k (endian.value y)
  have hbytes := bytes_value endian y
  rw [hlen] at hbytes
  have hlt := value_lt endian y
  rw [hlen] at hlt
  rw [hbytes, Nat.mod_eq_of_lt hlt] at hswap
  rw [hy] at hswap
  rw [← hx, hswap]
  exact ⟨hlt, hbytes.symm⟩

theorem takes_readFloat (host endian : Endian) :
    Takes (readFloat host endian) fun v d => d = endian.bytes 4 v.toNat := by
  intro a a' v hpl hread
  obtain ⟨hpl', d, hd, x, rfl, hlt, rfl⟩ :=
    (takes_readF host endian 4).map UInt32.ofNat a a' v hpl hread
  refine ⟨hpl', _, hd, ?_⟩
  dsimp only
  rw [UInt32.toNat_ofNat_of_lt' hlt]

theorem takes_readDouble (host endian : Endian) :
    Takes (readDouble host endian) fun v d => d = endian.bytes 8 v.toNat := by
  intro a a' v hpl hread
  obtain ⟨hpl', d, hd, x, rfl, hlt, rfl⟩ :=
    (takes_readF host endian 8).map UInt64.ofNat a a' v hpl hread
  refine ⟨hpl', _, hd, ?_⟩
  dsimp only
  rw [UInt64.toNat_ofNat_of_lt' hlt]

/-! ## The round trip -/

theorem outrun_bytes (o : Endian) {w : ℕ} (hw : 1 < w) : Outrun w (o.bytes w) := by
  cases o with
  | little => exact outrun_leBytes (by omega)
  | big => exact outrun_beBytes hw

theorem flatten_of_forall₂ {α : Type} {e : α → List UInt8} {xs : List α}
    {ds : List (List UInt8)} (h : List.Forall₂ (fun x d => d = e x) xs ds) :
    ds.flatten = xs.flatMap e := by
  induction h with
  | nil => rfl
  | cons hd _ ih => rw [List.flatten_cons, List.flatMap_cons, hd, ih]

/-- Numbers stored as groups and read with a fixed width come back, and nothing is left,
only if there are none. -/
theorem readEach_groups_iff {α : Type} {toNat : α → ℕ} (endian : Endian) {w : ℕ} (hw : 1 < w)
    (hlt : ∀ v, toNat v < 256 ^ w) {read : ByteArray → Except Fault α × ByteArray}
    (htakes : Takes read fun v d => d = endian.bytes w (toNat v)) {c : ByteArray}
    (hc : Placed c) {xs : List (Allocator × α)}
    (hleft : c.flat.toString = xs.flatMap fun x => groups (toNat x.2)) :
    (∃ d, readEach read xs.length c = (.ok (xs.map Prod.snd), d) ∧ d.getReadSize = 0) ↔
      xs = [] := by
  constructor
  · rintro ⟨d, hread, hnone⟩
    obtain ⟨hd, ds, hds, hall⟩ := htakes.each _ c d _ hc hread
    rw [(toString_nil_iff hd).mpr hnone, List.append_nil, flatten_of_forall₂ hall, hleft] at hds
    have hnil := (outrun_bytes endian hw).groups_stream hw
      (xs.map fun x => toNat x.2) ?_ ?_
    · exact List.map_eq_nil_iff.mp hnil
    · intro v hv
      obtain ⟨x, -, rfl⟩ := List.mem_map.mp hv
      exact hlt x.2
    · rw [List.flatMap_map, List.flatMap_map] at *
      exact hds
  · rintro rfl
    exact ⟨c, rfl, (toString_nil_iff hc).mp hleft⟩

/-- **Floating point numbers.** For every base size and byte order: a sequence of numbers
written with `writeFloat`, or with `writeDouble`, is read back bit by bit, with nothing
left over, just if it is empty. -/
theorem floats_roundTrip_iff {base : ℕ} (hb : 1 ≤ base) {mem : Allocator} {a : ByteArray}
    (hnew : ByteArray.new mem base = .ok a) (host endian : Endian) :
    (∀ vs : List (Allocator × UInt32),
      ((writeEach writeFloat a vs).1 = .error .badAlloc ∧
        RefusedIn (fun v => groups v.toNat) base 0 vs) ∨
      ∃ b c, writeEach writeFloat a vs = (.ok (), b) ∧ b.setPosition 0 = (.ok (), c) ∧
        ((∃ d, readEach (readFloat host endian) vs.length c = (.ok (vs.map Prod.snd), d) ∧
          d.getReadSize = 0) ↔ vs = [])) ∧
    ∀ vs : List (Allocator × UInt64),
      ((writeEach writeDouble a vs).1 = .error .badAlloc ∧
        RefusedIn (fun v => groups v.toNat) base 0 vs) ∨
      ∃ b c, writeEach writeDouble a vs = (.ok (), b) ∧ b.setPosition 0 = (.ok (), c) ∧
        ((∃ d, readEach (readDouble host endian) vs.length c = (.ok (vs.map Prod.snd), d) ∧
          d.getReadSize = 0) ↔ vs = []) := by
  constructor
  · intro vs
    rcases stores_writeFloat.fresh hb hnew vs with hbad | ⟨b, c, hwrite, hset, -, hc, hleft⟩
    · exact Or.inl hbad
    · exact Or.inr ⟨b, c, hwrite, hset, readEach_groups_iff endian (by decide)
        UInt32.toNat_lt (takes_readFloat host endian) hc hleft⟩
  · intro vs
    rcases stores_writeDouble.fresh hb hnew vs with hbad | ⟨b, c, hwrite, hset, -, hc, hleft⟩
    · exact Or.inl hbad
    · exact Or.inr ⟨b, c, hwrite, hset, readEach_groups_iff endian (by decide)
        UInt64.toNat_lt (takes_readDouble host endian) hc hleft⟩

/-- No number at all comes back as none. -/
theorem floats_roundTrip_iff_none :
    ByteArray.new wholeSpace 2 = .ok freshSample ∧
    ∃ b c d, writeEach writeFloat freshSample [] = (.ok (), b) ∧
      b.setPosition 0 = (.ok (), c) ∧
      readEach (readFloat .little .big) 0 c = (.ok [], d) ∧ d.getReadSize = 0 := by
  refine ⟨new_freshSample, ?_⟩
  rcases (floats_roundTrip_iff (by decide) new_freshSample .little .big).1 [] with
    ⟨-, hrefused⟩ | ⟨b, c, hwrite, hset, hiff⟩
  · cases hrefused
  · obtain ⟨d, hread, hnone⟩ := hiff.mpr rfl
    exact ⟨b, c, d, hwrite, hset, hread, hnone⟩

/-- The bits of 0.0 are stored as one byte, and four are asked for. -/
theorem floats_short :
    (readEach (readFloat .little .big) 1
      ((writeEach writeFloat freshSample [(wholeSpace, 0)]).2.setPosition 0).2).1 =
        .error .outOfRange := by
  have hwrite : writeFloat wholeSpace freshSample 0 = freshSample.write wholeSpace [0] := by
    rw [writeFloat, writeUint32, varint_eq, groups_of_lt (by decide)]
    rfl
  rw [writeEach, hwrite]
  decide

end ByteArray

end Skt
