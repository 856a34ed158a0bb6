import Skt.ByteArray.Model
import Skt.Lib.Bytes

/-!
# Numbers in a `ByteArray`

The fixed-width `writeF…` and `readF…` and the unsigned varints of
`skt/bytearray/bytearray.cpp`. `host` is `SKT_BYTE_ORDER`, the byte order of
the machine, in which `memcpy` sees a number; `endian` is `m_endian`, which
only `setIsLittleEndian` changes.
-/

namespace Skt

open Lib

inductive Endian where
  | little   -- `SKT_LITTLE_ENDIAN`
  | big      -- `SKT_BIG_ENDIAN`
deriving DecidableEq

namespace Endian

/-- The bytes of a `k`-byte number in memory. -/
def bytes : Endian → ℕ → ℕ → List UInt8
  | .little, k, v => leBytes k v
  | .big, k, v => beBytes k v

/-- The number that bytes in memory are. -/
def value : Endian → List UInt8 → ℕ
  | .little, d => ofLeBytes d
  | .big, d => ofLeBytes d.reverse

end Endian

/-- `byteswap` of a `k`-byte number (`bswap_16`, `bswap_32`, `bswap_64`). -/
def byteswap (k v : ℕ) : ℕ := ofLeBytes (leBytes k v).reverse

namespace ByteArray

/-! ## Fixed width -/

section

variable (host endian : Endian)

/-- The body of `writeFint16` to `writeFuint64`, for a `k`-byte `value`. -/
def writeF (mem : Allocator) (a : ByteArray) (k value : ℕ) : Except Fault Unit × ByteArray :=
  a.write mem (host.bytes k (if endian ≠ host then byteswap k value else value))

def writeFint8 (mem : Allocator) (a : ByteArray) (value : Int8) :
    Except Fault Unit × ByteArray :=
  a.write mem (host.bytes 1 value.toUInt8.toNat)

def writeFuint8 (mem : Allocator) (a : ByteArray) (value : UInt8) :
    Except Fault Unit × ByteArray :=
  a.write mem (host.bytes 1 value.toNat)

def writeFint16 (mem : Allocator) (a : ByteArray) (value : Int16) :
    Except Fault Unit × ByteArray :=
  a.writeF host endian mem 2 value.toUInt16.toNat

def writeFuint16 (mem : Allocator) (a : ByteArray) (value : UInt16) :
    Except Fault Unit × ByteArray :=
  a.writeF host endian mem 2 value.toNat

def writeFint32 (mem : Allocator) (a : ByteArray) (value : Int32) :
    Except Fault Unit × ByteArray :=
  a.writeF host endian mem 4 value.toUInt32.toNat

def writeFuint32 (mem : Allocator) (a : ByteArray) (value : UInt32) :
    Except Fault Unit × ByteArray :=
  a.writeF host endian mem 4 value.toNat

def writeFint64 (mem : Allocator) (a : ByteArray) (value : Int64) :
    Except Fault Unit × ByteArray :=
  a.writeF host endian mem 8 value.toUInt64.toNat

def writeFuint64 (mem : Allocator) (a : ByteArray) (value : UInt64) :
    Except Fault Unit × ByteArray :=
  a.writeF host endian mem 8 value.toNat

/-- `read(&v, sizeof(v))` for a `k`-byte `v`. -/
def readV (a : ByteArray) (k : ℕ) : Except Fault ℕ × ByteArray :=
  Prod.map (Except.map host.value) id (a.read k)

/-- The body of `readFint16` to `readFuint64`. -/
def readF (a : ByteArray) (k : ℕ) : Except Fault ℕ × ByteArray :=
  Prod.map (Except.map fun v => if endian = host then v else byteswap k v) id
    (a.readV host k)

def readFint8 (a : ByteArray) : Except Fault Int8 × ByteArray :=
  Prod.map (Except.map Int8.ofNat) id (a.readV host 1)

def readFuint8 (a : ByteArray) : Except Fault UInt8 × ByteArray :=
  Prod.map (Except.map UInt8.ofNat) id (a.readV host 1)

def readFint16 (a : ByteArray) : Except Fault Int16 × ByteArray :=
  Prod.map (Except.map Int16.ofNat) id (a.readF host endian 2)

def readFuint16 (a : ByteArray) : Except Fault UInt16 × ByteArray :=
  Prod.map (Except.map UInt16.ofNat) id (a.readF host endian 2)

def readFint32 (a : ByteArray) : Except Fault Int32 × ByteArray :=
  Prod.map (Except.map Int32.ofNat) id (a.readF host endian 4)

def readFuint32 (a : ByteArray) : Except Fault UInt32 × ByteArray :=
  Prod.map (Except.map UInt32.ofNat) id (a.readF host endian 4)

def readFint64 (a : ByteArray) : Except Fault Int64 × ByteArray :=
  Prod.map (Except.map Int64.ofNat) id (a.readF host endian 8)

def readFuint64 (a : ByteArray) : Except Fault UInt64 × ByteArray :=
  Prod.map (Except.map UInt64.ofNat) id (a.readF host endian 8)

end

/-! ## Varints -/

/-- What the loop of `writeUint32` and `writeUint64` puts into `tmp`. -/
def varint (value : ℕ) : List UInt8 :=
  if 0x80 ≤ value then UInt8.ofNat (value &&& 0x7F ||| 0x80) :: varint (value >>> 7)
  else [UInt8.ofNat value]
termination_by value
decreasing_by
  rw [Nat.shiftRight_eq_div_pow]
  omega

def writeUint32 (mem : Allocator) (a : ByteArray) (value : UInt32) :
    Except Fault Unit × ByteArray :=
  a.write mem (varint value.toNat)

def writeUint64 (mem : Allocator) (a : ByteArray) (value : UInt64) :
    Except Fault Unit × ByteArray :=
  a.write mem (varint value.toNat)

/-- The loop of `readUint32` and `readUint64`, for a `w`-bit `result` and the
values that `i` has yet to take. -/
def readVarint (readFuint8 : ByteArray → Except Fault UInt8 × ByteArray) (w : ℕ) :
    List ℕ → ℕ → ByteArray → Except Fault ℕ × ByteArray
  | [], result, a => (.ok result, a)
  | i :: is, result, a =>
      match readFuint8 a with
      | (.error e, a') => (.error e, a')
      | (.ok b, a') =>
          if b < 0x80 then (.ok (result ||| (b.toNat <<< i) % 2 ^ w), a')
          else
            readVarint readFuint8 w is (result ||| ((b &&& 0x7f).toNat <<< i) % 2 ^ w) a'

def readUint32 (host : Endian) (a : ByteArray) : Except Fault UInt32 × ByteArray :=
  Prod.map (Except.map UInt32.ofNat) id
    (readVarint (readFuint8 host) 32 [0, 7, 14, 21, 28] 0 a)

def readUint64 (host : Endian) (a : ByteArray) : Except Fault UInt64 × ByteArray :=
  Prod.map (Except.map UInt64.ofNat) id
    (readVarint (readFuint8 host) 64 [0, 7, 14, 21, 28, 35, 42, 49, 56, 63] 0 a)

/-! ## Any of them -/

/-- A number and the pair of calls it is written and read with. -/
inductive Value where
  | Fint8 (v : Int8)
  | Fuint8 (v : UInt8)
  | Fint16 (v : Int16)
  | Fuint16 (v : UInt16)
  | Fint32 (v : Int32)
  | Fuint32 (v : UInt32)
  | Fint64 (v : Int64)
  | Fuint64 (v : UInt64)
  | Uint32 (v : UInt32)
  | Uint64 (v : UInt64)
deriving DecidableEq

inductive Kind where
  | Fint8 | Fuint8 | Fint16 | Fuint16 | Fint32 | Fuint32 | Fint64 | Fuint64
  | Uint32 | Uint64
deriving DecidableEq

def Value.kind : Value → Kind
  | .Fint8 _ => .Fint8
  | .Fuint8 _ => .Fuint8
  | .Fint16 _ => .Fint16
  | .Fuint16 _ => .Fuint16
  | .Fint32 _ => .Fint32
  | .Fuint32 _ => .Fuint32
  | .Fint64 _ => .Fint64
  | .Fuint64 _ => .Fuint64
  | .Uint32 _ => .Uint32
  | .Uint64 _ => .Uint64

def writeValue (host endian : Endian) (mem : Allocator) (a : ByteArray) :
    Value → Except Fault Unit × ByteArray
  | .Fint8 v => a.writeFint8 host mem v
  | .Fuint8 v => a.writeFuint8 host mem v
  | .Fint16 v => a.writeFint16 host endian mem v
  | .Fuint16 v => a.writeFuint16 host endian mem v
  | .Fint32 v => a.writeFint32 host endian mem v
  | .Fuint32 v => a.writeFuint32 host endian mem v
  | .Fint64 v => a.writeFint64 host endian mem v
  | .Fuint64 v => a.writeFuint64 host endian mem v
  | .Uint32 v => a.writeUint32 mem v
  | .Uint64 v => a.writeUint64 mem v

def readValue (host endian : Endian) (a : ByteArray) : Kind → Except Fault Value × ByteArray
  | .Fint8 => Prod.map (Except.map .Fint8) id (a.readFint8 host)
  | .Fuint8 => Prod.map (Except.map .Fuint8) id (a.readFuint8 host)
  | .Fint16 => Prod.map (Except.map .Fint16) id (a.readFint16 host endian)
  | .Fuint16 => Prod.map (Except.map .Fuint16) id (a.readFuint16 host endian)
  | .Fint32 => Prod.map (Except.map .Fint32) id (a.readFint32 host endian)
  | .Fuint32 => Prod.map (Except.map .Fuint32) id (a.readFuint32 host endian)
  | .Fint64 => Prod.map (Except.map .Fint64) id (a.readFint64 host endian)
  | .Fuint64 => Prod.map (Except.map .Fuint64) id (a.readFuint64 host endian)
  | .Uint32 => Prod.map (Except.map .Uint32) id (a.readUint32 host)
  | .Uint64 => Prod.map (Except.map .Uint64) id (a.readUint64 host)

/-! ## Sequences -/

section

variable {α : Type}

/-- One write after the other, each with what the allocator answers then, up to
the first exception. -/
def writeEach (write : Allocator → ByteArray → α → Except Fault Unit × ByteArray) :
    ByteArray → List (Allocator × α) → Except Fault Unit × ByteArray
  | a, [] => (.ok (), a)
  | a, (mem, x) :: xs =>
      match write mem a x with
      | (.error e, a') => (.error e, a')
      | (.ok (), a') => writeEach write a' xs

/-- One read after the other, up to the first exception. -/
def readAll : List (ByteArray → Except Fault α × ByteArray) → ByteArray →
    Except Fault (List α) × ByteArray
  | [], a => (.ok [], a)
  | read :: reads, a =>
      match read a with
      | (.error e, a') => (.error e, a')
      | (.ok x, a') => Prod.map (Except.map (x :: ·)) id (readAll reads a')

/-- The same read `n` times. -/
def readEach (read : ByteArray → Except Fault α × ByteArray) (n : ℕ) :
    ByteArray → Except Fault (List α) × ByteArray :=
  readAll (List.replicate n read)

end

def writeValues (host endian : Endian) :
    ByteArray → List (Allocator × Value) → Except Fault Unit × ByteArray :=
  writeEach (writeValue host endian)

def readValues (host endian : Endian) (a : ByteArray) (kinds : List Kind) :
    Except Fault (List Value) × ByteArray :=
  readAll (kinds.map fun k a => a.readValue host endian k) a

end ByteArray

end Skt
