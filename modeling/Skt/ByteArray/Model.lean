import Skt.Lib.Double
import Skt.Lib.Overlay

/-!
# `ByteArray`: a byte buffer over a chain of fixed-size nodes

`skt/bytearray/bytearray.cpp`. The chain that starts at `m_root` is a list of
nodes in `next` order and `m_cur` is a place in it: `some i` is the `i`-th
node, `none` is the null pointer that `next` of the last node holds. The loops
of `write`, `read` and `getWriteBuffers` walk `next` from `m_cur`, so they
recurse on the part of the chain that starts there; running off its end is the
null dereference of the source.

Every operation returns its outcome and the array it leaves behind, so that an
exception does not hide the state in which it was thrown.
-/

namespace Skt

open Lib

/-! ## Memory -/

/-- What `operator new` does for the nodes of one array. `grant n` is its
answer to the request that takes the array's storage to `n` bytes: the
(uninitialised) bytes it hands out, or `none` for `std::bad_alloc`. A process
has at most 47 bits of address space. -/
structure Allocator where
  grant : ℕ → Option (ℕ → UInt8)
  bounded : ∀ n, (grant n).isSome → n ≤ 2 ^ 47

inductive Fault where
  | outOfRange   -- `std::out_of_range`
  | badAlloc     -- `std::bad_alloc`
  | nullDeref    -- `m_cur->size` with a null `m_cur`
deriving DecidableEq

/-- Subtraction of `size_t`. -/
def sizeSub (a b : ℕ) : ℕ := (a + 2 ^ 64 - b) % 2 ^ 64

theorem sizeSub_of_le {a b : ℕ} (h : b ≤ a) (ha : a < 2 ^ 64) :
    sizeSub a b = a - b := by
  unfold sizeSub
  omega

/-! ## The data -/

/-- `ByteArray::Node`; `next` is the following element of the chain. -/
structure Node where
  ptr : List UInt8
deriving DecidableEq

namespace Node

def size (nd : Node) : ℕ := nd.ptr.length

/-- `Node(size_t s)` over the bytes the allocator hands out. -/
def new (s : ℕ) (junk : ℕ → UInt8) : Node := ⟨(List.range s).map junk⟩

/-- `memcpy(ptr + npos, d, d.size())`. -/
def store (nd : Node) (npos : ℕ) (d : List UInt8) : Node :=
  ⟨overlay nd.ptr npos d⟩

end Node

structure ByteArray where
  baseSize : ℕ
  capacity : ℕ
  position : ℕ
  size : ℕ
  nodes : List Node
  cur : Option ℕ
deriving DecidableEq

namespace ByteArray

/-- `ByteArray(size_t base_size)`. -/
def new (mem : Allocator) (base_size : ℕ) : Except Fault ByteArray :=
  match mem.grant base_size with
  | none => .error .badAlloc
  | some junk =>
      .ok { baseSize := base_size, capacity := base_size, position := 0,
            size := 0, nodes := [Node.new base_size junk], cur := some 0 }

/-- The pointer to the `i`-th node, null past the end of the chain. -/
def nodeAt (a : ByteArray) (i : ℕ) : Option ℕ :=
  if i < a.nodes.length then some i else none

/-- The chain from `m_cur` on. -/
def fromCur (a : ByteArray) : List Node :=
  match a.cur with
  | none => []
  | some i => a.nodes.drop i

/-- The chain before `m_cur`. -/
def beforeCur (a : ByteArray) : List Node :=
  match a.cur with
  | none => a.nodes
  | some i => a.nodes.take i

def getReadSize (a : ByteArray) : ℕ := sizeSub a.size a.position

def getCapacity (a : ByteArray) : ℕ := sizeSub a.capacity a.position

/-! ## `addCapacity` -/

/-- The loop of `addCapacity`: append `count` nodes at the end of the chain. -/
def appendNodes (mem : Allocator) :
    ℕ → ByteArray → Except Fault Unit × ByteArray
  | 0, a => (.ok (), a)
  | count + 1, a =>
      match mem.grant (a.capacity + a.baseSize) with
      | none => (.error .badAlloc, a)
      | some junk =>
          appendNodes mem count
            { a with nodes := a.nodes ++ [Node.new a.baseSize junk],
                     capacity := a.capacity + a.baseSize }

def addCapacity (mem : Allocator) (a : ByteArray) (size : ℕ) :
    Except Fault Unit × ByteArray :=
  if size = 0 then (.ok (), a)
  else if size ≤ a.getCapacity then (.ok (), a)
  else
    let count := Double.ceilCount (size - a.getCapacity) a.baseSize
    match appendNodes mem count a with
    | (.error e, a') => (.error e, a')
    | (.ok (), a') =>
        -- the old capacity was used up, so `m_cur` was null: first new node
        if a.getCapacity = 0 then
          (.ok (), { a' with cur := a'.nodeAt a.nodes.length })
        else (.ok (), a')

/-! ## `write` and `read` -/

/-- The loop of `write` from node `m_cur` at offset `npos`: the rewritten
nodes and how many times `m_cur` moved to `next`. -/
def writeLoop : List Node → ℕ → List UInt8 → Option (List Node × ℕ)
  | [], _, _ => none
  | nd :: nds, npos, buf =>
      let ncap := nd.size - npos
      if buf.length ≤ ncap then
        some (nd.store npos buf :: nds,
          if nd.size = npos + buf.length then 1 else 0)
      else
        match writeLoop nds 0 (buf.drop ncap) with
        | none => none
        | some (nds', moved) =>
            some (nd.store npos (buf.take ncap) :: nds', moved + 1)

def write (mem : Allocator) (a : ByteArray) (buf : List UInt8) :
    Except Fault Unit × ByteArray :=
  if buf.length = 0 then (.ok (), a)
  else
    match addCapacity mem a buf.length with
    | (.error e, a') => (.error e, a')
    | (.ok (), a') =>
        match writeLoop a'.fromCur (a'.position % a'.baseSize) buf with
        | none => (.error .nullDeref, a')
        | some (nds, moved) =>
            let position := a'.position + buf.length
            (.ok (),
              { a' with nodes := a'.beforeCur ++ nds,
                        cur := a'.nodeAt (a'.beforeCur.length + moved),
                        position := position,
                        size := if a'.size < position then position
                                else a'.size })

/-- The loop of both `read`s: the bytes copied out and how many times the
node pointer moved to `next`. -/
def readLoop : List Node → ℕ → ℕ → Option (List UInt8 × ℕ)
  | [], _, _ => none
  | nd :: nds, npos, size =>
      let ncap := nd.size - npos
      if size ≤ ncap then
        some (slice nd.ptr npos size,
          if nd.size = npos + size then 1 else 0)
      else
        match readLoop nds 0 (size - ncap) with
        | none => none
        | some (bytes, moved) =>
            some (slice nd.ptr npos ncap ++ bytes, moved + 1)

/-- `read(void* buf, size_t size)`. -/
def read (a : ByteArray) (size : ℕ) : Except Fault (List UInt8) × ByteArray :=
  if a.getReadSize < size then (.error .outOfRange, a)
  else
    match readLoop a.fromCur (a.position % a.baseSize) size with
    | none => (.error .nullDeref, a)
    | some (bytes, moved) =>
        (.ok bytes,
          { a with cur := a.nodeAt (a.beforeCur.length + moved),
                   position := a.position + size })

/-- `read(void* buf, size_t size, size_t position) const`.
It starts at `m_cur` whatever `position` is. -/
def readAt (a : ByteArray) (size position : ℕ) : Except Fault (List UInt8) :=
  if sizeSub a.size position < size then .error .outOfRange
  else
    match readLoop a.fromCur (position % a.baseSize) size with
    | none => .error .nullDeref
    | some (bytes, _) => .ok bytes

def toString (a : ByteArray) : Except Fault (List UInt8) :=
  if a.getReadSize = 0 then .ok []
  else a.readAt a.getReadSize a.position

/-! ## `setPosition`, `getWriteBuffers`, `clear` -/

/-- The walk of `setPosition`: from node `i`, the node that holds offset
`v`, the following one when `v` is exactly a node's end. -/
def seek : List Node → ℕ → ℕ → Option ℕ
  | [], _, _ => none
  | nd :: nds, i, v =>
      if nd.size < v then seek nds (i + 1) (v - nd.size)
      else if v = nd.size then some (i + 1)
      else some i

def setPosition (a : ByteArray) (v : ℕ) : Except Fault Unit × ByteArray :=
  if a.capacity < v then (.error .outOfRange, a)
  else
    let a' := { a with position := v,
                       size := if a.size < v then v else a.size }
    match seek a.nodes 0 v with
    | none => (.error .nullDeref, a')
    | some i => (.ok (), { a' with cur := a.nodeAt i })

/-- An `iovec` into the chain: node, offset in it, length. -/
structure Iovec where
  node : ℕ
  offset : ℕ
  len : ℕ
deriving DecidableEq

def buffersLoop : List Node → ℕ → ℕ → ℕ → Option (List Iovec)
  | [], _, _, _ => none
  | nd :: nds, i, npos, len =>
      let ncap := nd.size - npos
      if len ≤ ncap then some [⟨i, npos, len⟩]
      else
        match buffersLoop nds (i + 1) 0 (len - ncap) with
        | none => none
        | some iovs => some (⟨i, npos, ncap⟩ :: iovs)

/-- `getWriteBuffers`: the buffers appended to `buffs` and the value
returned. -/
def getWriteBuffers (mem : Allocator) (a : ByteArray) (len : ℕ) :
    Except Fault (List Iovec × ℕ) × ByteArray :=
  if len = 0 then (.ok ([], 0), a)
  else
    match addCapacity mem a len with
    | (.error e, a') => (.error e, a')
    | (.ok (), a') =>
        match buffersLoop a'.fromCur a'.beforeCur.length
            (a'.position % a'.baseSize) len with
        | none => (.error .nullDeref, a')
        | some iovs => (.ok (iovs, len), a')

/-- The loop of `getReadBuffers`, which compares with all that was asked for. It moves on to
the next node, and looks at its size, also where nothing is left to do. -/
def readBuffersLoop (size : ℕ) : List Node → ℕ → ℕ → ℕ → Option (List Iovec)
  | [], _, _, _ => none
  | nd :: nds, i, npos, len =>
      if len = 0 then some []
      else
        let ncap := nd.size - npos
        if size ≤ ncap then some [⟨i, npos, len⟩]
        else
          match readBuffersLoop size nds (i + 1) 0 (sizeSub len ncap) with
          | none => none
          | some iovs => some (⟨i, npos, ncap⟩ :: iovs)

/-- `getReadBuffers(buffs, len)`: the buffers appended to `buffs` and the value returned. -/
def getReadBuffers (a : ByteArray) (len : ℕ) : Except Fault (List Iovec × ℕ) :=
  let len := if a.getReadSize < len then a.getReadSize else len
  if len = 0 then .ok ([], 0)
  else
    match readBuffersLoop len a.fromCur a.beforeCur.length (a.position % a.baseSize) len with
    | none => .error .nullDeref
    | some iovs => .ok (iovs, len)

/-- The bytes that a list of buffers points to. -/
def gather (a : ByteArray) (iovs : List Iovec) : List UInt8 :=
  iovs.flatMap fun iov =>
    match a.nodes[iov.node]? with
    | none => []
    | some nd => slice nd.ptr iov.offset iov.len

/-- `clear`: the first node stays, with its bytes. -/
def clear (a : ByteArray) : ByteArray :=
  { a with position := 0, size := 0, capacity := a.baseSize,
           nodes := a.nodes.take 1, cur := some 0 }

end ByteArray

end Skt
