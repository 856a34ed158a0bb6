import Skt.ByteArray.RoundTrip
import Skt.Stream.SocketStream

/-!
# A socket stream over a `ByteArray`

`read` and `write` of `SocketStream` with a `ByteArray`, and the loops of `Stream` around them.
-/

namespace Skt

namespace SocketStream

open Lib Lib.CString

/-- One `sendmsg`: it takes at most `k` bytes, or returns `-1`. -/
inductive Send
  | took (k : ℕ)
  | failed
  deriving DecidableEq, Repr

/-- What the peer has sent and is not received yet, what each `sendmsg` will do, and what has
gone out. -/
structure Socket where
  connected : Bool
  coming : List UInt8
  sends : List Send
  sent : List UInt8
  deriving DecidableEq, Repr

/-- `send(buffer, length)` over the bytes of the buffers. A peer that has no more sends in
it is gone. -/
def Socket.send (sock : Socket) (bytes : List UInt8) : ℤ × Socket :=
  match sock.sends with
  | [] => (-1, sock)
  | .failed :: sends => (-1, { sock with sends })
  | .took k :: sends =>
      let piece := bytes.take (min k maxRw)
      (piece.length, { sock with sends, sent := sock.sent ++ piece })

/-- A call's result with what it leaves of the array and the socket. -/
structure Done (α : Type) where
  result : Except Fault α
  array : ByteArray
  sock : Socket

/-- `if(rt > 0) ba->setPosition(ba->getPosition() + rt)` -/
def advance (a : ByteArray) (rt : ℤ) (sock : Socket) : Done ℤ :=
  if 0 < rt then
    match a.setPosition (a.position + rt.toNat) with
    | (.error e, a') => ⟨.error e, a', sock⟩
    | (.ok (), a') => ⟨.ok rt, a', sock⟩
  else ⟨.ok rt, a, sock⟩

/-- From the buffers on, `read` and `write` are the same: both call `send`. -/
def sendBuffers (a : ByteArray) (sock : Socket) :
    Except Fault (List ByteArray.Iovec × ℕ) → Done ℤ
  | .error e => ⟨.error e, a, sock⟩
  | .ok (iovs, _) => advance a (sock.send (a.gather iovs)).1 (sock.send (a.gather iovs)).2

/-- `read(ba, length)` -/
def read (mem : Allocator) (length : ℕ) (a : ByteArray) (sock : Socket) : Done ℤ :=
  if !sock.connected then ⟨.ok (-1), a, sock⟩
  else sendBuffers (a.getWriteBuffers mem length).2 sock (a.getWriteBuffers mem length).1

/-- `write(ba, length)`. It asks for as many bytes as there are buffers so far, none. -/
def write (_length : ℕ) (a : ByteArray) (sock : Socket) : Done ℤ :=
  if !sock.connected then ⟨.ok (-1), a, sock⟩
  else sendBuffers a sock (a.getReadBuffers ([] : List ByteArray.Iovec).length)

/-- The loop of `readFixSize(ba, length)` and `writeFixSize(ba, length)`. Every round moves a
byte, so there are no more than `left` of them. -/
def fixSizeLoop (call : ℕ → ByteArray → Socket → Done ℤ) (length : ℕ) :
    ℕ → ℤ → ByteArray → Socket → Done ℤ
  | 0, _, a, sock => ⟨.ok (toInt32 length), a, sock⟩
  | rounds + 1, left, a, sock =>
      if left ≤ 0 then ⟨.ok (toInt32 length), a, sock⟩
      else
        let r := call left.toNat a sock
        match r.result with
        | .error e => ⟨.error e, r.array, r.sock⟩
        | .ok len =>
            if len ≤ 0 then ⟨.ok (toInt32 len), r.array, r.sock⟩
            else fixSizeLoop call length rounds (left - len) r.array r.sock

/-- The conversion of a `size_t` to `int64_t`. -/
def toInt64 (n : ℕ) : ℤ := (n : ℤ).bmod 18446744073709551616

/-- The same from its start: `int64_t left = length`. -/
def fixSize (call : ℕ → ByteArray → Socket → Done ℤ) (length : ℕ) (a : ByteArray)
    (sock : Socket) : Done ℤ :=
  fixSizeLoop call length (toInt64 length).toNat (toInt64 length) a sock

/-- `Stream::readFixSize(ba, length)` -/
def readFixSizeBytes (mem : Allocator) (length : ℕ) (a : ByteArray) (sock : Socket) : Done ℤ :=
  fixSize (read mem) length a sock

/-- `Stream::writeFixSize(ba, length)` -/
def writeFixSizeBytes (length : ℕ) (a : ByteArray) (sock : Socket) : Done ℤ :=
  fixSize write length a sock

/-! ## Reading -/

/-- The next `length` bytes that come in are taken in, as `write` would store them. -/
structure Receives (mem : Allocator) (length : ℕ) (a : ByteArray) (sock : Socket)
    (out : Done ℤ) : Prop where
  coming : out.sock.coming = sock.coming.drop length
  content : out.array.flat.content = (a.write mem (sock.coming.take length)).2.flat.content
  position : out.array.position = (a.write mem (sock.coming.take length)).2.position
  size : out.array.size = (a.write mem (sock.coming.take length)).2.size

theorem send_coming (sock : Socket) (bytes : List UInt8) :
    (sock.send bytes).2.coming = sock.coming := by
  unfold Socket.send
  split <;> rfl

theorem advance_sock (a : ByteArray) (rt : ℤ) (sock : Socket) :
    (advance a rt sock).sock = sock := by
  unfold advance
  split_ifs
  · split <;> rfl
  · rfl

theorem read_coming (mem : Allocator) (n : ℕ) (a : ByteArray) (sock : Socket) :
    (read mem n a sock).sock.coming = sock.coming := by
  unfold read
  split_ifs
  · rfl
  · generalize a.getWriteBuffers mem n = r
    obtain ⟨e | ⟨iovs, len⟩, a'⟩ := r
    · rfl
    · rw [sendBuffers, advance_sock, send_coming]

/-- What no call changes the loop does not change. -/
theorem fixSizeLoop_coming {call : ℕ → ByteArray → Socket → Done ℤ}
    (hcall : ∀ n a sock, (call n a sock).sock.coming = sock.coming) (length : ℕ) :
    ∀ (rounds : ℕ) (left : ℤ) (a : ByteArray) (sock : Socket),
      (fixSizeLoop call length rounds left a sock).sock.coming = sock.coming
  | 0, _, _, _ => rfl
  | rounds + 1, left, a, sock => by
      rw [fixSizeLoop]
      split_ifs
      · rfl
      · dsimp only
        split
        · exact hcall _ a sock
        · split_ifs
          · exact hcall _ a sock
          · rw [fixSizeLoop_coming hcall length rounds, hcall]

theorem fixSize_zero (call : ℕ → ByteArray → Socket → Done ℤ) (a : ByteArray)
    (sock : Socket) : fixSize call 0 a sock = ⟨.ok 0, a, sock⟩ := by
  have hleft : toInt64 0 = 0 := Int.zero_bmod
  have hint : toInt32 ((0 : ℕ) : ℤ) = 0 := Int.zero_bmod
  rw [fixSize, hleft, Int.toNat_zero, fixSizeLoop, hint]

/-- **Reading takes nothing in.** If the peer sends at least `length` bytes, they are taken
into the array only if there are none to take: for no positive `length` does the call receive
a byte. -/
theorem readFixSizeBytes_iff (mem : Allocator) (a : ByteArray) {sock : Socket} {length : ℕ}
    (hcoming : length ≤ sock.coming.length) :
    Receives mem length a sock (readFixSizeBytes mem length a sock) ↔ length = 0 := by
  constructor
  · intro h
    have hkept : (readFixSizeBytes mem length a sock).sock.coming = sock.coming := by
      rw [readFixSizeBytes, fixSize, fixSizeLoop_coming (read_coming mem)]
    have hlen := congrArg List.length (hkept.symm.trans h.coming)
    rw [List.length_drop] at hlen
    omega
  · rintro rfl
    have hout : readFixSizeBytes mem 0 a sock = ⟨.ok 0, a, sock⟩ := fixSize_zero _ a sock
    have hwrite : a.write mem (sock.coming.take 0) = (.ok (), a) := if_pos rfl
    rw [hout]
    refine ⟨rfl, ?_, ?_, ?_⟩ <;> rw [hwrite]

/-- A peer that sends two bytes and takes whatever it is offered. -/
def peer : Socket := ⟨true, [65, 66], [.took 1, .took 1], []⟩

theorem readFixSizeBytes_iff_peer :
    1 ≤ peer.coming.length ∧ ¬Receives ByteArray.wholeSpace 1 ByteArray.freshSample peer
      (readFixSizeBytes ByteArray.wholeSpace 1 ByteArray.freshSample peer) := by
  have hone : 1 ≤ peer.coming.length := by decide
  refine ⟨hone, fun h => ?_⟩
  exact absurd ((readFixSizeBytes_iff _ _ hone).mp h) one_ne_zero

/-- Both bytes are still to come, the array is one byte longer, and the peer has been sent
what was in the array's storage. -/
theorem readFixSizeBytes_sends :
    (readFixSizeBytes ByteArray.wholeSpace 1 ByteArray.freshSample peer).sock.coming = [65, 66] ∧
      (readFixSizeBytes ByteArray.wholeSpace 1 ByteArray.freshSample peer).sock.sent.length = 1 ∧
      (readFixSizeBytes ByteArray.wholeSpace 1 ByteArray.freshSample peer).array.size = 1 := by
  decide

/-! ## Writing -/

/-- The `length` bytes from the cursor on are sent, and the cursor is behind them. -/
structure Sends (length : ℕ) (a : ByteArray) (sock : Socket) (out : Done ℤ) : Prop where
  result : out.result = .ok (length : ℤ)
  sent : out.sock.sent = sock.sent ++ slice a.flat.content a.position length
  position : out.array.position = a.position + length

/-- Nothing is offered, so nothing is taken. -/
theorem send_nil_nonpos (sock : Socket) : (sock.send []).1 ≤ 0 := by
  unfold Socket.send
  split <;> simp

theorem getReadBuffers_zero (a : ByteArray) : a.getReadBuffers 0 = .ok ([], 0) := by
  have hlen : (if a.getReadSize < 0 then a.getReadSize else 0) = 0 := by
    generalize a.getReadSize = n
    exact if_neg (Nat.not_lt_zero n)
  unfold ByteArray.getReadBuffers
  simp only [hlen, if_true]

theorem write_stays (n : ℕ) (a : ByteArray) (sock : Socket) :
    (write n a sock).array = a ∧ ∃ rt, (write n a sock).result = .ok rt ∧ rt ≤ 0 := by
  have hgather : a.gather [] = [] := rfl
  unfold write
  split_ifs
  · exact ⟨rfl, -1, rfl, by decide⟩
  · rw [List.length_nil, getReadBuffers_zero, sendBuffers, hgather, advance,
      if_neg (not_lt.mpr (send_nil_nonpos sock))]
    exact ⟨rfl, _, rfl, send_nil_nonpos sock⟩

theorem writeFixSizeBytes_stays (length : ℕ) (a : ByteArray) (sock : Socket) :
    (writeFixSizeBytes length a sock).array = a := by
  unfold writeFixSizeBytes fixSize
  generalize toInt64 length = left
  generalize left.toNat = rounds
  cases rounds with
  | zero => rfl
  | succ rounds =>
      obtain ⟨harray, rt, hresult, hle⟩ := write_stays left.toNat a sock
      rw [fixSizeLoop]
      split_ifs
      · rfl
      · dsimp only
        rw [hresult]
        dsimp only
        rw [if_pos hle]
        exact harray

/-- **Writing sends nothing.** Whatever the array holds and the socket takes, the bytes are
sent and the cursor moved only if there are none to send. -/
theorem writeFixSizeBytes_iff (length : ℕ) (a : ByteArray) (sock : Socket) :
    Sends length a sock (writeFixSizeBytes length a sock) ↔ length = 0 := by
  constructor
  · intro h
    have hposition := h.position
    rw [writeFixSizeBytes_stays] at hposition
    omega
  · rintro rfl
    have hout : writeFixSizeBytes 0 a sock = ⟨.ok 0, a, sock⟩ := fixSize_zero _ a sock
    rw [hout]
    exact ⟨rfl, (List.append_nil _).symm, rfl⟩

/-- One byte is there to be sent; the call returns 0, and it has not been sent. -/
theorem writeFixSizeBytes_nothing :
    ((ByteArray.freshSample.write ByteArray.wholeSpace [9]).2.setPosition 0).2.getReadSize = 1 ∧
      (writeFixSizeBytes 1 ((ByteArray.freshSample.write ByteArray.wholeSpace [9]).2.setPosition
        0).2 peer).sock.sent = [] ∧
      (writeFixSizeBytes 1 ((ByteArray.freshSample.write ByteArray.wholeSpace [9]).2.setPosition
        0).2 peer).result.toOption = some 0 := by
  decide

end SocketStream

end Skt
