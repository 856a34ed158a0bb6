import Skt.Http.ResponseParser
import Skt.Http.Receive

/-!
# `HttpConnection::recvResponse`

The header block is read as on the server's side. Behind it comes a body of the
announced length or, with `Transfer-Encoding: chunked`, a list of chunks; the
nested loops over these are one loop over the reads, with what the next read is
for as part of the state.
-/

namespace Skt

namespace Http

open Lib Lib.CString Lib.Ragel SocketStream

/-- The response parser as the receiving loops see it. -/
def responseOps : ParserOps HttpResponseParser ResponseState where
  excute := HttpResponseParser.excute false
  hasError := HttpResponseParser.hasError
  isFinished := HttpResponseParser.isFinished
  withState s state := { s with state }
  setBody body s := { s with state.data.body := body }

namespace HttpConnection

/-- The locals of the chunked branch: `data` are the `len` bytes in the buffer,
and `left` is `0` outside the loop that fetches the rest of a chunk. -/
structure ChunkState where
  parser : HttpResponseParser
  data : List UInt8
  body : List UInt8
  left : ℤ
  deriving DecidableEq, Repr

inductive ChunkStep
  | again (c : ChunkState)
  | over (received : Received HttpResponseParser)
  deriving DecidableEq, Repr

/-- How many bytes the next read asks for. -/
def ChunkState.asks (buffSize : ℕ) (c : ChunkState) : ℕ :=
  if 0 < c.left then
    -- `left > (int)buff_size ? (int)buff_size : left`, as a `size_t`
    (min c.left (toInt32 buffSize) % 18446744073709551616).toNat
  else buffSize - c.data.length

/-- `while(!client_parser.chunks_done)` -/
def ChunkState.next (c : ChunkState) : ChunkStep :=
  if c.parser.state.chunksDone then
    .over (.returned (responseOps.setBody c.body c.parser))
  else .again c

/-- A chunk header has been read, and `c.data` is what follows it. A negative
count is a huge `size_t`, and `append` throws. -/
def ChunkState.chunk (c : ChunkState) : ChunkStep :=
  let contentLen := c.parser.state.contentLen
  let len := (c.data.length : ℤ) - 2
  if contentLen ≤ len then
    if contentLen < 0 then .over (.thrown .lengthError c.parser)
    else
      ChunkState.next
        { c with data := (c.data.drop contentLen.toNat).take (len - contentLen).toNat
                 body := c.body ++ c.data.take contentLen.toNat }
  else if len < 0 then .over (.thrown .lengthError c.parser)
  else
    .again { c with data := [], body := c.body ++ c.data.take len.toNat
                    left := contentLen - len }

/-- What becomes of the bytes of one read. -/
def ChunkState.got (buffSize : ℕ) (c : ChunkState) (piece : List UInt8) :
    ChunkStep :=
  if 0 < c.left then
    let c' := { c with body := c.body ++ piece, left := c.left - piece.length }
    if 0 < c'.left then .again c'
    else ChunkState.next { c' with data := [], left := 0 }
  else
    match c.parser.excute true (c.data ++ piece) with
    | .error e => .over (.thrown e.fault (responseOps.withState c.parser.init e.state))
    | .ok (s, _, data) =>
        if s.hasError then .over .closed
        else if (data.length : ℤ) = toInt32 buffSize then .over .closed
        else if s.isFinished = 0 then .again { c with parser := s, data }
        else ChunkState.chunk { c with parser := s, data }

def recvChunks (buffSize : ℕ) :
    List Recv → List UInt8 → ChunkState → Received HttpResponseParser
  | [], _, _ => .closed
  | r :: rs, coming, c =>
      match r.read (c.asks buffSize) coming with
      | none => .closed
      | some [] => .closed
      | some (x :: xs) =>
          match c.got buffSize (x :: xs) with
          | .over received => received
          | .again c' => recvChunks buffSize rs (coming.drop (x :: xs).length) c'

/-- The part of `recvResponse` behind the first loop. -/
def afterHeader (lexicalCast : List UInt8 → Option UInt64) (alloc : ℕ → Bool)
    (buffSize : ℕ) :
    HeaderRead HttpResponseParser → Received HttpResponseParser
  | .over received => received
  | .stopped s data recvs coming =>
      if s.state.chunked then
        recvChunks buffSize recvs coming ⟨s, data, [], 0⟩
      else
        responseOps.recvBody alloc
          (s.state.data.headers.contentLength lexicalCast) s data recvs coming

def recvResponse (lexicalCast : List UInt8 → Option UInt64) (alloc : ℕ → Bool)
    (buffSize : ℕ) (recvs : List Recv) (coming : List UInt8) :
    Received HttpResponseParser :=
  afterHeader lexicalCast alloc buffSize
    (responseOps.recvHeader buffSize recvs coming .new [])

end HttpConnection

end Http

end Skt
