import Skt.Http.Session
import Skt.Http.Connection

/-!
# A body of announced length

Behind the header block, a body of `L` bytes is put together from what the last read has
brought along and from further reads. It is the first `L` bytes behind the header block,
however the stream is cut, and the connection is closed just if the stream ends before;
but for a buffer whose size is, as an `int`, the number of bytes that came along, where the
loop takes the buffer to be full and closes the connection.
-/

namespace Skt

namespace Http

open Lib Lib.CString SocketStream

namespace ParserOps

variable {σ ρ : Type} {P : ParserOps σ ρ} {buffSize : ℕ}

/-- From a parser `s` with `data` in the buffer, the reads bring the rest of a header block:
`excute` has just come back with the parser finished, and the loop has not compared `offset`
with the size of the buffer yet. Behind the header block are `data'` in the buffer, the reads
`recvs'` and the bytes `coming'`. -/
inductive HeaderParsed (P : ParserOps σ ρ) (buffSize : ℕ) (s' : σ) (data' : List UInt8)
    (recvs' : List Recv) (coming' : List UInt8) :
    List Recv → List UInt8 → σ → List UInt8 → Prop
  | last {r : Recv} {coming : List UInt8} {s : σ} {data : List UInt8} {c : UInt8}
      {cs : List UInt8} {p : ℕ} : r.read (buffSize - data.length) coming = some (c :: cs) →
      coming.drop (c :: cs).length = coming' → P.excute s (data ++ c :: cs) = .ok (s', p, data') →
      P.hasError s' = false → P.isFinished s' ≠ 0 →
      HeaderParsed P buffSize s' data' recvs' coming' (r :: recvs') coming s data
  | more {r : Recv} {recvs : List Recv} {coming : List UInt8} {s s₁ : σ}
      {data data₁ : List UInt8} {c : UInt8} {cs : List UInt8} {p : ℕ} :
      r.read (buffSize - data.length) coming = some (c :: cs) →
      P.excute s (data ++ c :: cs) = .ok (s₁, p, data₁) →
      P.hasError s₁ = false → P.isFinished s₁ = 0 → (data₁.length : ℤ) ≠ toInt32 buffSize →
      HeaderParsed P buffSize s' data' recvs' coming' recvs (coming.drop (c :: cs).length) s₁
        data₁ →
      HeaderParsed P buffSize s' data' recvs' coming' (r :: recvs) coming s data

variable {recvs recvs' : List Recv} {coming coming' data data' : List UInt8} {s s' : σ}

/-- The loop goes on to the body unless it takes the buffer to be full. -/
theorem HeaderParsed.recvHeader
    (h : HeaderParsed P buffSize s' data' recvs' coming' recvs coming s data) :
    P.recvHeader buffSize recvs coming s data =
      if (data'.length : ℤ) = toInt32 buffSize then .over .closed
      else .stopped s' data' recvs' coming' := by
  induction h with
  | last hread hdrop hexc herror hfinished =>
      rw [recvHeader_of_ok _ hread hexc, herror, if_neg Bool.false_ne_true, if_pos hfinished,
        hdrop]
  | more hread hexc herror hfinished hroom _ ih =>
      rw [recvHeader_of_ok _ hread hexc, herror, if_neg Bool.false_ne_true, if_neg hroom,
        if_neg (not_not.mpr hfinished), ih]

/-- What is left in the buffer and what still comes, behind a call of `excute`. -/
theorem suffix_of_read {r : Recv} {c : UInt8} {cs tail : List UInt8} {n p : ℕ}
    (hread : r.read n coming = some (c :: cs)) (htail : tail = (data ++ c :: cs).drop p) :
    tail ++ coming.drop (c :: cs).length <:+ data ++ coming := by
  have hall : data ++ coming = (data ++ c :: cs) ++ coming.drop (c :: cs).length := by
    conv_lhs => rw [← List.take_append_drop (c :: cs).length coming, (of_read hread).1]
    rw [List.append_assoc]
  obtain ⟨front, hfront⟩ := List.drop_suffix p (data ++ c :: cs)
  rw [hall, htail]
  exact ⟨front, by rw [← List.append_assoc, hfront]⟩

/-- The header block is taken from the front of the stream. -/
theorem HeaderParsed.suffix
    (hdrop : ∀ {s s' : σ} {buffer tail : List UInt8} {p : ℕ},
      P.excute s buffer = .ok (s', p, tail) → tail = buffer.drop p)
    (h : HeaderParsed P buffSize s' data' recvs' coming' recvs coming s data) :
    data' ++ coming' <:+ data ++ coming ∧ recvs' <:+ recvs := by
  induction h with
  | last hread hcoming hexc _ _ =>
      exact ⟨hcoming ▸ suffix_of_read hread (hdrop hexc), List.suffix_cons _ _⟩
  | more hread hexc _ _ _ _ ih =>
      exact ⟨ih.1.trans (suffix_of_read hread (hdrop hexc)),
        ih.2.trans (List.suffix_cons _ _)⟩

/-- What a full buffer changes: nothing, if the connection is to be closed anyway. -/
theorem after_full_iff {f : HeaderRead σ → Received σ} {x : HeaderRead σ} {m : σ}
    {full enough : Prop} [Decidable full] [Decidable enough]
    (hclosed : f (.over .closed) = .closed) (hx : f x = if enough then .returned m else .closed) :
    f (if full then .over .closed else x) = (if enough then .returned m else .closed) ↔
      (full → ¬enough) := by
  by_cases hfull : full
  · rw [if_pos hfull, hclosed]
    split_ifs with henough
    · exact iff_of_false (fun h => by cases h) fun h => h hfull henough
    · exact iff_of_true rfl fun _ => henough
  · rw [if_neg hfull, hx]
    exact iff_of_true rfl fun h => absurd h hfull

end ParserOps

/-- **Bodies of announced length.** The header block has just been parsed, with the bytes
`data` in the buffer behind it, and no read fails. What is left of the stream begins right
behind the header block. If `L` bytes of it come before the end, the message is to be returned
with these as its body, and if not, the connection is to be closed. This is what happens, if
and only if `data` are not `(int)buff_size` bytes or there are not `L` bytes to come. -/
theorem recv_body_exact_iff (lexicalCast : List UInt8 → Option UInt64) {alloc : ℕ → Bool}
    (buffSize : ℕ) {L : ℕ} (hpos : 1 ≤ L) (hlt : L < 2 ^ 31) (halloc : alloc L = true)
    {recvs : List Recv} (hok : ∀ r ∈ recvs, r ≠ .failed) (coming : List UInt8) :
    (∀ queryStart uriRelaxed s data recvs' coming',
      requestOps.HeaderParsed buffSize s data recvs' coming' recvs coming
        (.new queryStart uriRelaxed) [] →
      s.state.data.headers.contentLength lexicalCast = UInt64.ofNat L →
      data ++ coming' <:+ coming ∧
        (HttpSession.recvRequest lexicalCast alloc buffSize queryStart uriRelaxed recvs coming =
          (if L ≤ data.length + min (supplied recvs') coming'.length then
            .returned (requestOps.setBody ((data ++ coming').take L) s)
          else .closed) ↔
        ((data.length : ℤ) = toInt32 buffSize →
          data.length + min (supplied recvs') coming'.length < L))) ∧
    (∀ s data recvs' coming',
      responseOps.HeaderParsed buffSize s data recvs' coming' recvs coming .new [] →
      s.state.chunked = false →
      s.state.data.headers.contentLength lexicalCast = UInt64.ofNat L →
      data ++ coming' <:+ coming ∧
        (HttpConnection.recvResponse lexicalCast alloc buffSize recvs coming =
          (if L ≤ data.length + min (supplied recvs') coming'.length then
            .returned (responseOps.setBody ((data ++ coming').take L) s)
          else .closed) ↔
        ((data.length : ℤ) = toInt32 buffSize →
          data.length + min (supplied recvs') coming'.length < L))) := by
  constructor
  · intro queryStart uriRelaxed s data recvs' coming' hparsed hlength
    obtain ⟨hsuffix, hrecvs⟩ := hparsed.suffix fun h => HttpRequestParser.drop_of_excute h
    refine ⟨hsuffix, ?_⟩
    have hbody := requestOps.recvBody_supplied alloc s hpos hlt halloc data
      (fun r hr => hok r (hrecvs.subset hr)) coming'
    rw [← hlength] at hbody
    rw [HttpSession.recvRequest, hparsed.recvHeader, ← Nat.not_le]
    exact ParserOps.after_full_iff rfl hbody
  · intro s data recvs' coming' hparsed hchunked hlength
    obtain ⟨hsuffix, hrecvs⟩ := hparsed.suffix fun h => HttpResponseParser.drop_of_excute h
    refine ⟨hsuffix, ?_⟩
    have hbody := responseOps.recvBody_supplied alloc s hpos hlt halloc data
      (fun r hr => hok r (hrecvs.subset hr)) coming'
    rw [HttpConnection.recvResponse, hparsed.recvHeader, ← Nat.not_le]
    refine ParserOps.after_full_iff rfl ?_
    rw [HttpConnection.afterHeader, hchunked, if_neg Bool.false_ne_true, hlength]
    exact hbody

/-- A header block of 37 bytes with one byte of the body behind it, and two more reads. -/
theorem recv_body_exact_iff_three :
    ∃ s, HttpSession.recvRequest (fun _ => some 3) (fun _ => true) 4096 0 false
        [.got 38, .got 1, .got 5] (bytes "GET / HTTP/1.1\r\nContent-Length: 3\r\n\r\nabcd") =
        .returned s ∧ s.state.data.body = bytes "abc" :=
  ⟨_, (((recv_body_exact_iff (fun _ => some 3) 4096 (L := 3) (by decide) (by decide) rfl
    (by decide) _).1 0 false _ _ _ _ (.last rfl rfl rfl rfl (by decide)) rfl).2.mpr
      (by decide)).trans (by rfl), by decide⟩

/-- A buffer of 4 GiB: the header block has come alone and been read, nothing is left in the
buffer, and `(int)buff_size` is `0`; the three bytes of the body are not waited for. -/
theorem recv_body_huge_buffer :
    (∃ s, requestOps.HeaderParsed 4294967296 s [] [.got 3] (bytes "abc") [.got 37, .got 3]
        (bytes "GET / HTTP/1.1\r\nContent-Length: 3\r\n\r\nabc") (.new 0 false) [] ∧
      s.state.data.headers.contentLength (fun _ => some 3) = UInt64.ofNat 3) ∧
    HttpSession.recvRequest (fun _ => some 3) (fun _ => true) 4294967296 0 false
      [.got 37, .got 3] (bytes "GET / HTTP/1.1\r\nContent-Length: 3\r\n\r\nabc") = .closed ∧
    (∃ s, responseOps.HeaderParsed 4294967296 s [] [.got 3] (bytes "abc") [.got 38, .got 3]
        (bytes "HTTP/1.1 200 OK\r\nContent-Length: 3\r\n\r\nabc") .new [] ∧
      s.state.chunked = false ∧
      s.state.data.headers.contentLength (fun _ => some 3) = UInt64.ofNat 3) ∧
    HttpConnection.recvResponse (fun _ => some 3) (fun _ => true) 4294967296
      [.got 38, .got 3] (bytes "HTTP/1.1 200 OK\r\nContent-Length: 3\r\n\r\nabc") = .closed :=
  ⟨⟨_, .last rfl rfl rfl rfl (by decide), rfl⟩, by decide,
    ⟨_, .last rfl rfl rfl rfl (by decide), rfl, rfl⟩, by decide⟩

end Http

end Skt
