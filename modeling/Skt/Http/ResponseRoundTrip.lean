import Skt.Http.Connection
import Skt.Http.ResponseText

/-!
# A response sent and received

`HttpResponse::dump` on one side and `HttpConnection::recvResponse` on the
other. The header block has to come in the first read. Behind it the loop
compares the bytes left in the buffer with `(int)buff_size`, to see whether the
buffer is full; a buffer size that is not an `int` is cut down first.
-/

namespace Skt

set_option maxRecDepth 4000

namespace Http

open Lib Lib.CString Lib.Ragel SocketStream ResponseText

namespace HttpConnection

/-- The response `r`, as the receiver has to see it. -/
def SameResponse (r : HttpResponse) (s : HttpResponseParser) : Prop :=
  s.state.data.version = r.version ∧ s.state.data.status = r.status ∧
    s.state.data.reason = r.reasonText ∧ s.state.data.body = r.body ∧
    ∀ e ∈ r.headers, s.state.data.headers.find e.1 = some e.2

/-! ## Headers -/

theorem folded_connection : folded (bytes "connection") = bytes "connection" := by
  decide

theorem folded_contentLength : folded (bytes "content-length") = bytes "content-length" := by
  decide

theorem find_headersRead {r : HttpResponse} (hr : Writable r) :
    ∀ e ∈ r.headers, (headersRead r).find e.1 = some e.2 := by
  intro e he
  obtain ⟨-, hspecial⟩ := hr.name e he
  have hconnection : folded (bytes "connection") ≠ folded e.1 := by
    rw [folded_connection]
    exact fun h => hspecial (h ▸ List.mem_cons_self)
  have hlength : folded (bytes "content-length") ≠ folded e.1 := by
    rw [folded_contentLength]
    exact fun h => hspecial (h ▸ List.mem_cons_of_mem _ List.mem_cons_self)
  have hfind := MapType.find_setAll [] hr.ordered e he
  unfold headersRead MapType.withLength
  split_ifs
  · rw [MapType.find_set, if_neg hconnection, hfind]
  · rw [MapType.find_set, if_neg hlength, MapType.find_set, if_neg hconnection, hfind]

/-- The length that the receiver finds. -/
theorem contentLength_headersRead {r : HttpResponse} (hr : Writable r)
    {lexicalCast : List UInt8 → Option UInt64}
    (hcast : ∀ n < 18446744073709551616, lexicalCast (decimal n) = some (UInt64.ofNat n))
    (hbody : r.body.length < 2147483648) :
    (headersRead r).contentLength lexicalCast = UInt64.ofNat r.body.length := by
  have hne : folded (bytes "connection") ≠ folded (bytes "content-length") := by
    decide
  unfold MapType.contentLength headersRead MapType.withLength
  split_ifs with hnil
  · have hnone : ∀ e ∈ r.headers, folded e.1 ≠ folded (bytes "content-length") := by
      intro e he h
      rw [folded_contentLength] at h
      exact (hr.name e he).2 (h ▸ List.mem_cons_of_mem _ List.mem_cons_self)
    rw [MapType.find_set, if_neg hne, MapType.find_setAll_of_ne [] hnone, hnil]
    rfl
  · rw [MapType.find_set, if_pos rfl, Option.bind_some, hcast _ (by omega)]
    rfl

/-! ## The whole response -/

/-- The loop over the header block: one read and one call of the parser. -/
theorem recvHeader_dump {r : HttpResponse} (hr : Writable r) {buffSize : ℕ}
    {recv : Recv} (recvs : List Recv) {piece : List UInt8}
    (hread : recv.read buffSize r.dump = some piece)
    (hfirst : r.head.length ≤ piece.length) :
    ∃ s, HeadRead r s.state ∧
      responseOps.recvHeader buffSize (recv :: recvs) r.dump .new [] =
        if ((piece.length - r.head.length : ℕ) : ℤ) = toInt32 buffSize then .over .closed
        else .stopped s (r.body.take (piece.length - r.head.length)) recvs
          (r.body.drop (piece.length - r.head.length)) := by
  obtain ⟨htake, -⟩ := of_read hread
  have hpiece : piece = r.head ++ r.body.take (piece.length - r.head.length) := by
    conv_lhs => rw [← htake, HttpResponse.dump, List.take_append,
      List.take_of_length_le hfirst]
  have hdrop : r.dump.drop piece.length =
      r.body.drop (piece.length - r.head.length) := by
    rw [HttpResponse.dump, List.drop_append, List.drop_eq_nil_of_le hfirst, List.nil_append]
  have hne : piece ≠ [] := by
    intro h
    rw [h, List.length_nil, Nat.le_zero, List.length_eq_zero_iff, head_eq hr] at hfirst
    simp [dumpVersion, bytes] at hfirst
  have hlen : piece.length < 2147483648 := by
    cases recv with
    | got k =>
        have hle := congrArg List.length (Option.some.inj hread)
        rw [List.length_take] at hle
        unfold maxRw at hle
        omega
    | failed => cases hread
  have hlen' := hlen
  rw [hpiece] at hlen'
  obtain ⟨g', d', hexec, hread'⟩ := exec_head hr hlen' HttpResponseParser.new.regs.reset
  rw [← hpiece] at hexec
  have hexecute := HttpResponseParser.execute_of_exec (s := .new) hne hlen (by decide)
    (Nat.zero_le _) hexec
  have hexcute := HttpResponseParser.excute_of_execute (s := .new) (b := false) hexecute
  have hrest : piece.drop r.head.length =
      r.body.take (piece.length - r.head.length) := by
    conv_lhs => rw [hpiece, List.drop_left]
  have hlenrest : (piece.drop r.head.length).length =
      piece.length - r.head.length := List.length_drop
  refine ⟨⟨120, r.head.length, g', d'⟩, hread', ?_⟩
  obtain ⟨c, cs, rfl⟩ := List.exists_cons_of_ne_nil hne
  rw [ParserOps.recvHeader_of_ok (P := responseOps) (s := .new) [] hread hexcute, hlenrest,
    hrest, hdrop]
  have herror : responseOps.hasError ⟨120, r.head.length, g', d'⟩ = false := by
    simp [responseOps, HttpResponseParser.hasError, HttpResponseParser.hasAutomatonError,
      hread'.2.2]
  have hfinished : responseOps.isFinished ⟨120, r.head.length, g', d'⟩ = 1 := rfl
  rw [herror, hfinished]
  simp

/-- **Responses.** What `dump` writes comes back from `recvResponse`, if the bytes
of the body that came with the header block are not `(int)buff_size` many; and
only then. -/
theorem recvResponse_dump_iff (lexicalCast : List UInt8 → Option UInt64)
    (hcast : ∀ n < 18446744073709551616, lexicalCast (decimal n) = some (UInt64.ofNat n))
    (alloc : ℕ → Bool) (r : HttpResponse) (hr : Writable r)
    (hbody : r.body.length < 2147483648) (halloc : alloc r.body.length = true)
    (buffSize : ℕ) (recv : Recv) (recvs : List Recv) (piece : List UInt8)
    (hread : recv.read buffSize r.dump = some piece)
    (hfirst : r.head.length ≤ piece.length) (hpos : ∀ x ∈ recvs, x.Positive)
    (henough : r.dump.length - piece.length ≤ recvs.length) :
    (∃ s, recvResponse lexicalCast alloc buffSize (recv :: recvs) r.dump =
        .returned s ∧ SameResponse r s) ↔
      ((piece.length - r.head.length : ℕ) : ℤ) ≠ toInt32 buffSize := by
  obtain ⟨s, ⟨hdata, hchunked, -⟩, hheader⟩ := recvHeader_dump hr recvs hread hfirst
  unfold recvResponse
  rw [hheader]
  split_ifs with hfull
  · refine iff_of_false ?_ (not_not.mpr hfull)
    rintro ⟨s', h, -⟩
    cases h
  · refine iff_of_true ?_ hfull
    have hrest : r.body.length - (piece.length - r.head.length) ≤ recvs.length := by
      rw [HttpResponse.dump, List.length_append] at henough
      omega
    have hreturned := responseOps.recvBody_body alloc s hbody halloc
      (piece.length - r.head.length) hpos hrest
    refine ⟨if r.body = [] then s else responseOps.setBody r.body s, ?_, ?_⟩
    · rw [afterHeader, hchunked, if_neg Bool.false_ne_true, hdata,
        contentLength_headersRead hr hcast hbody, hreturned]
    · unfold SameResponse
      split_ifs with hnil
      · rw [hdata]
        exact ⟨rfl, rfl, rfl, hnil.symm, find_headersRead hr⟩
      · rw [show (responseOps.setBody r.body s).state.data = { s.state.data with body := r.body }
          from rfl, hdata]
        exact ⟨rfl, rfl, rfl, rfl, find_headersRead hr⟩

/-- A response with a header and a body, and one with neither. -/
def pageResponse : HttpResponse where
  status := 404
  version := 0x11
  close := true
  reason := []
  body := bytes "gone"
  headers := [(bytes "X-Id", bytes "a b")]

def emptyResponse : HttpResponse where
  status := 200
  version := 0x11
  close := true
  reason := []
  body := []
  headers := []

theorem pageResponse_writable : Writable pageResponse where
  version := Or.inr rfl
  status_nonneg := by decide
  status_le := by decide
  reason := by decide
  ordered := by decide
  name := by decide
  value := by decide

theorem emptyResponse_writable : Writable emptyResponse where
  version := Or.inr rfl
  status_nonneg := by decide
  status_le := by decide
  reason := by decide
  ordered := by decide
  name := by decide
  value := by decide

/-- The header block comes with the first two bytes of the body, the other two
come one by one. -/
theorem recvResponse_dump_iff_page :
    ∃ s, recvResponse (fun text => some (UInt64.ofNat (digits 10 text 0))) (fun _ => true)
        4096 [.got 77, .got 1, .got 1] pageResponse.dump = .returned s ∧
      SameResponse pageResponse s :=
  (recvResponse_dump_iff _ (fun n _ => by rw [digits_decimal]) (fun _ => true) pageResponse
    pageResponse_writable (by decide) rfl 4096 (.got 77) [.got 1, .got 1]
    (pageResponse.dump.take 77) (by decide) (by decide) (by decide)
    (by decide)).mpr (by decide)

/-- A buffer of 4 GiB: all of the response has come and been read, nothing is
left in the buffer, and `(int)buff_size` is `0`. -/
theorem recvResponse_dump_huge_buffer :
    Writable emptyResponse ∧
      Recv.read 4294967296 emptyResponse.dump (.got 4096) =
        some emptyResponse.dump ∧
      recvResponse (fun text => some (UInt64.ofNat (digits 10 text 0))) (fun _ => true)
        4294967296 [.got 4096] emptyResponse.dump = .closed :=
  ⟨emptyResponse_writable, by decide, by decide⟩

end HttpConnection

end Http

end Skt
