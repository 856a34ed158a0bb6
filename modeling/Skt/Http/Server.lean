import Skt.Http.RequestText
import Skt.Http.Session

/-!
# `HttpServer::handleClient`

One connection of a server: a loop around `recvRequest`, which the flag `m_close` of
the request ends. The constructor of `HttpRequest` sets this flag, and no callback of
the parser resets it, whatever the header `connection` says. What a call of
`recvRequest` leaves in its buffer is gone with the call.
-/

namespace Skt

set_option maxRecDepth 4000

namespace Http

open Lib Lib.CString Lib.Ragel SocketStream

/-- The server's settings and surroundings: `http.request.buffer.size`, the memory that
the parsers find, and what is handed over to the servlets. -/
structure HttpServer where
  isKeepalive : Bool
  name : List UInt8
  dispatch : HttpRequest → HttpResponse → HttpResponse
  lexicalCast : List UInt8 → Option UInt64
  alloc : ℕ → Bool
  buffSize : ℕ
  queryStart : ℕ
  uriRelaxed : Bool

/-- How a connection ends: with `session->close()`, or by an exception; `running` is for
a loop that has not ended yet. -/
inductive Ending
  | closed
  | thrown (fault : Fault)
  | running
  deriving DecidableEq, Repr

namespace HttpServer

variable (S : HttpServer)

def recvRequest (recvs : List Recv) (coming : List UInt8) : Received HttpRequestParser :=
  HttpSession.recvRequest S.lexicalCast S.alloc S.buffSize S.queryStart S.uriRelaxed recvs coming

/-- What `recvRequest` leaves for the next call. -/
def afterRequest : HeaderRead HttpRequestParser → List Recv × List UInt8
  | .over _ => ([], [])
  | .stopped s data recvs coming =>
      let length := (s.state.data.headers.contentLength S.lexicalCast).toBitVec.toInt
      if 0 < length ∧ 0 < length - data.length then
        readRest recvs coming (length - data.length).toNat
      else (recvs, coming)

/-- The response to a request, as it is sent. -/
def respond (req : HttpRequest) : List UInt8 :=
  let rsp := { HttpResponse.new with version := req.version,
                                     close := req.close || !S.isKeepalive,
                                     headers := MapType.set (bytes "Server") S.name [] }
  (S.dispatch req rsp).dump

/-- The loop: the requests that were handled, each with what was sent for it, and how
it ended. -/
def handleLoop : ℕ → List Recv → List UInt8 → List (HttpRequest × List UInt8) × Ending
  | 0, _, _ => ([], .running)
  | n + 1, recvs, coming =>
      match S.recvRequest recvs coming with
      | .closed => ([], .closed)
      | .thrown fault _ => ([], .thrown fault)
      | .returned s =>
          let req := s.state.data
          if !S.isKeepalive || req.close then ([(req, S.respond req)], .closed)
          else
            let rest := S.afterRequest (requestOps.recvHeader S.buffSize recvs coming
              (.new S.queryStart S.uriRelaxed) [])
            let (handled, ending) := handleLoop n rest.1 rest.2
            ((req, S.respond req) :: handled, ending)

/-- `handleClient`: every round but the last one uses up a read. -/
def handleClient (recvs : List Recv) (coming : List UInt8) :
    List (HttpRequest × List UInt8) × Ending :=
  S.handleLoop (recvs.length + 1) recvs coming

/-! ## Requests -/

/-- The text of a request and what is in it. -/
structure Message where
  head : List UInt8
  request : HttpRequest

def Message.text (m : Message) : List UInt8 := m.head ++ m.request.body

/-- A request as the server can take it: the parser takes the header block, whatever
follows, and finds the length of the body in it; the header block fits into the buffer
and the body into a string. -/
structure WellFormed (m : Message) : Prop where
  parses : ∀ rest, (m.head ++ rest).length < 2147483648 →
    ∃ s, (HttpRequestParser.new S.queryStart S.uriRelaxed).excute (m.head ++ rest) =
        .ok (s, m.head.length, rest) ∧
      s.isFinished = 1 ∧ s.state.error = 0 ∧ s.state.data = { m.request with body := [] }
  keepAlive : m.request.headers.find (bytes "connection") = some (bytes "keep-alive")
  length : m.request.headers.contentLength S.lexicalCast = UInt64.ofNat m.request.body.length
  head_ne : m.head ≠ []
  head_le : m.head.length ≤ min S.buffSize maxRw
  body_lt : m.request.body.length < 2147483648
  alloc : S.alloc m.request.body.length = true

/-- What is sent on the connection. -/
def sent (segments : List (List Message)) : List UInt8 :=
  segments.flatten.flatMap Message.text

/-- A first read that finds all of the first segment, and others that find some byte
each, as long as there is one. -/
def Arrives (segments : List (List Message)) (recvs : List Recv) : Prop :=
  ∀ g gs, segments = g :: gs → g ≠ [] ∧ ∃ k rs, recvs = .got k :: rs ∧
    (g.flatMap Message.text).length ≤ k ∧ (∀ x ∈ rs, x.Positive) ∧
    (sent segments).length ≤ rs.length

/-- The requests, each with the response to it. -/
def served (ms : List Message) : List (HttpRequest × List UInt8) :=
  ms.map fun m => (m.request, S.respond m.request)

variable {S}

/-- No callback changes `m_close`. -/
theorem keeps_close (close : Bool) (a : RequestAction) :
    (RequestState.instr a).Keeps fun d => d.data.close = close := by
  cases a with
  | mark | startField | writeField | startQuery => trivial
  | requestMethod =>
      intro ptr len d hd
      dsimp only [RequestState.onRequestMethod]
      split_ifs
      · exact hd
      · exact hd
  | httpVersion =>
      intro ptr len d hd
      dsimp only [RequestState.onRequestVersion]
      split_ifs
      · exact hd
      · exact hd
      · exact hd
  | done =>
      intro len d hd
      dsimp only
      split_ifs
      · exact hd
      · exact hd
  | writeValue => exact fun _ _ _ hd => hd
  | fragment | queryString | requestPath => exact fun _ _ hd => hd
  | requestUri | xml | json => exact fun _ hd => hd

theorem close_of_excute {s s' : HttpRequestParser} {buffer tail : List UInt8} {p : ℕ}
    (h : s.excute buffer = .ok (s', p, tail)) : s'.state.data.close = s.state.data.close := by
  unfold HttpRequestParser.excute HttpRequestParser.execute at h
  by_cases hempty : buffer.length = 0
  · rw [if_pos hempty] at h
    cases h
    rfl
  by_cases hlong : 2147483648 ≤ buffer.length
  · rw [if_neg hempty, if_pos hlong] at h
    cases h
  rw [if_neg hempty, if_neg hlong] at h
  rcases hscan : requestScanner.scan s.uriRelaxed buffer s.cs (s.regs.reset, s.state) with
    e | ⟨p', cs', x⟩
  · simp [hscan] at h
  · have hkeeps := requestScanner.keeps_scan (keeps_close s.state.data.close) rfl hscan
    simp only [hscan] at h
    by_cases hassert : HttpRequestParser.Asserts buffer.length p' x.1
    · simp only [if_pos hassert, Except.ok.injEq, Prod.mk.injEq] at h
      obtain ⟨rfl, -⟩ := h
      exact hkeeps
    · simp only [if_neg hassert, reduceCtorEq] at h

/-- The request is handed out as the constructor made it, as far as `m_close` goes:
`HttpRequest(uint8_t version = 0x11, bool close = true)`. -/
theorem close_of_recvRequest {recvs : List Recv} {coming : List UInt8} {s : HttpRequestParser}
    (h : S.recvRequest recvs coming = .returned s) : s.state.data.close = true := by
  have hheader := ParserOps.keeps_recvHeader (P := requestOps)
    (I := fun s => s.state.data.close = true) (fun hexc hs => (close_of_excute hexc).trans hs)
    S.buffSize recvs coming (.new S.queryStart S.uriRelaxed) [] rfl
  unfold recvRequest HttpSession.recvRequest at h
  generalize requestOps.recvHeader S.buffSize recvs coming _ [] = x at h hheader
  rcases x with received | ⟨s₁, data, recvs', coming'⟩
  · cases h
    exact hheader.elim
  · obtain rfl | ⟨body, rfl⟩ := requestOps.of_recvBody h
    · exact hheader
    · exact hheader

/-- At most one request is handled, since `m_close` is set. -/
theorem length_handleLoop_le (n : ℕ) (recvs : List Recv) (coming : List UInt8) :
    (S.handleLoop n recvs coming).1.length ≤ 1 := by
  cases n with
  | zero => exact Nat.zero_le 1
  | succ n =>
      unfold handleLoop
      cases hrecv : S.recvRequest recvs coming with
      | closed => exact Nat.zero_le 1
      | thrown fault s => exact Nat.zero_le 1
      | returned s => simp [close_of_recvRequest hrecv]

/-- Nothing was sent. -/
theorem handleClient_nil (recvs : List Recv) : S.handleClient recvs [] = ([], .closed) := by
  have hclosed : S.recvRequest recvs [] = .closed := by
    unfold recvRequest HttpSession.recvRequest
    cases recvs with
    | nil => rfl
    | cons r rs =>
        have hread : ∀ n, r.read n [] = none ∨ r.read n [] = some [] := by
          intro n
          cases r with
          | got k => exact Or.inr (by simp [Recv.read])
          | failed => exact Or.inl rfl
        unfold ParserOps.recvHeader
        rcases hread (S.buffSize - ([] : List UInt8).length) with h | h <;> rw [h] <;> rfl
  unfold handleClient handleLoop
  rw [hclosed]

/-- The bytes of the body that come with the header block of a lone request. -/
def bodyBytes (S : HttpServer) (m : Message) : ℕ :=
  min (min S.buffSize maxRw) m.text.length - m.head.length

/-- One request alone: the read that brings its header block ends the loop over it. -/
theorem recvRequest_one {m : Message} (hm : S.WellFormed m) {k : ℕ} {rs : List Recv}
    (hk : m.text.length ≤ k) (hpos : ∀ x ∈ rs, x.Positive)
    (henough : m.text.length ≤ rs.length) :
    ∃ s : HttpRequestParser, s.state.data = m.request ∧ S.recvRequest (.got k :: rs) m.text =
      if (S.bodyBytes m : ℤ) = toInt32 S.buffSize then .closed else .returned s := by
  have htext : m.text.length = m.head.length + m.request.body.length := List.length_append
  have hle := hm.head_le
  have hhead : 0 < m.head.length := List.length_pos_iff.mpr hm.head_ne
  have hbytes : S.bodyBytes m = min (min S.buffSize maxRw) m.text.length - m.head.length := rfl
  have hpiece : m.text.take (min k (min S.buffSize maxRw)) =
      m.head ++ m.request.body.take (S.bodyBytes m) := by
    rw [Message.text, List.take_append, List.take_of_length_le (by omega)]
    congr 1
    rw [List.take_eq_take_iff]
    omega
  have htake : (m.request.body.take (S.bodyBytes m)).length = S.bodyBytes m := by
    rw [List.length_take]
    omega
  have hread : Recv.read (S.buffSize - ([] : List UInt8).length) m.text (.got k) =
      some (m.head ++ m.request.body.take (S.bodyBytes m)) := by
    rw [List.length_nil, Nat.sub_zero, Recv.read, hpiece]
  have hlen : (m.head ++ m.request.body.take (S.bodyBytes m)).length < 2147483648 := by
    rw [← hpiece, List.length_take]
    unfold maxRw
    omega
  have hdrop : m.text.drop (m.head ++ m.request.body.take (S.bodyBytes m)).length =
      m.request.body.drop (S.bodyBytes m) := by
    rw [List.length_append, htake, Message.text, ← List.drop_drop, List.drop_left]
  obtain ⟨s, hexcute, hfinished, herror, hdata⟩ := hm.parses _ hlen
  have hnoerror : requestOps.hasError s = false := by
    simp [requestOps, HttpRequestParser.hasError, herror]
  have hstop : requestOps.isFinished s ≠ 0 := by
    rw [show requestOps.isFinished s = s.isFinished from rfl, hfinished]
    decide
  have hreturned := requestOps.recvBody_body S.alloc s hm.body_lt hm.alloc (S.bodyBytes m) hpos
    (by omega)
  refine ⟨if m.request.body = [] then s else requestOps.setBody m.request.body s, ?_, ?_⟩
  · split_ifs with hnil
    · rw [hdata, ← hnil]
    · rw [show (requestOps.setBody m.request.body s).state.data =
        { s.state.data with body := m.request.body } from rfl, hdata]
  · obtain ⟨c, cs, hcons⟩ := List.exists_cons_of_ne_nil
      (show m.head ++ m.request.body.take (S.bodyBytes m) ≠ [] by simp [hm.head_ne])
    rw [hcons] at hread hexcute hdrop
    unfold recvRequest HttpSession.recvRequest
    rw [ParserOps.recvHeader_of_ok (P := requestOps) [] hread hexcute, hnoerror,
      if_neg Bool.false_ne_true, if_pos hstop, htake, hdrop]
    by_cases hfull : (S.bodyBytes m : ℤ) = toInt32 S.buffSize
    · rw [if_pos hfull, if_pos hfull]
      rfl
    · rw [if_neg hfull, if_neg hfull, HttpSession.afterHeader, hdata, hm.length, hreturned]

/-- **Connections.** However the requests of a connection are put into segments, the
server handles all of them only if there is at most one. One request alone is handled
unless the bytes of its body in the buffer are `(int)buff_size` many. -/
theorem handleClient_iff (S : HttpServer) (segments : List (List Message))
    (hms : ∀ m ∈ segments.flatten, S.WellFormed m) (recvs : List Recv)
    (harrives : Arrives segments recvs) :
    S.handleClient recvs (sent segments) = (S.served segments.flatten, .closed) ↔
      segments.flatten = [] ∨ ∃ m, segments.flatten = [m] ∧
        (S.bodyBytes m : ℤ) ≠ toInt32 S.buffSize := by
  rcases hflat : segments.flatten with _ | ⟨m, ms⟩
  · have hsent : sent segments = [] := by
      rw [sent, hflat]
      rfl
    rw [hsent, handleClient_nil]
    exact iff_of_true rfl (Or.inl rfl)
  · rcases ms with _ | ⟨m', ms⟩
    · have hm := hms m (by rw [hflat]; exact List.mem_cons_self)
      have hsent : sent segments = m.text := by
        rw [sent, hflat]
        simp
      obtain ⟨g, gs, hsegments⟩ : ∃ g gs, segments = g :: gs := by
        cases segments with
        | nil => cases hflat
        | cons g gs => exact ⟨g, gs, rfl⟩
      obtain ⟨hne, k, rs, rfl, hk, hpos, henough⟩ := harrives g gs hsegments
      have hg : g = [m] := by
        rw [hsegments, List.flatten_cons] at hflat
        rcases List.append_eq_cons_iff.mp hflat with ⟨hnil, -⟩ | ⟨g', rfl, hrest⟩
        · exact absurd hnil hne
        · rw [(List.append_eq_nil_iff.mp hrest.symm).1]
      rw [hsent] at henough ⊢
      have hk' : m.text.length ≤ k := by
        rw [hg] at hk
        simpa using hk
      obtain ⟨s, hdata, hrecv⟩ := recvRequest_one hm hk' hpos henough
      unfold handleClient handleLoop
      rw [hrecv]
      split_ifs with hfull
      · refine iff_of_false ?_ ?_
        · simp [served]
        · rintro (h | ⟨m', h, hne'⟩)
          · cases h
          · cases h
            exact hne' hfull
      · refine iff_of_true ?_ (Or.inr ⟨m, rfl, hfull⟩)
        have hclose := close_of_recvRequest (hrecv.trans (if_neg hfull))
        rw [hdata] at hclose
        simp [hclose, served, hdata]
    · refine iff_of_false ?_ ?_
      · intro h
        have hlen := length_handleLoop_le (S := S) (recvs.length + 1) recvs (sent segments)
        rw [show S.handleLoop (recvs.length + 1) recvs (sent segments) = _ from h] at hlen
        simp [served] at hlen
      · rintro (h | ⟨m'', h, -⟩) <;> cases h

/-! ## A request without a body -/

open RequestText RequestGrammar

/-- `GET / HTTP/1.1` with `Connection: keep-alive`. -/
def getMessage : Message where
  head := httpMethodToString .GET ++ 32 :: (bytes "/" ++ 32 :: (dumpVersion 0x11 ++ 13 :: 10 ::
    (bytes "Connection" ++ 58 :: ([32] ++ (bytes "keep-alive" ++ 13 :: 10 :: [13, 10])))))
  request := { HttpRequest.new with headers := [(bytes "Connection", bytes "keep-alive")] }

/-- A server with the default settings. -/
def keepaliveServer : HttpServer where
  isKeepalive := true
  name := bytes "skt"
  dispatch _ rsp := { rsp with body := bytes "hello" }
  lexicalCast _ := none
  alloc _ := true
  buffSize := 4096
  queryStart := 0
  uriRelaxed := false

theorem getMessage_parses {rest : List UInt8} (hlen : (getMessage.head ++ rest).length < 2147483648) :
    ∃ s, (HttpRequestParser.new 0 false).excute (getMessage.head ++ rest) =
        .ok (s, getMessage.head.length, rest) ∧
      s.isFinished = 1 ∧ s.state.error = 0 ∧ s.state.data = getMessage.request := by
  have hs : (getMessage.head ++ rest).drop 0 = httpMethodToString .GET ++ 32 :: (bytes "/" ++
      32 :: (dumpVersion 0x11 ++ 13 :: 10 :: (bytes "Connection" ++ 58 :: ([32] ++
        (bytes "keep-alive" ++ 13 :: 10 :: (13 :: 10 :: rest)))))) := by
    simp [getMessage]
  have hs₁ := drop_succ (drop_add hs)
  have hs₂ := drop_succ (drop_add hs₁)
  have hs₃ := drop_succ (drop_succ (drop_add hs₂))
  have hs₄ := Scanner.drop_line hs₃
  have hgo₁ : (requestScannerUnder false).go (getMessage.head ++ rest) 0 1
      ((HttpRequestParser.new 0 false).regs.reset, (HttpRequestParser.new 0 false).state) = _ :=
    go_method (by decide) (by decide) hlen hs
  have hrun : (partTable false).run 3 (bytes "/") = some 33 := by decide
  have hgo₂ := hgo₁.trans
    (go_path (Or.inl rfl) (Or.inl rfl) hrun (Or.inr (by decide)) hlen hs₁)
  have hgo₃ := hgo₂.trans (go_version false (Or.inr rfl) hlen hs₂)
  obtain ⟨g, hgo₄⟩ := Scanner.go_plainLine (P := requestScannerUnder false)
    (g := { (HttpRequestParser.new 0 false).regs.reset with mark := 6 })
    (d := { (HttpRequestParser.new 0 false).state with
      data := { HttpRequest.new with path := bytes "/" } })
    (line_header (Or.inr rfl) (by decide) (by decide)) hlen hs₃
  obtain ⟨g', hgo₅⟩ := go_done false (g := g)
    (d := { (HttpRequestParser.new 0 false).state with data := getMessage.request }) hs₄
    ⟨rfl, rfl⟩
  have hexec := (exec_under requestTable false requestScanner.breaks
    (requestScanner.act (getMessage.head ++ rest)) (getMessage.head ++ rest) 0 1
    ((HttpRequestParser.new 0 false).regs.reset, (HttpRequestParser.new 0 false).state)).trans
    (hgo₃.trans (hgo₄.trans hgo₅))
  have hexcute := HttpRequestParser.excute_of_exec (s := .new 0 false)
    (by simp [getMessage]) hlen Nat.one_ne_zero (Nat.zero_le _) hexec
  rw [drop_succ (drop_succ hs₄)] at hexcute
  exact ⟨_, hexcute, rfl, rfl, rfl⟩

theorem getMessage_wellFormed : keepaliveServer.WellFormed getMessage where
  parses := fun _ hlen => getMessage_parses hlen
  keepAlive := by decide
  length := rfl
  head_ne := by decide
  head_le := by decide
  body_lt := by decide
  alloc := rfl

/-- One request in one segment. -/
theorem handleClient_iff_one :
    keepaliveServer.handleClient (.got 100 :: List.replicate 100 (.got 1)) (sent [[getMessage]]) =
      (keepaliveServer.served [getMessage], .closed) := by
  refine (handleClient_iff keepaliveServer [[getMessage]] ?_ _ ?_).mpr
    (Or.inr ⟨getMessage, rfl, by decide⟩)
  · intro m hm
    rw [List.mem_singleton.mp hm]
    exact getMessage_wellFormed
  · rintro g gs h
    cases h
    exact ⟨by decide, 100, _, rfl, by decide, by decide, by decide⟩

/-- Two requests in one segment: the second one is never answered. -/
theorem handleClient_pipelined :
    keepaliveServer.WellFormed getMessage ∧
      (keepaliveServer.handleClient (.got 100 :: List.replicate 100 (.got 1))
        (sent [[getMessage, getMessage]])).1.map Prod.fst = [getMessage.request] ∧
      (keepaliveServer.handleClient (.got 100 :: List.replicate 100 (.got 1))
        (sent [[getMessage, getMessage]])).2 = .closed :=
  ⟨getMessage_wellFormed, by decide, by decide⟩

end HttpServer

end Http

end Skt
