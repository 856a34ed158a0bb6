import Skt.Http.Scanner
import Skt.Http.ResponseTable

/-!
# `HttpResponseParser`

`httpclient_parser_execute` with the callbacks of `http_parser.cpp`. The same
automaton reads a response header block and the header of a chunk; the caller
ends the buffer with a NUL.
-/

namespace Skt

namespace Http

open Lib Lib.CString Lib.Ragel

/-- The message and the flags of a response parser. -/
structure ResponseState where
  contentLen : ℤ
  chunked : Bool
  chunksDone : Bool
  close : Bool
  data : HttpResponse
  error : ℕ
  deriving DecidableEq, Repr

/-- `HttpResponseParser` with its `httpclient_parser`. -/
structure HttpResponseParser where
  cs : ℕ
  nread : ℕ
  regs : Registers
  state : ResponseState
  deriving DecidableEq, Repr

namespace ResponseState

/-! ## Callbacks -/

def onResponseReason (str : List UInt8) (s : ResponseState) : ResponseState :=
  { s with data.reason := str }

def onResponseStatus (ptr : List UInt8) (s : ResponseState) : ResponseState :=
  { s with data.status := atoi ptr }

def onResponseVersion (ptr : List UInt8) (length : ℕ) (s : ResponseState) :
    ResponseState :=
  if strncmpEq length ptr (bytes "HTTP/1.1") then { s with data.version := 0x11 }
  else if strncmpEq length ptr (bytes "HTTP/1.0") then
    { s with data.version := 0x10 }
  else { s with error := 1001 }

def onResponseHttpFiled (key v : List UInt8) (s : ResponseState) :
    ResponseState :=
  { s with data.headers := s.data.headers.set key v }

/-! ## Actions -/

def writeContentLen (ptr : List UInt8) (s : ResponseState) : ResponseState :=
  { s with contentLen := toInt32 (strtol 10 ptr) }

def chunkSize (ptr : List UInt8) (s : ResponseState) : ResponseState :=
  let contentLen := toInt32 (strtol 16 ptr)
  { s with chunked := true, contentLen, chunksDone := contentLen ≤ 0 }

/-- The actions of `httpclient_parser.rl`; the callbacks `on_response_chunk`,
`on_response_last_chunk` and `on_response_header_done` do nothing. -/
def instr : ResponseAction → Instr ResponseState
  | .mark => .set .mark
  | .startField => .set .fieldStart
  | .writeField => .setLen
  | .writeContentLen => .pointer .mark fun ptr _ => writeContentLen ptr
  | .writeConnectionClose => .plain fun s => { s with close := true }
  | .writeValue => .field onResponseHttpFiled
  | .reasonPhrase => .element .mark onResponseReason
  | .statusCode => .pointer .mark fun ptr _ => onResponseStatus ptr
  | .httpVersion => .pointer .mark onResponseVersion
  | .chunkSize => .pointer .mark fun ptr _ => chunkSize ptr
  | .transChunked => .plain fun s => { s with chunked := true }
  | .done => .finish (fun _ => false) fun _ s => s

end ResponseState

def responseScanner : Scanner ResponseAction ResponseState where
  table := responseTable
  breaks a := a = .done
  instr := ResponseState.instr

namespace HttpResponseParser

/-- `httpclient_parser_init`, which leaves the message and `m_error` alone. -/
def init (s : HttpResponseParser) : HttpResponseParser where
  cs := 1
  nread := 0
  regs :=
    { s.regs with mark := 0, fieldStart := 0, fieldLen := 0, bodyStart := 0 }
  state :=
    { s.state with contentLen := -1, chunked := false, chunksDone := false,
                   close := false }

def new : HttpResponseParser :=
  init
    { cs := 0, nread := 0
      regs := { mark := 0, fieldStart := 0, fieldLen := 0, queryStart := 0,
                bodyStart := 0 }
      state := { contentLen := 0, chunked := false, chunksDone := false,
                 close := false, data := .new, error := 0 } }

/-- `httpclient_parser_execute(parser, buffer, len, 0)`: the count, or `-1` if
one of the checks at the end fails. -/
def execute (s : HttpResponseParser) (buffer : List UInt8) :
    Except (Thrown ResponseState) (HttpResponseParser × ℤ) :=
  -- `assert(pe - p == (int)len - (int)off)`
  if 2147483648 ≤ buffer.length then .error ⟨.assertion, s.state⟩
  else
    match responseScanner.scan false buffer s.cs (s.regs.reset, s.state) with
    | .error e => .error e
    | .ok (p, cs, regs, state) =>
        let s' : HttpResponseParser := { cs, nread := p, regs, state }
        if p ≤ buffer.length ∧ regs.bodyStart ≤ buffer.length then
          if regs.mark < buffer.length ∧ regs.fieldLen ≤ buffer.length ∧
              regs.fieldStart < buffer.length then .ok (s', p)
          else .ok (s', -1)
        else .error ⟨.assertion, state⟩

/-- `excute(data, len, chunk)`: the parser, the count returned, and the bytes
left at the front of the buffer. The count `-1` is a huge `size_t`: the
`memmove` then runs out of the buffer. -/
def excute (chunk : Bool) (s : HttpResponseParser) (data : List UInt8) :
    Except (Thrown ResponseState) (HttpResponseParser × ℕ × List UInt8) :=
  match execute (if chunk then s.init else s) data with
  | .error e => .error e
  | .ok (s', offset) =>
      if offset = -1 then .error ⟨.outOfBounds, s'.state⟩
      else .ok (s', offset.toNat, data.drop offset.toNat)

def hasAutomatonError (s : HttpResponseParser) : Bool := s.cs = 0

/-- `httpclient_parser_finish`: only the first of the final states counts as
finished. -/
def isFinished (s : HttpResponseParser) : ℤ :=
  if s.hasAutomatonError then -1 else if s.cs = 120 then 1 else 0

def hasError (s : HttpResponseParser) : Bool :=
  s.hasAutomatonError || s.state.error ≠ 0

/-! ## What a call returns -/

theorem scan_eq {buffer : List UInt8} {cs : ℕ} (hcs : cs ≠ 0)
    (g : Registers × ResponseState) :
    responseScanner.scan false buffer cs g =
      exec responseTable false responseScanner.breaks
        (responseScanner.act buffer) buffer 0 cs g := by
  unfold Scanner.scan
  rw [if_neg fun h => hcs h.2]
  rfl

/-- A call on a buffer with bytes in it: the assertions and the checks hold. -/
theorem execute_of_exec {s : HttpResponseParser} {buffer : List UInt8}
    {p cs : ℕ} {s' : Registers × ResponseState} (hne : buffer ≠ [])
    (hlen : buffer.length < 2147483648) (hcs : s.cs ≠ 0)
    (hbody : s.regs.bodyStart ≤ buffer.length)
    (hexec : exec responseTable false responseScanner.breaks
      (responseScanner.act buffer) buffer 0 s.cs (s.regs.reset, s.state) =
        .ok (p, cs, s')) :
    s.execute buffer =
      .ok ({ cs, nread := p, regs := s'.1, state := s'.2 }, (p : ℤ)) := by
  obtain ⟨hb, hp⟩ := responseScanner.exec_bounded hne hlen hbody hexec
  unfold execute
  rw [if_neg (by omega), scan_eq hcs, hexec]
  have hchecks : s'.1.mark < buffer.length ∧ s'.1.fieldLen ≤ buffer.length ∧
      s'.1.fieldStart < buffer.length :=
    ⟨hb.mark_lt, hb.fieldLen_le, hb.fieldStart_lt⟩
  simp only [if_pos hchecks, if_pos (And.intro hp hb.bodyStart_le)]

theorem excute_of_execute {s s' : HttpResponseParser} {buffer : List UInt8}
    {b : Bool} {p : ℕ}
    (h : execute (if b then s.init else s) buffer = .ok (s', (p : ℤ))) :
    s.excute b buffer = .ok (s', p, buffer.drop p) := by
  unfold excute
  rw [h]
  dsimp only
  rw [if_neg (by omega), Int.toNat_natCast]

/-- A call that returns has scanned its buffer. -/
theorem exec_of_excute {s s' : HttpResponseParser} {buffer tail : List UInt8}
    {p : ℕ} (hcs : s.cs ≠ 0)
    (h : s.excute false buffer = .ok (s', p, tail)) :
    buffer.length < 2147483648 ∧
      exec responseTable false responseScanner.breaks
        (responseScanner.act buffer) buffer 0 s.cs (s.regs.reset, s.state) =
          .ok (p, s'.cs, s'.regs, s'.state) := by
  rw [← scan_eq hcs]
  unfold excute execute at h
  simp only [Bool.false_eq_true, if_false] at h
  by_cases hlen : 2147483648 ≤ buffer.length
  · simp [if_pos hlen] at h
  · refine ⟨by omega, ?_⟩
    rw [if_neg hlen] at h
    cases hres : responseScanner.scan false buffer s.cs (s.regs.reset, s.state) with
    | error e => simp [hres] at h
    | ok out =>
        obtain ⟨p', cs', regs, state⟩ := out
        simp only [hres] at h
        split_ifs at h with hassert hchecks
        · simp only [if_neg (show ¬((p' : ℤ) = -1) by omega), Except.ok.injEq,
            Prod.mk.injEq, Int.toNat_natCast] at h
          obtain ⟨rfl, rfl, -⟩ := h
          rfl
        · simp at h

theorem drop_of_excute {s s' : HttpResponseParser} {buffer tail : List UInt8}
    {b : Bool} {p : ℕ} (h : s.excute b buffer = .ok (s', p, tail)) :
    tail = buffer.drop p := by
  unfold excute at h
  cases hexe : execute (if b then s.init else s) buffer with
  | error e => rw [hexe] at h; cases h
  | ok r =>
      rw [hexe] at h
      dsimp only at h
      split_ifs at h
      cases h
      rfl

end HttpResponseParser

end Http

end Skt
