import Skt.Http.Scanner
import Skt.Http.RequestTable

/-!
# `HttpRequestParser`

`http_parser_execute` with the callbacks of `http_parser.cpp`. A call starts
with `mark`, `field_start` and `field_len` at `0` but in the state the last
call ended in, and with the `query_start` of that call.
-/

namespace Skt

namespace Http

open Lib Lib.CString Lib.Ragel

/-- The message and the flags of a request parser. -/
structure RequestState where
  contentLen : ℤ
  xmlSent : Bool
  jsonSent : Bool
  data : HttpRequest
  error : ℕ
  deriving DecidableEq, Repr

/-- `HttpRequestParser` with its `http_parser`. -/
structure HttpRequestParser where
  cs : ℕ
  nread : ℕ
  uriRelaxed : Bool
  regs : Registers
  state : RequestState
  deriving DecidableEq, Repr

namespace RequestState

/-! ## Callbacks -/

def onRequestMethod (ptr : List UInt8) (s : RequestState) : RequestState :=
  let m := charsToHttpMethod ptr
  if m = .INVALID_METHOD then { s with error := 1000 }
  else { s with data.method := m }

def onRequestFragment (str : List UInt8) (s : RequestState) : RequestState :=
  { s with data.fragment := str }

def onRequestPath (str : List UInt8) (s : RequestState) : RequestState :=
  { s with data.path := str }

def onRequestQuery (str : List UInt8) (s : RequestState) : RequestState :=
  { s with data.query := str }

def onRequestVersion (ptr : List UInt8) (length : ℕ) (s : RequestState) :
    RequestState :=
  if strncmpEq length ptr (bytes "HTTP/1.1") then { s with data.version := 0x11 }
  else if strncmpEq length ptr (bytes "HTTP/1.0") then
    { s with data.version := 0x10 }
  else { s with error := 1001 }

def onRequestHttpFiled (key v : List UInt8) (s : RequestState) : RequestState :=
  { s with data.headers := s.data.headers.set key v }

/-! ## Actions -/

/-- The actions of `http11_parser.rl`; `on_request_uri` and
`on_request_header_done` do nothing. -/
def instr : RequestAction → Instr RequestState
  | .mark => .set .mark
  | .startField => .set .fieldStart
  | .writeField => .setLen
  | .writeValue => .field onRequestHttpFiled
  | .requestMethod => .pointer .mark fun ptr _ => onRequestMethod ptr
  | .requestUri => .plain id
  | .fragment => .element .mark onRequestFragment
  | .startQuery => .set .queryStart
  | .queryString => .element .queryStart onRequestQuery
  | .httpVersion => .pointer .mark onRequestVersion
  | .requestPath => .element .mark onRequestPath
  | .xml => .plain fun s => { s with xmlSent := true }
  | .json => .plain fun s => { s with jsonSent := true }
  | .done =>
      .finish (fun s => s.xmlSent || s.jsonSent) fun len s =>
        if s.xmlSent || s.jsonSent then
          { s with contentLen := toInt32 (len + 1) }
        else s

end RequestState

def requestScanner : Scanner RequestAction RequestState where
  table := requestTable
  breaks a := a = .done
  instr := RequestState.instr

namespace HttpRequestParser

/-- A new parser in memory that holds `queryStart` and `uriRelaxed`:
`http_parser_init` and the constructor. Neither writes these two fields. -/
def new (queryStart : ℕ) (uriRelaxed : Bool) : HttpRequestParser where
  cs := 1
  nread := 0
  uriRelaxed
  regs := { mark := 0, fieldStart := 0, fieldLen := 0, queryStart, bodyStart := 0 }
  state :=
    { contentLen := 0, xmlSent := false, jsonSent := false, data := .new,
      error := 0 }

/-- The assertions at the end of a call. -/
def Asserts (len nread : ℕ) (g : Registers) : Prop :=
  nread ≤ len ∧ g.bodyStart ≤ len ∧ g.mark < len ∧ g.fieldLen ≤ len ∧
    g.fieldStart < len

instance (len nread : ℕ) (g : Registers) : Decidable (Asserts len nread g) :=
  inferInstanceAs (Decidable (_ ∧ _))

/-- `http_parser_execute(parser, buffer, len, 0)`. -/
def execute (s : HttpRequestParser) (buffer : List UInt8) :
    Except (Thrown RequestState) (HttpRequestParser × ℕ) :=
  if buffer.length = 0 then .ok (s, 0)
  -- `assert(pe - p == (int)len - (int)off)`
  else if 2147483648 ≤ buffer.length then .error ⟨.assertion, s.state⟩
  else
    match requestScanner.scan s.uriRelaxed buffer s.cs (s.regs.reset, s.state) with
    | .error e => .error e
    | .ok (p, cs, regs, state) =>
        -- The old `cs` is tested: an error state is not left.
        let cs := if s.cs = 0 then s.cs else cs
        if Asserts buffer.length p regs then
          .ok ({ s with cs, nread := p, regs, state }, p)
        else .error ⟨.assertion, state⟩

def hasAutomatonError (s : HttpRequestParser) : Bool := s.cs = 0

/-- `http_parser_finish`. -/
def isFinished (s : HttpRequestParser) : ℤ :=
  if s.hasAutomatonError then -1 else if 348 ≤ s.cs then 1 else 0

/-- Both errors have to be there. -/
def hasError (s : HttpRequestParser) : Bool :=
  s.state.error ≠ 0 && s.hasAutomatonError

/-- `excute(data, len)`: the parser, the count returned, and the bytes left at
the front of the buffer. -/
def excute (s : HttpRequestParser) (data : List UInt8) :
    Except (Thrown RequestState) (HttpRequestParser × ℕ × List UInt8) :=
  match s.execute data with
  | .error e => .error e
  | .ok (s', offset) => .ok (s', offset, data.drop offset)

/-! ## What a call returns -/

/-- A call that scans its buffer: the assertions hold. -/
theorem excute_of_exec {s : HttpRequestParser} {buffer : List UInt8} {p cs : ℕ}
    {s' : Registers × RequestState} (hne : buffer ≠ [])
    (hlen : buffer.length < 2147483648) (hcs : s.cs ≠ 0)
    (hbody : s.regs.bodyStart ≤ buffer.length)
    (hexec : exec requestTable s.uriRelaxed requestScanner.breaks
      (requestScanner.act buffer) buffer 0 s.cs (s.regs.reset, s.state) =
        .ok (p, cs, s')) :
    s.excute buffer =
      .ok ({ s with cs, nread := p, regs := s'.1, state := s'.2 }, p,
        buffer.drop p) := by
  have hpos : 0 < buffer.length := List.length_pos_iff.mpr hne
  obtain ⟨hb, hp⟩ := requestScanner.exec_bounded hne hlen hbody hexec
  have hscan : requestScanner.scan s.uriRelaxed buffer s.cs
      (s.regs.reset, s.state) = .ok (p, cs, s') := by
    unfold Scanner.scan
    rw [if_neg fun h => hcs h.2]
    exact hexec
  have hassert : Asserts buffer.length p s'.1 :=
    ⟨hp, hb.bodyStart_le, hb.mark_lt, hb.fieldLen_le, hb.fieldStart_lt⟩
  unfold excute execute
  rw [if_neg (by omega), if_neg (by omega), hscan]
  simp only [if_neg hcs, if_pos hassert]

/-- A call that returns has scanned its buffer. -/
theorem exec_of_excute {s s' : HttpRequestParser} {buffer tail : List UInt8}
    {p : ℕ} (hne : buffer ≠ []) (hcs : s.cs ≠ 0)
    (h : s.excute buffer = .ok (s', p, tail)) :
    buffer.length < 2147483648 ∧
      exec requestTable s.uriRelaxed requestScanner.breaks
        (requestScanner.act buffer) buffer 0 s.cs (s.regs.reset, s.state) =
          .ok (p, s'.cs, s'.regs, s'.state) := by
  have hpos : 0 < buffer.length := List.length_pos_iff.mpr hne
  unfold excute execute at h
  rw [if_neg (by omega)] at h
  split_ifs at h with hlen
  refine ⟨by omega, ?_⟩
  have hscan : requestScanner.scan s.uriRelaxed buffer s.cs
      (s.regs.reset, s.state) = exec requestTable s.uriRelaxed
        requestScanner.breaks (requestScanner.act buffer) buffer 0 s.cs
        (s.regs.reset, s.state) := by
    unfold Scanner.scan
    rw [if_neg fun h => hcs h.2]
    rfl
  rw [← hscan]
  cases hres : requestScanner.scan s.uriRelaxed buffer s.cs
      (s.regs.reset, s.state) with
  | error e => simp [hres] at h
  | ok out =>
      obtain ⟨p', cs', regs, state⟩ := out
      simp only [hres] at h
      split_ifs at h with hassert
      simp only [Except.ok.injEq, Prod.mk.injEq] at h
      obtain ⟨rfl, rfl, -⟩ := h
      rfl

theorem drop_of_excute {s s' : HttpRequestParser} {buffer tail : List UInt8}
    {p : ℕ} (h : s.excute buffer = .ok (s', p, tail)) : tail = buffer.drop p := by
  unfold excute at h
  cases hexe : s.execute buffer with
  | error e => rw [hexe] at h; cases h
  | ok r => rw [hexe] at h; cases h; rfl

end HttpRequestParser

end Http

end Skt
