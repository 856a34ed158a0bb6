import Skt.Http.Segments
import Skt.Http.RequestParser
import Skt.Http.ResponseParser

/-!
# Requests and responses in pieces

What the two parsers make of a header block that arrives in pieces. A register
that is reset at the start of a call loses the token that is still open: the
block is read as in one call if no cut falls into a token.
-/

namespace Skt

set_option maxRecDepth 4000

namespace Http

open Lib Lib.CString Lib.Ragel

theorem eq_thirty_two_of_fits {A : Type} {cond : Bool} {row : Row A} {c : UInt8}
    (hon : row.on = [(32, 32)]) (hfits : row.fits cond c = true) : c = 32 := by
  simp only [Row.fits, hon, List.any_cons, List.any_nil, Bool.or_false,
    Bool.and_eq_true, decide_eq_true_eq] at hfits
  rw [← UInt8.toNat_inj]
  exact le_antisymm hfits.2.2 hfits.2.1

/-- `strncmp` looks at no more bytes than it is told. -/
theorem strncmpEq_length (l m m' b : List UInt8) (c : UInt8) :
    strncmpEq l.length (l ++ c :: m) b = strncmpEq l.length (l ++ c :: m') b :=
  strncmpEq_take _ _ _ (le_refl _)

/-! ## Requests -/

namespace RequestState

def message (s : RequestState) : HttpRequest × ℕ := (s.data, s.error)

/-- `CharsToHttpMethod` ignores the length but stops at a blank. -/
def stops (row : Row RequestAction) (a : RequestAction) (_ : Bool) : Bool :=
  match a with
  | .requestMethod => row.on = [(32, 32)]
  | _ => true

theorem onRequestMethod_message {l m m' : List UInt8} {d d' : RequestState}
    (h : d.message = d'.message) :
    (onRequestMethod (l ++ 32 :: m) d).message =
      (onRequestMethod (l ++ 32 :: m') d').message := by
  simp only [message, Prod.mk.injEq] at h
  simp only [onRequestMethod, charsToHttpMethod_stop l m m']
  split_ifs <;> simp [message, h.1, h.2]

theorem onRequestVersion_message {l m m' : List UInt8} {c : UInt8}
    {d d' : RequestState} (h : d.message = d'.message) :
    (onRequestVersion (l ++ c :: m) l.length d).message =
      (onRequestVersion (l ++ c :: m') l.length d').message := by
  simp only [message, Prod.mk.injEq] at h
  simp only [onRequestVersion, strncmpEq_length l m m']
  split_ifs <;> simp [message, h.1, h.2]

theorem requestScanner_lawful :
    requestScanner.Lawful message stops fun _ => false where
  error_state := rfl
  start_state := rfl
  checked := by decide
  set := by
    intro a r h
    cases a <;> cases h <;> decide
  element := by
    intro a r f h
    cases a <;> cases h <;>
      exact ⟨by decide, fun x d d' hm => by
        simp only [message, Prod.mk.injEq] at hm
        simp [message, onRequestFragment, onRequestQuery, onRequestPath, hm.1,
          hm.2]⟩
  pointer := by
    intro a r f h
    cases a <;> cases h
    · refine ⟨rfl, fun {cond row k l c} m m' {d d'} hstop hfits _ hm => ?_⟩
      have hon : row.on = [(32, 32)] := by simpa [stops] using hstop
      rw [eq_thirty_two_of_fits hon hfits]
      exact onRequestMethod_message hm
    · exact ⟨rfl, fun m m' _ _ _ _ _ hm => onRequestVersion_message hm⟩
  field := by
    intro a f h
    cases a <;> cases h
    intro x y d d' hm
    simp only [message, Prod.mk.injEq] at hm
    simp [message, onRequestHttpFiled, hm.1, hm.2]
  plain := by
    intro a f h d
    cases a <;> cases h <;> rfl
  finish := by
    intro a b f h
    cases a <;> cases h
    refine ⟨by decide, fun n d => ?_⟩
    simp only [message]
    split_ifs <;> simp only

end RequestState

namespace HttpRequestParser

def view : Scanner.View HttpRequestParser RequestState :=
  ⟨cs, regs, state, uriRelaxed⟩

theorem view_drives : requestScanner.Drives view excute :=
  fun hne hlen hcs hbody hex =>
    ⟨_, excute_of_exec hne hlen hcs hbody hex, rfl, rfl, rfl, rfl⟩

/-- The message, `m_error` and the two flags. -/
def outcome (s : HttpRequestParser) : HttpRequest × ℕ × Bool × ℤ :=
  (s.state.data, s.state.error, s.hasError, s.isFinished)

theorem outcome_congr {s s' : HttpRequestParser}
    (hmsg : s'.state.message = s.state.message) (hcs : s'.cs = s.cs) :
    s'.outcome = s.outcome := by
  obtain ⟨hdata, herror⟩ := Prod.mk.inj hmsg
  rw [outcome, outcome, hdata, herror, hasError, hasError, isFinished,
    isFinished, hasAutomatonError, hasAutomatonError, hcs, herror]

/-- A request header block: one call reads it to its last byte and stops there
in a final state. -/
def Block (queryStart : ℕ) (uriRelaxed : Bool) (block : List UInt8) : Prop :=
  ∃ s, (new queryStart uriRelaxed).excute block = .ok (s, block.length, []) ∧
    348 ≤ s.cs

def whole (queryStart : ℕ) (uriRelaxed : Bool) (block : List UInt8) :
    Except (Thrown RequestState) (HttpRequest × ℕ × Bool × ℤ) :=
  ((new queryStart uriRelaxed).excute block).map fun r => r.1.outcome

def inPieces (queryStart : ℕ) (uriRelaxed : Bool) (pieces : List (List UInt8)) :
    Except (Thrown RequestState) (HttpRequest × ℕ × Bool × ℤ) :=
  (feed excute (new queryStart uriRelaxed) [] pieces).map fun r => r.1.outcome

theorem inPieces_eq {queryStart : ℕ} {uriRelaxed : Bool}
    {pieces : List (List UInt8)} (hne : ∀ q ∈ pieces, q ≠ [])
    (hblock : Block queryStart uriRelaxed pieces.flatten)
    (hcut : Uncut (requestScanner.tokens uriRelaxed pieces.flatten)
      (cuts 0 pieces)) :
    inPieces queryStart uriRelaxed pieces =
      whole queryStart uriRelaxed pieces.flatten := by
  obtain ⟨s, hs, hfinal⟩ := hblock
  have hnil : pieces.flatten ≠ [] := by
    intro h
    rw [h] at hs
    cases hs
    exact absurd hfinal (by simp [new])
  obtain ⟨hlen, hex⟩ := exec_of_excute hnil (by simp [new]) hs
  obtain ⟨s', hfeed, hmsg, hcs⟩ := Scanner.feed_eq
    RequestState.requestScanner_lawful view_drives hne
    (s := new queryStart uriRelaxed) hlen rfl rfl hcut hex
  rw [inPieces, whole, hfeed, hs]
  exact congrArg Except.ok (outcome_congr hmsg hcs)

end HttpRequestParser

/-! ## Responses -/

namespace ResponseState

def message (s : ResponseState) : HttpResponse × ℕ := (s.data, s.error)

/-- `atoi` ignores the length but stops at a blank behind a digit. -/
def stops (row : Row ResponseAction) (a : ResponseAction) (digit : Bool) : Bool :=
  match a with
  | .statusCode => digit && decide (row.on = [(32, 32)])
  | _ => true

theorem onResponseStatus_message {l m m' : List UInt8} {d d' : ResponseState}
    (hdigit : ((l ++ [32]).head?.bind (digit 10)).isSome)
    (h : d.message = d'.message) :
    (onResponseStatus (l ++ 32 :: m) d).message =
      (onResponseStatus (l ++ 32 :: m') d').message := by
  obtain ⟨hdata, herror⟩ := Prod.mk.inj h
  cases l with
  | nil => exact absurd hdigit (by decide)
  | cons x l =>
      have hx : (digit 10 x).isSome := hdigit
      have hatoi : atoi (x :: l ++ 32 :: m) = atoi (x :: l ++ 32 :: m') :=
        atoi_stop hx (by decide) l m m'
      simp only [onResponseStatus, message, hatoi, hdata, herror]

theorem onResponseVersion_message {l m m' : List UInt8} {c : UInt8}
    {d d' : ResponseState} (h : d.message = d'.message) :
    (onResponseVersion (l ++ c :: m) l.length d).message =
      (onResponseVersion (l ++ c :: m') l.length d').message := by
  obtain ⟨hdata, herror⟩ := Prod.mk.inj h
  simp only [onResponseVersion, strncmpEq_length l m m']
  split_ifs <;> simp only [message, hdata, herror]

theorem responseScanner_lawful :
    responseScanner.Lawful message stops fun cs => cs = 17 where
  error_state := rfl
  start_state := rfl
  checked := by decide
  set := by
    intro a r h
    cases a <;> cases h <;> decide
  element := by
    intro a r f h
    cases a <;> cases h
    refine ⟨by decide, fun x d d' hm => ?_⟩
    obtain ⟨hdata, herror⟩ := Prod.mk.inj hm
    simp only [message, onResponseReason, hdata, herror]
  pointer := by
    intro a r f h
    cases a <;> cases h <;>
      refine ⟨rfl, fun {cond row k l c} m m' {d d'} hstop hfits hd hm => ?_⟩
    · simpa only [message, writeContentLen] using hm
    · simp only [stops, Bool.and_eq_true, decide_eq_true_eq] at hstop
      have hc := eq_thirty_two_of_fits hstop.2 hfits
      subst hc
      exact onResponseStatus_message (hd hstop.1) hm
    · exact onResponseVersion_message hm
    · simpa only [message, chunkSize] using hm
  field := by
    intro a f h
    cases a <;> cases h
    intro x y d d' hm
    obtain ⟨hdata, herror⟩ := Prod.mk.inj hm
    simp only [message, onResponseHttpFiled, hdata, herror]
  plain := by
    intro a f h d
    cases a <;> cases h <;> rfl
  finish := by
    intro a b f h
    cases a <;> cases h
    exact ⟨by decide, fun n d => rfl⟩

end ResponseState

namespace HttpResponseParser

def view : Scanner.View HttpResponseParser ResponseState :=
  ⟨cs, regs, state, fun _ => false⟩

theorem view_drives : responseScanner.Drives view (excute false) :=
  fun hne hlen hcs hbody hex =>
    ⟨_, excute_of_execute (execute_of_exec hne hlen hcs hbody hex), rfl, rfl,
      rfl, rfl⟩

/-- The message, `m_error` and the two flags. -/
def outcome (s : HttpResponseParser) : HttpResponse × ℕ × Bool × ℤ :=
  (s.state.data, s.state.error, s.hasError, s.isFinished)

theorem outcome_congr {s s' : HttpResponseParser}
    (hmsg : s'.state.message = s.state.message) (hcs : s'.cs = s.cs) :
    s'.outcome = s.outcome := by
  obtain ⟨hdata, herror⟩ := Prod.mk.inj hmsg
  rw [outcome, outcome, hdata, herror, hasError, hasError, isFinished,
    isFinished, hasAutomatonError, hasAutomatonError, hcs, herror]

/-- A response header block: one call reads it to its last byte and stops there
in a final state. -/
def Block (block : List UInt8) : Prop :=
  ∃ s, new.excute false block = .ok (s, block.length, []) ∧ 120 ≤ s.cs

def whole (block : List UInt8) :
    Except (Thrown ResponseState) (HttpResponse × ℕ × Bool × ℤ) :=
  (new.excute false block).map fun r => r.1.outcome

def inPieces (pieces : List (List UInt8)) :
    Except (Thrown ResponseState) (HttpResponse × ℕ × Bool × ℤ) :=
  (feed (excute false) new [] pieces).map fun r => r.1.outcome

theorem inPieces_eq {pieces : List (List UInt8)} (hne : ∀ q ∈ pieces, q ≠ [])
    (hblock : Block pieces.flatten)
    (hcut : Uncut (responseScanner.tokens false pieces.flatten)
      (cuts 0 pieces)) :
    inPieces pieces = whole pieces.flatten := by
  obtain ⟨s, hs, -⟩ := hblock
  obtain ⟨hlen, hex⟩ := exec_of_excute (by decide) hs
  obtain ⟨s', hfeed, hmsg, hcs⟩ := Scanner.feed_eq
    ResponseState.responseScanner_lawful view_drives hne
    (s := new) hlen rfl rfl hcut hex
  rw [inPieces, whole, hfeed, hs]
  exact congrArg Except.ok (outcome_congr hmsg hcs)

end HttpResponseParser

/-! ## Both parsers -/

/-- **Header blocks in pieces.** No cut falls into a token: the message and the
flags are those of one call on the whole block. -/
theorem pieces_read_as_whole (pieces : List (List UInt8))
    (hne : ∀ q ∈ pieces, q ≠ []) :
    (∀ (queryStart : ℕ) (uriRelaxed : Bool),
      HttpRequestParser.Block queryStart uriRelaxed pieces.flatten →
      Uncut (requestScanner.tokens uriRelaxed pieces.flatten) (cuts 0 pieces) →
      HttpRequestParser.inPieces queryStart uriRelaxed pieces =
        HttpRequestParser.whole queryStart uriRelaxed pieces.flatten) ∧
    (HttpResponseParser.Block pieces.flatten →
      Uncut (responseScanner.tokens false pieces.flatten) (cuts 0 pieces) →
      HttpResponseParser.inPieces pieces =
        HttpResponseParser.whole pieces.flatten) :=
  ⟨fun _ _ => HttpRequestParser.inPieces_eq hne,
    HttpResponseParser.inPieces_eq hne⟩

/-- Request line and header line, each cut in front of a token. -/
theorem pieces_read_as_whole_sample :
    HttpRequestParser.inPieces 0 false
        [bytes "GET ", bytes "/a?b ", bytes "HTTP/1.1\r\n",
          bytes "Host: c\r\n\r\n"] =
      HttpRequestParser.whole 0 false
        (bytes "GET /a?b HTTP/1.1\r\nHost: c\r\n\r\n") ∧
    HttpResponseParser.inPieces
        [bytes "HTTP/1.1 ", bytes "200 ", bytes "OK\r\n",
          bytes "Server: c\r\n", bytes "\r\n"] =
      HttpResponseParser.whole
        (bytes "HTTP/1.1 200 OK\r\nServer: c\r\n\r\n") := by
  constructor
  · exact (pieces_read_as_whole [bytes "GET ", bytes "/a?b ",
      bytes "HTTP/1.1\r\n", bytes "Host: c\r\n\r\n"] (by decide)).1
      0 false ⟨_, by rfl, by decide⟩ (by decide)
  · exact (pieces_read_as_whole [bytes "HTTP/1.1 ", bytes "200 ",
      bytes "OK\r\n", bytes "Server: c\r\n", bytes "\r\n"]
      (by decide)).2 ⟨_, by rfl, by decide⟩ (by decide)

/-- A cut behind the first byte of the method: the callback gets `ET` and the
error is `1000`. -/
theorem pieces_cut_method :
    HttpRequestParser.Block 0 false (bytes "GET / HTTP/1.1\r\n\r\n") ∧
    [bytes "G", bytes "ET / HTTP/1.1\r\n\r\n"].flatten =
      bytes "GET / HTTP/1.1\r\n\r\n" ∧
    HttpRequestParser.inPieces 0 false
        [bytes "G", bytes "ET / HTTP/1.1\r\n\r\n"] ≠
      HttpRequestParser.whole 0 false (bytes "GET / HTTP/1.1\r\n\r\n") := by
  refine ⟨⟨_, by rfl, by decide⟩, by decide, ?_⟩
  decide

end Http

end Skt
