import Skt.Lib.CString

/-!
# HTTP messages

The parts of `HttpRequest` and `HttpResponse` that are parsed or sent, with the
defaults of the constructors. The parsers leave `m_close` as it is.
-/

namespace Skt

namespace Http

open Lib Lib.CString

/-! ## Methods -/

inductive HttpMethod
  | DELETE | GET | HEAD | POST | PUT | CONNECT | OPTIONS | TRACE | COPY | LOCK
  | MKCOL | MOVE | PROPFIND | PROPPATCH | SEARCH | UNLOCK | BIND | REBIND
  | UNBIND | ACL | REPORT | MKACTIVITY | CHECKOUT | MERGE | MSEARCH | NOTIFY
  | SUBSCRIBE | UNSUBSCRIBE | PATCH | PURGE | MKCALENDAR | LINK | UNLINK
  | SOURCE | INVALID_METHOD
  deriving DecidableEq, Repr

/-- `HTTP_METHOD_MAP`, in the order of the source. -/
def httpMethodMap : List (HttpMethod × List UInt8) :=
  [(.DELETE, bytes "DELETE"), (.GET, bytes "GET"), (.HEAD, bytes "HEAD"),
    (.POST, bytes "POST"), (.PUT, bytes "PUT"), (.CONNECT, bytes "CONNECT"),
    (.OPTIONS, bytes "OPTIONS"), (.TRACE, bytes "TRACE"),
    (.COPY, bytes "COPY"), (.LOCK, bytes "LOCK"), (.MKCOL, bytes "MKCOL"),
    (.MOVE, bytes "MOVE"), (.PROPFIND, bytes "PROPFIND"),
    (.PROPPATCH, bytes "PROPPATCH"), (.SEARCH, bytes "SEARCH"),
    (.UNLOCK, bytes "UNLOCK"), (.BIND, bytes "BIND"),
    (.REBIND, bytes "REBIND"), (.UNBIND, bytes "UNBIND"), (.ACL, bytes "ACL"),
    (.REPORT, bytes "REPORT"), (.MKACTIVITY, bytes "MKACTIVITY"),
    (.CHECKOUT, bytes "CHECKOUT"), (.MERGE, bytes "MERGE"),
    (.MSEARCH, bytes "M-SEARCH"), (.NOTIFY, bytes "NOTIFY"),
    (.SUBSCRIBE, bytes "SUBSCRIBE"), (.UNSUBSCRIBE, bytes "UNSUBSCRIBE"),
    (.PATCH, bytes "PATCH"), (.PURGE, bytes "PURGE"),
    (.MKCALENDAR, bytes "MKCALENDAR"), (.LINK, bytes "LINK"),
    (.UNLINK, bytes "UNLINK"), (.SOURCE, bytes "SOURCE")]

/-- `CharsToHttpMethod`: the first name of the map that the string starts
with. -/
def charsToHttpMethod (m : List UInt8) : HttpMethod :=
  match httpMethodMap.find? fun e => startsWith e.2 m with
  | some e => e.1
  | none => .INVALID_METHOD

/-- No method name contains a blank, so a blank ends what is read. -/
theorem charsToHttpMethod_stop (l m m' : List UInt8) :
    charsToHttpMethod (l ++ 32 :: m) = charsToHttpMethod (l ++ 32 :: m') := by
  have hblank : ∀ e ∈ httpMethodMap, (32 : UInt8) ∉ e.2 := by decide
  have hfind : httpMethodMap.find? (fun e => startsWith e.2 (l ++ 32 :: m)) =
      httpMethodMap.find? fun e => startsWith e.2 (l ++ 32 :: m') :=
    List.find?_congr fun e he => startsWith_stop (hblank e he) l m m'
  rw [charsToHttpMethod, charsToHttpMethod, hfind]

/-! ## Headers -/

/-- `MapType`: a map ordered by `CaseInsensitiveLess`, as the list of its
entries in that order. -/
abbrev MapType := List (List UInt8 × List UInt8)

/-- `m[key] = v`: an entry that is there keeps its spelling of the key. -/
def MapType.set (key v : List UInt8) : MapType → MapType
  | [] => [(key, v)]
  | e :: m =>
      if strcasecmpLess e.1 key then e :: MapType.set key v m
      else if strcasecmpLess key e.1 then (key, v) :: e :: m
      else (e.1, v) :: m

def MapType.find (key : List UInt8) (m : MapType) : Option (List UInt8) :=
  (List.find? (fun e => !strcasecmpLess e.1 key && !strcasecmpLess key e.1) m).map
    Prod.snd

/-! ## Requests and responses -/

/-- The end of a line. -/
def crlf : List UInt8 := [13, 10]

structure HttpRequest where
  method : HttpMethod
  version : ℕ
  close : Bool
  path : List UInt8
  query : List UInt8
  fragment : List UInt8
  body : List UInt8
  headers : MapType
  deriving DecidableEq, Repr

def HttpRequest.new : HttpRequest where
  method := .GET
  version := 0x11
  close := true
  path := bytes "/"
  query := []
  fragment := []
  body := []
  headers := []

/-- `status` is an `HttpStatus`, which the parser fills with any `int`. -/
structure HttpResponse where
  status : ℤ
  version : ℕ
  close : Bool
  reason : List UInt8
  body : List UInt8
  headers : MapType
  deriving DecidableEq, Repr

def HttpResponse.new : HttpResponse where
  status := 200
  version := 0x11
  close := true
  reason := []
  body := []
  headers := []

/-! ## Strings -/

/-- What ends a call other than a return: a `std::length_error`, a string that
cannot be allocated, a failed `assert`, or a copy of bytes that are not in the
buffer. -/
inductive Fault
  | lengthError
  | badAlloc
  | assertion
  | outOfBounds
  deriving DecidableEq, Repr

/-- `LEN(AT, FPC)`: the distance of two positions as a `size_t`. -/
def lenOf (start p : ℕ) : ℕ := (((p : ℤ) - start) % 18446744073709551616).toNat

/-- `std::string(buffer + start, length)`; `max_size` is `2^63 - 1`. -/
def stdString (buffer : List UInt8) (start length : ℕ) :
    Except Fault (List UInt8) :=
  if 9223372036854775807 < length then .error .lengthError
  else if buffer.length < start + length then .error .outOfBounds
  else .ok ((buffer.drop start).take length)

theorem lenOf_add (o start p : ℕ) : lenOf (o + start) (o + p) = lenOf start p := by
  unfold lenOf
  congr 2
  push_cast
  ring

theorem lenOf_of_le {start p : ℕ} (h : start ≤ p)
    (hp : p < 18446744073709551616) : lenOf start p = p - start := by
  unfold lenOf
  rw [Int.emod_eq_of_lt (by omega) (by omega)]
  omega

/-- A negative distance wraps around, to a length no string has unless the
start lies outside any buffer. -/
theorem lt_start_of_lenOf_le {start p : ℕ} (h : p < start)
    (hlen : lenOf start p ≤ 9223372036854775807) : 9223372036854775807 < start := by
  by_contra hn
  unfold lenOf at hlen
  rw [← Int.add_emod_right, Int.emod_eq_of_lt (by omega) (by omega)] at hlen
  omega

/-- A string that lies in a buffer is the same in the input the buffer is a
part of. -/
theorem stdString_append {pre buffer post : List UInt8} {start length : ℕ}
    (h : start + length ≤ buffer.length) :
    stdString (pre ++ buffer ++ post) (pre.length + start) length =
      stdString buffer start length := by
  have hdrop : (pre ++ buffer ++ post).drop (pre.length + start) =
      buffer.drop start ++ post := by
    rw [List.append_assoc, List.drop_append, List.drop_eq_nil_of_le (by omega),
      List.nil_append, Nat.add_sub_cancel_left,
      List.drop_append_of_le_length (by omega)]
  unfold stdString
  rw [hdrop, List.take_append_of_le_length (by rw [List.length_drop]; omega),
    if_neg (show ¬(buffer.length < start + length) by omega),
    if_neg (show ¬((pre ++ buffer ++ post).length < pre.length + start + length) by
      simp only [List.length_append]
      omega)]

/-- `std::string(PTR_TO(AT), LEN(AT, FPC))` in a buffer is the same as in the
input the buffer is a part of. -/
theorem stdString_lenOf {pre buffer post : List UInt8} (start : ℕ) {p : ℕ}
    (hp : p ≤ buffer.length)
    (hlen : (pre ++ buffer ++ post).length ≤ 9223372036854775807) :
    stdString (pre ++ buffer ++ post) (pre.length + start) (lenOf start p) =
      stdString buffer start (lenOf start p) := by
  have hbuf : buffer.length ≤ (pre ++ buffer ++ post).length := by
    simp only [List.length_append]
    omega
  rcases Nat.lt_or_ge p start with hlt | hle
  · unfold stdString
    split_ifs with hmax hw hb hb
    · rfl
    · rfl
    · have := lt_start_of_lenOf_le hlt (by omega)
      omega
    · have := lt_start_of_lenOf_le hlt (by omega)
      omega
    · have := lt_start_of_lenOf_le hlt (by omega)
      omega
  · refine stdString_append ?_
    rw [lenOf_of_le hle (by omega)]
    omega

end Http

end Skt
