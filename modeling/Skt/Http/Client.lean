import Skt.Http.Dump
import Skt.Uri.Model

/-!
# Requests of the client

`HttpConnection::DoRequest` and `HttpConnectionPool::doRequest`, up to the request they
send. Both copy a map that tells the spellings of a name apart into the headers of the
request, which do not. They differ in how they come to the target: the one takes the path
of the `Uri`, the other joins path, query and fragment and makes that the path.
-/

namespace Skt

set_option maxRecDepth 4000

namespace Http

open Lib Lib.CString

/-- `std::map<std::string, std::string>`: the entries in the order of their keys. -/
structure StringMap where
  entries : List (List UInt8 × List UInt8)
  sorted : entries.Pairwise fun a b => lexLess a.1 b.1 = true

def HttpRequest.setHeader (key v : List UInt8) (r : HttpRequest) : HttpRequest :=
  { r with headers := r.headers.set key v }

def HttpRequest.setBody (body : List UInt8) (r : HttpRequest) : HttpRequest :=
  { r with body := body }

/-! ## The loop over the headers -/

/-- One turn of the loop, on `has_host` and the request. -/
def addHeader (x : Bool × HttpRequest) (e : List UInt8 × List UInt8) : Bool × HttpRequest :=
  if strcasecmpEq e.1 (bytes "connection") then
    (x.1, if strcasecmpEq e.2 (bytes "keep-alive") then { x.2 with close := false } else x.2)
  else
    (if !x.1 && strcasecmpEq e.1 (bytes "host") then !e.2.isEmpty else x.1,
      x.2.setHeader e.1 e.2)

/-- Behind the loop: the default host. -/
def orHost (host : List UInt8) (x : Bool × HttpRequest) : HttpRequest :=
  if x.1 then x.2 else x.2.setHeader (bytes "Host") host

/-- The headers and the body, with `host` as the default host. -/
def fill (headers : StringMap) (host body : List UInt8) (r : HttpRequest) : HttpRequest :=
  (orHost host (headers.entries.foldl addHeader (false, r))).setBody body

/-- `HttpConnection::DoRequest(method, uri, ...)`. -/
def HttpConnection.doRequest (method : HttpMethod) (uri : Uri) (headers : StringMap)
    (body : List UInt8) : HttpRequest :=
  fill headers uri.host body
    { HttpRequest.new with path := uri.getPath, method := method }

namespace HttpConnectionPool

/-- The host that a request gets for want of another: `m_vhost`, or `m_host`. -/
def defaultHost (host vhost : List UInt8) : List UInt8 := if vhost = [] then host else vhost

/-- `HttpConnectionPool::doRequest(method, url, ...)`. -/
def doRequest (host vhost : List UInt8) (method : HttpMethod) (url : List UInt8)
    (headers : StringMap) (body : List UInt8) : HttpRequest :=
  fill headers (defaultHost host vhost) body
    { HttpRequest.new with path := url, method := method, close := false }

/-- `HttpConnectionPool::doRequest(method, uri, ...)`. -/
def doRequestUri (host vhost : List UInt8) (method : HttpMethod) (uri : Uri)
    (headers : StringMap) (body : List UInt8) : HttpRequest :=
  doRequest host vhost method
    (uri.getPath ++ (if uri.query = [] then [] else bytes "?") ++ uri.query
      ++ (if uri.fragment = [] then [] else bytes "#") ++ uri.fragment) headers body

end HttpConnectionPool

/-! ## What the loop leaves alone -/

/-- The two requests agree in what stands in the request line. -/
def HttpRequest.SameLine (r r' : HttpRequest) : Prop :=
  r'.method = r.method ∧ r'.version = r.version ∧ r'.path = r.path ∧ r'.query = r.query ∧
    r'.fragment = r.fragment

theorem addHeader_sameLine (x : Bool × HttpRequest) (e : List UInt8 × List UInt8) :
    x.2.SameLine (addHeader x e).2 := by
  unfold addHeader
  split_ifs <;> exact ⟨rfl, rfl, rfl, rfl, rfl⟩

theorem foldl_sameLine : ∀ (entries : List (List UInt8 × List UInt8)) (x : Bool × HttpRequest),
    x.2.SameLine (entries.foldl addHeader x).2
  | [], _ => ⟨rfl, rfl, rfl, rfl, rfl⟩
  | e :: entries, x => by
      obtain ⟨hm, hv, hp, hq, hf⟩ := foldl_sameLine entries (addHeader x e)
      obtain ⟨hm', hv', hp', hq', hf'⟩ := addHeader_sameLine x e
      exact ⟨hm.trans hm', hv.trans hv', hp.trans hp', hq.trans hq', hf.trans hf'⟩

theorem fill_sameLine (headers : StringMap) (host body : List UInt8) (r : HttpRequest) :
    r.SameLine (fill headers host body r) := by
  have h := foldl_sameLine headers.entries (false, r)
  unfold fill orHost
  split_ifs
  · exact h
  · exact h

/-! ## The request line -/

/-- What stands between the method and the version. -/
def HttpRequest.target (r : HttpRequest) : List UInt8 :=
  r.path ++ (if r.query = [] then [] else bytes "?") ++ r.query
    ++ (if r.fragment = [] then [] else bytes "#") ++ r.fragment

def HttpRequest.requestLine (r : HttpRequest) : List UInt8 :=
  httpMethodToString r.method ++ bytes " " ++ r.target ++ bytes " " ++ dumpVersion r.version
    ++ crlf

/-- A request is written line by line, the request line first. -/
theorem dump_eq_requestLine (r : HttpRequest) : ∃ rest, r.dump = r.requestLine ++ rest := by
  refine ⟨bytes "connection: " ++ (if r.close then bytes "close" else bytes "keep=alive") ++ crlf
    ++ dumpHeaders (bytes ":") r.headers ++ dumpLength r.body ++ r.body, ?_⟩
  simp only [HttpRequest.dump, HttpRequest.head, HttpRequest.requestLine, HttpRequest.target,
    List.append_assoc]

theorem requestLine_of_sameLine {r r' : HttpRequest} (h : r.SameLine r') :
    r'.requestLine = r.requestLine := by
  obtain ⟨hm, hv, hp, hq, hf⟩ := h
  unfold HttpRequest.requestLine HttpRequest.target
  rw [hm, hv, hp, hq, hf]

/-- The request line has the path and query `t`; a fragment may follow them. -/
def Asks (method : HttpMethod) (t line : List UInt8) : Prop :=
  ∃ fragment : List UInt8, (fragment = [] ∨ fragment.head? = some 35) ∧
    line = httpMethodToString method ++ bytes " " ++ (t ++ fragment) ++ bytes " "
      ++ dumpVersion 0x11 ++ crlf

/-- The path and query of a `Uri`. -/
def pathAndQuery (u : Uri) : List UInt8 :=
  u.getPath ++ (if u.query = [] then [] else bytes "?" ++ u.query)

theorem asks_doRequest_iff (method : HttpMethod) (u : Uri) (headers : StringMap)
    (body : List UInt8) :
    Asks method (pathAndQuery u)
        (HttpConnection.doRequest method u headers body).requestLine ↔
      u.query = [] := by
  have hline : (HttpConnection.doRequest method u headers body).requestLine =
      httpMethodToString method ++ bytes " " ++ u.getPath ++ bytes " " ++ dumpVersion 0x11
        ++ crlf := by
    rw [HttpConnection.doRequest, requestLine_of_sameLine (fill_sameLine _ _ _ _)]
    simp [HttpRequest.requestLine, HttpRequest.target, HttpRequest.new]
  rw [hline, Asks, pathAndQuery]
  constructor
  · rintro ⟨fragment, -, heq⟩
    by_contra hquery
    -- the lines have different lengths
    have hlen := congrArg List.length heq
    simp only [if_neg hquery, List.length_append] at hlen
    have hmark : (bytes "?").length = 1 := rfl
    omega
  · intro hquery
    refine ⟨[], Or.inl rfl, ?_⟩
    rw [if_pos hquery, List.append_nil, List.append_nil]

theorem asks_doRequestUri (host vhost : List UInt8) (method : HttpMethod) (u : Uri)
    (headers : StringMap) (body : List UInt8) :
    Asks method (pathAndQuery u)
      (HttpConnectionPool.doRequestUri host vhost method u headers body).requestLine := by
  rw [HttpConnectionPool.doRequestUri, HttpConnectionPool.doRequest,
    requestLine_of_sameLine (fill_sameLine _ _ _ _)]
  refine ⟨(if u.fragment = [] then [] else bytes "#") ++ u.fragment, ?_, ?_⟩
  · by_cases hf : u.fragment = []
    · exact Or.inl (by rw [if_pos hf, hf]; rfl)
    · exact Or.inr (by rw [if_neg hf]; rfl)
  · by_cases hq : u.query = []
    · simp [HttpRequest.requestLine, HttpRequest.target, HttpRequest.new, pathAndQuery, hq]
    · simp [HttpRequest.requestLine, HttpRequest.target, HttpRequest.new, pathAndQuery, hq]

/-- **Path and query.** The pool always asks for the path and the query of the `Uri`.
`HttpConnection::DoRequest` sets the path only, so it does if there is no query. -/
theorem doRequest_target_iff (host vhost : List UInt8) (method : HttpMethod) (u : Uri)
    (headers : StringMap) (body : List UInt8) :
    (Asks method (pathAndQuery u)
        (HttpConnection.doRequest method u headers body).requestLine ∧
      Asks method (pathAndQuery u)
        (HttpConnectionPool.doRequestUri host vhost method u headers body).requestLine) ↔
      u.query = [] := by
  rw [asks_doRequest_iff]
  exact and_iff_left (asks_doRequestUri host vhost method u headers body)

/-- `http://h/s?q` is asked for as `/s`. -/
theorem doRequest_drops_query : ∃ u, Uri.create (bytes "http://h/s?q") = .ok (some u) ∧
    (HttpConnection.doRequest .GET u ⟨[], List.Pairwise.nil⟩ []).requestLine =
      bytes "GET /s HTTP/1.1\r\n" ∧
    (HttpConnectionPool.doRequestUri (bytes "h") [] .GET u ⟨[], List.Pairwise.nil⟩
      []).requestLine = bytes "GET /s?q HTTP/1.1\r\n" ∧
    ¬Asks .GET (pathAndQuery u)
      (HttpConnection.doRequest .GET u ⟨[], List.Pairwise.nil⟩ []).requestLine := by
  refine ⟨⟨bytes "http", [], bytes "h", bytes "/s", bytes "q", [], 0⟩, by decide, by decide,
    by decide, ?_⟩
  rw [asks_doRequest_iff]
  decide

/-! ## The host -/

/-- The values that a caller gives for `host`, in the order of the map. -/
def StringMap.hosts (m : StringMap) : List (List UInt8) :=
  (m.entries.filter fun e => strcasecmpEq e.1 (bytes "host")).map Prod.snd

/-- The caller asks for a connection that stays open. -/
def StringMap.KeepsAlive (m : StringMap) : Prop :=
  ∃ e ∈ m.entries, strcasecmpEq e.1 (bytes "connection") = true ∧
    strcasecmpEq e.2 (bytes "keep-alive") = true

/-- The request has a host, one of the caller's if there is any, and is kept open if the
caller says so. -/
def HttpRequest.Proper (headers : StringMap) (host : List UInt8) (r : HttpRequest) : Prop :=
  (∃ v, r.headers.find (bytes "Host") = some v ∧ v ≠ [] ∧
    ((∃ w ∈ headers.hosts, w ≠ []) → v ∈ headers.hosts) ∧
    ((∀ w ∈ headers.hosts, w = []) → v = host)) ∧
  (headers.KeepsAlive → r.close = false)

theorem not_connection_of_host {key : List UInt8} (h : strcasecmpEq key (bytes "host") = true) :
    strcasecmpEq key (bytes "connection") = false := by
  rw [Bool.eq_false_iff]
  intro hc
  have heq := (strcasecmpEq_iff.mp h).symm.trans (strcasecmpEq_iff.mp hc)
  exact absurd heq (by decide)

/-- What one turn does to `has_host`, the header `Host` and `m_close`. -/
theorem addHeader_eq (x : Bool × HttpRequest) (e : List UInt8 × List UInt8) :
    ((addHeader x e).1 = true ↔
      x.1 = true ∨ strcasecmpEq e.1 (bytes "host") = true ∧ e.2 ≠ []) ∧
    (addHeader x e).2.headers.find (bytes "Host") =
      (if strcasecmpEq e.1 (bytes "host") then some e.2
        else x.2.headers.find (bytes "Host")) ∧
    ((addHeader x e).2.close = false ↔
      x.2.close = false ∨ strcasecmpEq e.1 (bytes "connection") = true ∧
        strcasecmpEq e.2 (bytes "keep-alive") = true) := by
  have hhost : folded (bytes "host") = folded (bytes "Host") := by decide
  unfold addHeader
  by_cases hc : strcasecmpEq e.1 (bytes "connection") = true
  · have hh : strcasecmpEq e.1 (bytes "host") = false := by
      rw [Bool.eq_false_iff]
      intro hh
      rw [not_connection_of_host hh] at hc
      cases hc
    rw [if_pos hc, hh]
    by_cases hk : strcasecmpEq e.2 (bytes "keep-alive") = true <;> simp [hk, hc]
  · rw [if_neg hc]
    have hfind : (x.2.setHeader e.1 e.2).headers.find (bytes "Host") =
        if strcasecmpEq e.1 (bytes "host") then some e.2
        else x.2.headers.find (bytes "Host") := by
      rw [HttpRequest.setHeader, MapType.find_set]
      by_cases hh : strcasecmpEq e.1 (bytes "host") = true
      · rw [if_pos ((strcasecmpEq_iff.mp hh).trans hhost), if_pos hh]
      · rw [if_neg fun heq => hh (strcasecmpEq_iff.mpr (heq.trans hhost.symm)), if_neg hh]
    refine ⟨?_, hfind, by simp [HttpRequest.setHeader, hc]⟩
    cases x.1 <;> by_cases hh : strcasecmpEq e.1 (bytes "host") = true <;> simp [hh]

/-- What the whole loop does: `Host` is the last value that the caller gives for it,
while `has_host` only says that one of them is not empty. -/
theorem foldl_addHeader : ∀ (entries : List (List UInt8 × List UInt8)) (x : Bool × HttpRequest),
    ((entries.foldl addHeader x).1 = true ↔
      x.1 = true ∨ ∃ w ∈ (entries.filter fun e => strcasecmpEq e.1 (bytes "host")).map Prod.snd,
        w ≠ []) ∧
    (entries.foldl addHeader x).2.headers.find (bytes "Host") =
      ((entries.filter fun e => strcasecmpEq e.1 (bytes "host")).map Prod.snd).getLast?.or
        (x.2.headers.find (bytes "Host")) ∧
    ((entries.foldl addHeader x).2.close = false ↔
      x.2.close = false ∨ ∃ e ∈ entries, strcasecmpEq e.1 (bytes "connection") = true ∧
        strcasecmpEq e.2 (bytes "keep-alive") = true)
  | [], x => by simp
  | e :: entries, x => by
      obtain ⟨hflag, hfind, hclose⟩ := foldl_addHeader entries (addHeader x e)
      obtain ⟨hflag', hfind', hclose'⟩ := addHeader_eq x e
      rw [List.foldl_cons]
      refine ⟨?_, ?_, ?_⟩
      · rw [hflag, hflag', List.filter_cons]
        by_cases hh : strcasecmpEq e.1 (bytes "host") = true
        · simp only [hh, true_and, if_true, List.map_cons, List.mem_cons, exists_eq_or_imp,
            or_assoc]
        · simp only [hh, Bool.false_eq_true, false_and, or_false, if_false]
      · rw [hfind, hfind', List.filter_cons]
        by_cases hh : strcasecmpEq e.1 (bytes "host") = true
        · simp only [hh, if_true, List.map_cons, List.getLast?_cons]
          cases ((entries.filter fun e => strcasecmpEq e.1 (bytes "host")).map
            Prod.snd).getLast? <;> rfl
        · simp only [hh, Bool.false_eq_true, if_false]
      · rw [hclose, hclose']
        simp only [List.mem_cons, exists_eq_or_imp, or_assoc]

theorem fill_proper_iff (headers : StringMap) {host : List UInt8} (body : List UInt8)
    (hhost : host ≠ []) (r : HttpRequest) (hr : r.headers = []) :
    (fill headers host body r).Proper headers host ↔
      (∀ v ∈ headers.hosts, v = []) ∨ ∃ v, headers.hosts.getLast? = some v ∧ v ≠ [] := by
  obtain ⟨hflag, hfind, hclose⟩ := foldl_addHeader headers.entries (false, r)
  have hnone : r.headers.find (bytes "Host") = none := by rw [hr]; rfl
  rw [hnone, Option.or_none] at hfind
  simp only [Bool.false_eq_true, false_or] at hflag
  have hkeep : headers.KeepsAlive → (fill headers host body r).close = false := by
    intro hkeep
    have hopen := hclose.mpr (Or.inr hkeep)
    unfold fill orHost
    split_ifs
    · exact hopen
    · exact hopen
  by_cases hsome : ∃ w ∈ headers.hosts, w ≠ []
  · -- the header is the last of the caller's values, empty or not
    have hsent : (fill headers host body r).headers.find (bytes "Host") =
        headers.hosts.getLast? := by
      rw [fill, orHost, if_pos (hflag.mpr hsome)]
      exact hfind
    have hnot : ¬∀ w ∈ headers.hosts, w = [] := by
      obtain ⟨w, hw, hne⟩ := hsome
      exact fun hall => hne (hall w hw)
    rw [or_iff_right hnot, HttpRequest.Proper, hsent]
    constructor
    · rintro ⟨⟨v, hv, hne, -, -⟩, -⟩
      exact ⟨v, hv, hne⟩
    · rintro ⟨v, hv, hne⟩
      exact ⟨⟨v, hv, hne, fun _ => List.mem_of_getLast? hv, fun hall => absurd hall hnot⟩, hkeep⟩
  · have hall : ∀ w ∈ headers.hosts, w = [] := by
      intro w hw
      by_contra hne
      exact hsome ⟨w, hw, hne⟩
    have hsent : (fill headers host body r).headers.find (bytes "Host") =
        some host := by
      rw [fill, orHost, if_neg fun hn => hsome (hflag.mp hn)]
      exact (MapType.find_set _ _ _ _).trans (if_pos rfl)
    refine ⟨fun _ => Or.inl hall, fun _ => ⟨⟨host, hsent, hhost, fun hn => absurd hn hsome,
      fun _ => rfl⟩, hkeep⟩⟩

/-- **Host and keep-alive.** A caller's value for `host` that is not empty is remembered,
but a later spelling with an empty value takes its place. So the header is as it should be
if all values are empty, or the last one in the order of the map is not. -/
theorem doRequest_host_iff (host vhost : List UInt8) (method : HttpMethod) (u : Uri)
    (url : List UInt8) (headers : StringMap) (body : List UInt8) :
    (u.host ≠ [] →
      ((HttpConnection.doRequest method u headers body).Proper headers u.host ↔
        (∀ v ∈ headers.hosts, v = []) ∨ ∃ v, headers.hosts.getLast? = some v ∧ v ≠ [])) ∧
    (HttpConnectionPool.defaultHost host vhost ≠ [] →
      ((HttpConnectionPool.doRequest host vhost method url headers body).Proper headers
          (HttpConnectionPool.defaultHost host vhost) ↔
        (∀ v ∈ headers.hosts, v = []) ∨ ∃ v, headers.hosts.getLast? = some v ∧ v ≠ [])) := by
  constructor
  · intro huri
    exact fill_proper_iff headers body huri _ rfl
  · intro hpool
    exact fill_proper_iff headers body hpool _ rfl

/-- A `Uri` with a host. -/
def plainUri : Uri := { Uri.new with host := bytes "h" }

/-- `HOST: a` and `Host:` with no value. -/
def twoHosts : StringMap :=
  ⟨[(bytes "HOST", bytes "a"), (bytes "Host", [])], by decide⟩

theorem doRequest_host_iff_plain :
    ((HttpConnection.doRequest .GET plainUri ⟨[(bytes "host", bytes "a")], by decide⟩ []).Proper
        ⟨[(bytes "host", bytes "a")], by decide⟩ (bytes "h") ∧
      (HttpConnectionPool.doRequest (bytes "h") [] .GET (bytes "/")
        ⟨[(bytes "host", bytes "a")], by decide⟩ []).Proper
        ⟨[(bytes "host", bytes "a")], by decide⟩ (bytes "h")) := by
  obtain ⟨h, h'⟩ := doRequest_host_iff (bytes "h") [] .GET plainUri (bytes "/")
    ⟨[(bytes "host", bytes "a")], by decide⟩ []
  exact ⟨(h (by decide)).mpr (Or.inr ⟨bytes "a", by decide, by decide⟩),
    (h' (by decide)).mpr (Or.inr ⟨bytes "a", by decide, by decide⟩)⟩

/-- The request goes out with an empty host. -/
theorem doRequest_empty_host :
    (HttpConnection.doRequest .GET plainUri twoHosts []).headers.find (bytes "Host") =
        some [] ∧
      ¬(HttpConnection.doRequest .GET plainUri twoHosts []).Proper twoHosts (bytes "h") ∧
      (HttpConnectionPool.doRequest (bytes "h") [] .GET (bytes "/") twoHosts
        []).headers.find (bytes "Host") = some [] := by
  have hfind : (HttpConnection.doRequest .GET plainUri twoHosts []).headers.find
      (bytes "Host") = some [] := by decide
  refine ⟨hfind, ?_, by decide⟩
  rintro ⟨⟨v, hv, hne, -⟩, -⟩
  exact hne (Option.some.inj (hv.symm.trans hfind))

end Http

end Skt
