import Skt.Http.RequestText

/-!
# A request written and parsed

`HttpRequest::dump` on one side and one call of `HttpRequestParser::excute` on
the other. The method `M-SEARCH` has a `-`, which no method of the parser's
grammar has; a path that only the other rules for paths derive is taken for a
scheme with a path behind it, or for an authority that is none.
-/

namespace Skt

set_option maxRecDepth 4000

namespace Http

open Lib Lib.CString Lib.Ragel Lib.Grammar

namespace RequestText

open RequestGrammar

variable {relaxed : Bool}

/-! ## Paths that are not read as such -/

/-- The states behind a scheme. -/
def hierStates : List (ℕ × ℕ) := [(26, 28), (33, 172)]

structure PathLayout (t u : Table RequestAction) : Prop where
  hier_entered : entered u [(174, 174)] .mark hierStates = true
  hier_quiet : u.quiet hierStates = true
  /-- A row that ends a part is for a delimiter, or it leads behind a scheme. -/
  row_ends : t.rows ((3, 3) :: (174, 174) :: pathStates) [(0, 255)] (fun q r => !ends r || inside r.on delimiters ||
    (decide (r.target = 174) && decide (r.acts = []) && decide (q = 173))) = true
  /-- Only where a path can end there is a row for a delimiter. -/
  row_delimiter : t.rows pathStates delimiters (fun q _ => pathEnds.contains q) = true

theorem pathLayout (relaxed : Bool) :
    PathLayout (requestTable.under relaxed) (partTable relaxed) := by
  cases relaxed <;> constructor <;> decide

variable {buffer : List UInt8} {p : ℕ} {g : Registers} {d : RequestState}

/-- The loop inside of a path: nothing but `mark` changes. -/
theorem go_inside {start q : ℕ} {starts R : List (ℕ × ℕ)}
    (hentered : entered (partTable relaxed) starts .mark R = true)
    (hstart : within starts start = true)
    (hquiet : (partTable relaxed).quiet R = true) {w rest : List UInt8}
    (hrun : (partTable relaxed).run start w = some q) (hs : buffer.drop p = w ++ rest) :
    (q = start ∧ w = [] ∨ within R q = true) ∧
      ∃ g', (requestScannerUnder relaxed).go buffer p start (g, d) =
        (requestScannerUnder relaxed).go buffer (p + w.length) q (g', d) := by
  cases w with
  | nil =>
      obtain rfl : start = q := by simpa [Table.run] using hrun
      exact ⟨Or.inl ⟨rfl, rfl⟩, g, rfl⟩
  | cons x w =>
      simp only [Table.run] at hrun
      cases hnext : (partTable relaxed).next false start x with
      | none => simp [hnext] at hrun
      | some r =>
          simp only [hnext] at hrun
          have hr := rows_next hentered hstart (within_byte x) hnext
          rw [Bool.and_eq_true, decide_eq_true_eq] at hr
          obtain ⟨htrace, hq⟩ := trace_quiet (t := requestTable.under relaxed) hquiet
            next_of_next_part hr.2 hrun
          have hfirst : (requestTable.under relaxed).trace start [x] =
              some ([[.mark]], r.target) := by
            simp [Table.trace, next_of_next_part hnext, hr.1]
          refine ⟨Or.inr hq, { g with mark := p }, ?_⟩
          have hset : (requestScannerUnder relaxed).act buffer p .mark (g, d) =
              .ok ({ g with mark := p }, d) := Scanner.act_set (r := .mark) rfl
          refine Scanner.go_trace (P := requestScannerUnder relaxed) (w := x :: w)
            (trace_append hfirst htrace) hs ?_ ?_
          · intro a ha
            rcases List.mem_append.mp ha with ha | ha
            · rw [List.mem_singleton.mp ha]
              rfl
            · rw [(List.mem_replicate.mp ha).2]
              rfl
          · rw [List.singleton_append, Scanner.runTrace_cons (Scanner.runActs_one hset),
              runTrace_replicate]

/-- The loop has ended in the error state. -/
def Stuck (out : Except (Thrown RequestState) (ℕ × ℕ × (Registers × RequestState))) : Prop :=
  ∃ p x, out = .ok (p, 0, x)

/-- What can become of a text without delimiters in front of one: it is read as
a path, the automaton gets stuck, or some of it is taken for a scheme. -/
theorem path_cases {start : ℕ} {starts R : List (ℕ × ℕ)}
    (hentered : entered (partTable relaxed) starts .mark R = true)
    (hquiet : (partTable relaxed).quiet R = true)
    (hin : within starts start = true) (hstart : start = 3 ∨ start = 174)
    (hR : ∀ q, within R q = true → within pathStates q = true) {w rest : List UInt8} {e : UInt8}
    (hw : ∀ c ∈ w, within delimiters c.toNat = false)
    (he : within delimiters e.toNat = true) (hs : buffer.drop p = w ++ e :: rest) :
    (∃ q, (partTable relaxed).run start w = some q ∧ (w = [] ∨ q ∈ pathEnds)) ∨
      Stuck ((requestScannerUnder relaxed).go buffer p start (g, d)) ∨
      (within R 173 = true ∧ ∃ u x v g', w = u ++ x :: v ∧
        (requestScannerUnder relaxed).go buffer p start (g, d) =
          (requestScannerUnder relaxed).go buffer (p + u.length + 1) 174 (g', d)) := by
  have hl := pathLayout relaxed
  cases hrun : (partTable relaxed).run start w with
  | some q =>
      obtain ⟨hq, g', hgo⟩ := go_inside (g := g) (d := d) hentered hin hquiet hrun hs
      rcases hq with ⟨-, hnil⟩ | hq
      · exact Or.inl ⟨q, rfl, Or.inl hnil⟩
      · by_cases hmem : q ∈ pathEnds
        · exact Or.inl ⟨q, rfl, Or.inr hmem⟩
        · -- The delimiter has no row.
          right; left
          cases hnext : (requestTable.under relaxed).next false q e with
          | none =>
              rw [hgo]
              exact ⟨_, _, execFrom_stuck _ (drop_add hs) hnext⟩
          | some r =>
              have hc := rows_next hl.row_delimiter (hR q hq) he hnext
              exact absurd (List.contains_iff_mem.mp hc) hmem
  | none =>
      obtain ⟨u, x, v, q, rfl, hrun', hstuck⟩ := exists_of_run_none hrun
      rw [List.append_assoc] at hs
      obtain ⟨hq, g', hgo⟩ := go_inside (g := g) (d := d) hentered hin hquiet hrun' hs
      cases hnext : (requestTable.under relaxed).next false q x with
      | none =>
          right; left
          rw [hgo]
          exact ⟨_, _, execFrom_stuck _ (drop_add hs) hnext⟩
      | some r =>
          right; right
          have hends : ends r = true := by
            by_contra hn
            rw [next_part_of_next hnext (Bool.eq_false_iff.mpr hn)] at hstuck
            cases hstuck
          have hregion : within ((3, 3) :: (174, 174) :: pathStates) q = true := by
            rcases hq with ⟨rfl, -⟩ | hq
            · rcases hstart with rfl | rfl <;> decide
            · exact within_cons.mpr (Or.inr (within_cons.mpr (Or.inr (hR q hq))))
          have hrow := rows_next hl.row_ends hregion (within_byte x) hnext
          have hx : inside r.on delimiters = false := by
            refine Bool.eq_false_iff.mpr fun hin => ?_
            have := within_of_inside hin (within_of_next hnext)
            rw [hw x (by simp)] at this
            cases this
          rw [hends, hx, Bool.not_true, Bool.false_or, Bool.false_or, Bool.and_eq_true,
            Bool.and_eq_true, decide_eq_true_eq, decide_eq_true_eq, decide_eq_true_eq] at hrow
          obtain ⟨⟨htarget, hacts⟩, rfl⟩ := hrow
          refine ⟨?_, u, x, v, g', rfl, ?_⟩
          · rcases hq with ⟨h173, -⟩ | hq
            · rcases hstart with rfl | rfl <;> cases h173
            · exact hq
          · have hcolon : (requestTable.under relaxed).trace 173 [x] = some ([[]], 174) := by
              simp [Table.trace, hnext, hacts, htarget]
            rw [hgo, Scanner.go_byte (P := requestScannerUnder relaxed) hcolon (drop_add hs)]

/-! ## The whole request -/

/-- Every byte but the delimiters. -/
def pathBytes : List (ℕ × ℕ) := [(0, 31), (33, 34), (36, 62), (64, 255)]

open Skt.RequestGrammar.Symbol in
/-- The symbols that a path leads to. -/
def pathSymbols : List Symbol :=
  [2, 3, 4, 5, 6, 37, 46, 47, 48, 49, 50, 53, 58, 64, 91, 93, 118].map lit ++
    [alpha, digit, xdigit, nonAscii, unreserved, subDelims, pctEncoded, userByte, userinfo,
      decOctet, ipv4Address, hex1, hex2, hex3, h16, h16Colon, ls32, h16s, h16s1, h16s2, h16s3,
      h16s4, h16s5, h16s6, h16s7, ipv6Address, xdigits, futureByte, futureBytes, ipvFuture,
      ipLiteral, regByte, regName, host, port, userinfoOpt, portOpt, authority, pchar, pcharNc,
      pathSegment, segmentNz, segmentNzNc, slashSegment, pathAbempty, pathAbsolute,
      pathNoscheme, pathRootless, path, hierPart, relativePart]

theorem closed_pathSymbols (relaxed : Bool) :
    closed (rule relaxed) pathSymbols pathBytes = true := by
  cases relaxed <;> decide

theorem not_delimiter : ∀ c : UInt8, within pathBytes c.toNat = true →
    within delimiters c.toNat = false := by
  decide

theorem free_of_path {r : HttpRequest} (hr : Writable relaxed r) :
    ∀ c ∈ r.path, within delimiters c.toNat = false := by
  intro c hc
  refine not_delimiter c ?_
  rcases hr.path with h | h | h
  · exact h.within_of_closed (closed_pathSymbols relaxed) (by decide) c hc
  · exact h.within_of_closed (closed_pathSymbols relaxed) (by decide) c hc
  · exact h.within_of_closed (closed_pathSymbols relaxed) (by decide) c hc

theorem filter_headers {r : HttpRequest} (hr : Writable relaxed r) :
    r.headers.filter (fun e => !strcasecmpEq e.1 (bytes "connection")) = r.headers := by
  refine List.filter_eq_self.mpr fun e he => ?_
  rw [Bool.not_eq_true']
  refine Bool.eq_false_iff.mpr fun h => (hr.name e he).2 ?_
  rw [strcasecmpEq_iff.mp h]
  decide

theorem head_eq {r : HttpRequest} (hr : Writable relaxed r) :
    r.head = httpMethodToString r.method ++ 32 :: (r.path ++ afterPath r) := by
  unfold HttpRequest.head dumpHeaders afterPath targetTail
  rw [filter_headers hr]
  split_ifs <;> simp [*, bytes, crlf, connection]

/-- A state of the parser in which only the method has been read. -/
def Fresh (d : RequestState) : Prop :=
  (d.data.query = [] ∧ d.data.fragment = []) ∧ d.data.headers = [] ∧
    d.xmlSent = false ∧ d.jsonSent = false

/-- What has been read behind a whole request whose path was taken to be `path`. -/
def readBehind (r : HttpRequest) (path : List UInt8) (d : RequestState) :
    RequestState :=
  { d with data := { d.data with path, query := r.query, fragment := r.fragment,
                                 version := r.version, headers := headersRead r } }

variable {r : HttpRequest}

/-- A path that the automaton takes, and all that follows it. -/
theorem go_target (hr : Writable relaxed r) {start q : ℕ} (hstart : start = 3 ∨ start = 174)
    {w rest : List UInt8} (hrun : (partTable relaxed).run start w = some q)
    (hfinal : w = [] ∨ q ∈ pathEnds) (hlen : buffer.length < 2147483648)
    (hs : buffer.drop p = w ++ (afterPath r ++ rest)) (hd : Fresh d) :
    ∃ g', (requestScannerUnder relaxed).go buffer p start (g, d) =
      .ok (p + w.length + (afterPath r).length, 348, (g', readBehind r w d)) := by
  obtain ⟨hempty, hheaders, hsent⟩ := hd
  obtain ⟨e, rest', he, hmem, htail⟩ := go_afterPath (d := RequestState.onRequestPath w d) hr
    hlen (drop_add hs) hempty hheaders hsent
  have hs' : buffer.drop p = w ++ e :: rest' := by
    rw [hs, ← he, drop_add hs]
  obtain ⟨g', hgo⟩ := htail { g with mark := p }
  exact ⟨g', (go_path hstart hmem hrun hfinal hlen hs').trans hgo⟩

/-- **Paths.** The request is read with its own path only if this is a
`relative_part`. -/
theorem derives_of_go (hr : Writable relaxed r) {rest : List UInt8}
    (hlen : buffer.length < 2147483648)
    (hs : buffer.drop p = r.path ++ (afterPath r ++ rest)) (hd : Fresh d) {n cs : ℕ}
    {g' : Registers} {d' : RequestState}
    (hgo : (requestScannerUnder relaxed).go buffer p 3 (g, d) = .ok (n, cs, (g', d')))
    (hcs : cs ≠ 0) (hpath : d'.data.path = r.path) :
    Derives (rule relaxed) [.relativePart] r.path := by
  have hl := layout relaxed
  have hl' := pathLayout relaxed
  obtain ⟨e, rest', he, hmem, -⟩ := go_afterPath hr hlen (drop_add hs) hd.1 hd.2.1 hd.2.2
  have hs' : buffer.drop p = r.path ++ e :: rest' := by
    rw [hs, ← he, drop_add hs]
  have he' : within delimiters e.toNat = true := by
    rcases hmem with rfl | rfl | rfl <;> decide
  have hstuck : ∀ {out}, out = Except.ok (n, cs, (g', d')) → ¬ Stuck out := by
    rintro out hout ⟨p', x, h⟩
    rw [hout] at h
    cases h
    exact hcs rfl
  rcases path_cases (g := g) (d := d) hl.path_entered hl.path_quiet (by decide) (Or.inl rfl)
      (fun _ h => h) (free_of_path hr) he' hs' with ⟨q, hrun, hfinal⟩ | h | ⟨-, u, x, v, g₁, hw, h⟩
  · refine (accepts_iff_derives (explore_partTable relaxed) (q := 3) (by decide) r.path).mp ?_
    refine Option.any_eq_true _ _ |>.mpr ⟨q, hrun, ?_⟩
    rcases hfinal with hnil | hq
    · rw [hnil] at hrun
      obtain rfl : 3 = q := by simpa [Table.run] using hrun
      rfl
    · exact (by decide : ∀ q ∈ pathEnds, partFinal q = true) q hq
  · exact absurd h (hstuck hgo)
  · -- What follows the scheme is taken for the path.
    rw [hgo] at h
    have hfree : ∀ c ∈ v, within delimiters c.toNat = false := fun c hc =>
      free_of_path hr c (by rw [hw]; simp [hc])
    have hs₁ : buffer.drop (p + u.length + 1) = v ++ e :: rest' := by
      rw [hw, List.append_assoc] at hs'
      exact drop_succ (drop_add hs')
    have hs₂ : buffer.drop (p + u.length + 1) = v ++ (afterPath r ++ rest) := by
      rw [hw, List.append_assoc] at hs
      exact drop_succ (drop_add hs)
    have hsub : ∀ q, within hierStates q = true → within pathStates q = true := by
      intro q hq
      simp only [hierStates, pathStates, within_cons, within_nil, Bool.false_eq_true,
        or_false] at hq ⊢
      omega
    rcases path_cases (g := g₁) (d := d) hl'.hier_entered hl'.hier_quiet (by decide)
        (Or.inr rfl) hsub hfree he' hs₁ with ⟨q, hrun, hfinal⟩ | h' | ⟨h', -⟩
    · obtain ⟨g₂, hgo'⟩ := go_target (g := g₁) hr (Or.inr rfl) hrun hfinal hlen hs₂ hd
      rw [hgo'] at h
      cases h
      have hlength := congrArg List.length (hpath.trans hw)
      simp [readBehind] at hlength
      omega
    · exact absurd h' (hstuck h.symm)
    · exact absurd h' (by decide)

/-- `M-SEARCH` is not a method of the grammar. -/
theorem stuck_of_search (relaxed : Bool) (g : Registers) (d : RequestState) {rest : List UInt8} (hs : buffer.drop p = bytes "M-SEARCH" ++ rest) :
    Stuck ((requestScannerUnder relaxed).go buffer p 1 (g, d)) := by
  have hmark : (requestTable.under relaxed).trace 1 [77] = some ([[.mark]], 2) := by
    cases relaxed <;> decide
  have hstuck : (requestTable.under relaxed).next false 2 45 = none := by
    cases relaxed <;> decide
  have hs' : buffer.drop p = [77] ++ 45 :: (bytes "SEARCH" ++ rest) := hs
  have hset : runTrace ((requestScannerUnder relaxed).act buffer) p [[.mark]] (g, d) =
      .ok ({ g with mark := p }, d) := rfl
  rw [Scanner.go_trace (P := requestScannerUnder relaxed) hmark hs'
    (by simp [requestScannerUnder, requestScanner]) hset]
  exact ⟨_, _, execFrom_stuck _ (drop_add hs') hstuck⟩

end RequestText

open RequestText RequestGrammar

namespace HttpRequestParser

/-- The request `r`, as the receiver has to see it. -/
def SameRequest (r : HttpRequest) (s : HttpRequestParser) : Prop :=
  s.state.data.method = r.method ∧ s.state.data.path = r.path ∧ s.state.data.query = r.query ∧
    s.state.data.fragment = r.fragment ∧ s.state.data.version = r.version ∧
    ∀ e ∈ r.headers, s.state.data.headers.find e.1 = some e.2

variable {relaxed : Bool} {r : HttpRequest}

theorem find_requestHeaders (hr : Writable relaxed r) :
    ∀ e ∈ r.headers, (headersRead r).find e.1 = some e.2 := by
  intro e he
  have hlength : folded (bytes "content-length") ≠ folded e.1 := by
    intro h
    refine (hr.name e he).2 (h ▸ ?_)
    decide
  have hfind := MapType.find_setAll
    (MapType.set (bytes "connection") (connection r.close) []) hr.ordered e he
  unfold headersRead MapType.withLength
  split_ifs
  · exact hfind
  · rw [MapType.find_set, if_neg hlength, hfind]

/-- **Requests.** What `dump` writes is parsed in one call, up to the body, if the
method is not `M-SEARCH`, the path is a `relative_part` and the text is shorter
than `2^31`; and only then. -/
theorem excute_dump_iff (relaxed : Bool) (queryStart : ℕ) (r : HttpRequest)
    (hr : Writable relaxed r) :
    (∃ s n, (new queryStart relaxed).excute r.dump = .ok (s, n, r.body) ∧
        s.isFinished = 1 ∧ s.hasError = false ∧ s.state.error = 0 ∧ SameRequest r s) ↔
      r.method ≠ .MSEARCH ∧ Derives (rule relaxed) [.relativePart] r.path ∧
        r.dump.length < 2147483648 := by
  have hs : r.dump.drop 0 = httpMethodToString r.method ++ 32 ::
      (r.path ++ (afterPath r ++ r.body)) := by
    rw [List.drop_zero, HttpRequest.dump, head_eq hr]
    simp
  have hne : r.dump ≠ [] := by
    intro h
    rw [h] at hs
    simp at hs
  have hexec : ∀ g d, exec requestTable relaxed requestScanner.breaks
      (requestScanner.act r.dump) r.dump 0 1 (g, d) =
        (requestScannerUnder relaxed).go r.dump 0 1 (g, d) := fun g d =>
    exec_under requestTable relaxed requestScanner.breaks _ _ 0 1 (g, d)
  constructor
  · rintro ⟨s, n, hexcute, hfinished, -, -, hmethod, hpath, -⟩
    obtain ⟨hlen, hgo⟩ := exec_of_excute (s := new queryStart relaxed) hne Nat.one_ne_zero hexcute
    rw [show (new queryStart relaxed).uriRelaxed = relaxed from rfl,
      show (new queryStart relaxed).cs = 1 from rfl, hexec] at hgo
    have hcs : s.cs ≠ 0 := by
      intro h
      simp [isFinished, hasAutomatonError, h] at hfinished
    by_cases hsearch : r.method = .MSEARCH
    · rw [hsearch] at hs
      obtain ⟨p, x, hstuck⟩ := stuck_of_search relaxed
        (new queryStart relaxed).regs.reset (new queryStart relaxed).state hs
      rw [hstuck, Except.ok.injEq, Prod.mk.injEq, Prod.mk.injEq] at hgo
      exact absurd hgo.2.1.symm hcs
    · refine ⟨hsearch, ?_, hlen⟩
      rw [go_method hr.method hsearch hlen hs] at hgo
      exact derives_of_go hr hlen (drop_succ (drop_add hs)) ⟨⟨rfl, rfl⟩, rfl, rfl, rfl⟩ hgo hcs
        hpath
  · rintro ⟨hsearch, hpath, hlen⟩
    obtain ⟨q, hrun, hq⟩ := run_of_derives (q := 3) (by decide) hpath
    have hs' := drop_succ (drop_add hs)
    have hfinal : r.path = [] ∨ q ∈ pathEnds := by
      obtain ⟨hin, -⟩ := go_inside (g := (new queryStart relaxed).regs)
        (d := (new queryStart relaxed).state) (layout relaxed).path_entered (by decide)
        (layout relaxed).path_quiet hrun hs'
      rcases hin with ⟨-, hnil⟩ | hin
      · exact Or.inl hnil
      · exact Or.inr (pathEnds_of_final q (lt_of_pathStates hin) hin hq)
    obtain ⟨g', hgo⟩ := go_target (g := { (new queryStart relaxed).regs.reset with mark := 0 })
      (d := { (new queryStart relaxed).state with data.method := r.method }) hr (Or.inl rfl)
      hrun hfinal hlen hs' ⟨⟨rfl, rfl⟩, rfl, rfl, rfl⟩
    have hexcute := excute_of_exec (s := new queryStart relaxed) hne hlen Nat.one_ne_zero
      (Nat.zero_le _) ((hexec _ _).trans ((go_method hr.method hsearch hlen hs).trans hgo))
    rw [drop_add (drop_add hs')] at hexcute
    exact ⟨_, _, hexcute, rfl, rfl, rfl, rfl, rfl, rfl, rfl, rfl, find_requestHeaders hr⟩

/-- A request with every part, and one with the method `M-SEARCH`. -/
def pageRequest : HttpRequest where
  method := .POST
  version := 0x11
  close := false
  path := bytes "/a/b"
  query := bytes "x=1"
  fragment := bytes "top"
  body := bytes "hello"
  headers := [(bytes "Host", bytes "skt"), (bytes "X-Empty", [])]

def searchRequest : HttpRequest where
  method := .MSEARCH
  version := 0x11
  close := false
  path := bytes "/"
  query := []
  fragment := []
  body := []
  headers := []

theorem pageRequest_writable : Writable false pageRequest where
  method := by decide
  version := Or.inr rfl
  path := Or.inr (Or.inl (derives_of_recognize 400 (by decide)))
  query := derives_of_recognize 400 (by decide)
  fragment := derives_of_recognize 400 (by decide)
  ordered := by decide
  name := by decide
  value := by decide

theorem searchRequest_writable : Writable false searchRequest where
  method := by decide
  version := Or.inr rfl
  path := Or.inr (Or.inl (derives_of_recognize 400 (by decide)))
  query := derives_of_recognize 400 (by decide)
  fragment := derives_of_recognize 400 (by decide)
  ordered := by decide
  name := by decide
  value := by decide

theorem excute_dump_iff_page :
    ∃ s n, (new 0 false).excute pageRequest.dump = .ok (s, n, pageRequest.body) ∧
      s.isFinished = 1 ∧ s.hasError = false ∧ s.state.error = 0 ∧ SameRequest pageRequest s :=
  (excute_dump_iff false 0 pageRequest pageRequest_writable).mpr
    ⟨by decide, derives_of_recognize 400 (by decide), by decide⟩

/-- The `-` of `M-SEARCH` stops the parser behind the first byte. -/
theorem excute_dump_search :
    Writable false searchRequest ∧
      ∃ s tail, (new 0 false).excute searchRequest.dump = .ok (s, 1, tail) ∧
        s.isFinished = -1 :=
  ⟨searchRequest_writable, _, _, rfl, by decide⟩

end HttpRequestParser

end Http

end Skt
