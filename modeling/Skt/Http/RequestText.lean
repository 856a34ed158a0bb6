import Skt.Http.Fields
import Skt.Http.RequestGrammar
import Skt.Http.RequestParser

/-!
# A request as text, read by the parser

The automaton over what `HttpRequest::dump` writes. The target of the request is
a `relative_part`, perhaps with a query and a fragment; where the text in front
of a `:` could be a scheme, the automaton takes it for one.
-/

namespace Skt

set_option maxRecDepth 4000

namespace Http

open Lib Lib.CString Lib.Ragel Lib.Grammar

/-- `requestScanner` with or without the rows for `uri_relaxed`. -/
def requestScannerUnder (relaxed : Bool) : Scanner RequestAction RequestState :=
  { requestScanner with table := requestTable.under relaxed }

namespace RequestText

open RequestGrammar

/-! ## The states -/

/-- Inside of a path, a query and a fragment. -/
def pathStates : List (ℕ × ℕ) := [(19, 19), (24, 28), (33, 173)]

def queryStates : List (ℕ × ℕ) := [(30, 32)]

def fragmentStates : List (ℕ × ℕ) := [(21, 23)]

/-- The states in which a path can end. -/
def pathEnds : List ℕ := [19, 26, 33, 34, 35, 38, 42, 43, 46, 61, 173]

def blankByte : List (ℕ × ℕ) := [(32, 32)]

/-- The bytes that end a path. -/
def delimiters : List (ℕ × ℕ) := [(32, 32), (35, 35), (63, 63)]

/-- Bytes of a value, and the ones it can start with. -/
def printable : List (ℕ × ℕ) := [(32, 126), (128, 255)]

def visible : List (ℕ × ℕ) := [(33, 126), (128, 255)]

/-- The rows that start a part run `a`. -/
def entered (t : Table RequestAction) (q : List (ℕ × ℕ)) (a : RequestAction)
    (R : List (ℕ × ℕ)) : Bool :=
  t.rows q [(0, 255)] fun _ r => decide (r.acts = [a]) && within R r.target

structure Layout (t u : Table RequestAction) : Prop where
  separate : (t.all fun rows => rows.all fun r => !ends r ||
    rows.all fun r' => ends r' || !meets r.on r'.on) = true
  method : ∀ e ∈ httpMethodMap, e.1 ≠ .MSEARCH →
    t.trace 1 (e.2 ++ [32]) = some (Scanner.valueTrace .mark [.requestMethod] e.2, 3)
  path_entered : entered u [(3, 3), (174, 174)] .mark pathStates = true
  path_quiet : u.quiet pathStates = true
  path_blank : t.goes pathEnds blankByte [.requestPath, .requestUri] [4] = true
  path_hash : t.goes pathEnds [(35, 35)] [.requestPath, .requestUri] [20] = true
  path_mark : t.goes pathEnds [(63, 63)] [.requestPath] [29] = true
  empty_blank : t.goes [3, 174] blankByte [.mark, .requestPath, .requestUri] [4] = true
  empty_hash : t.goes [3, 174] [(35, 35)] [.mark, .requestPath, .requestUri] [20] = true
  empty_mark : t.goes [3, 174] [(63, 63)] [.mark, .requestPath] [29] = true
  query_entered : entered u [(29, 29)] .startQuery queryStates = true
  query_quiet : u.quiet queryStates = true
  query_blank : t.goes [30] blankByte [.queryString, .requestUri] [4] = true
  query_hash : t.goes [30] [(35, 35)] [.queryString, .requestUri] [20] = true
  fragment_entered : entered u [(20, 20)] .mark fragmentStates = true
  fragment_quiet : u.quiet fragmentStates = true
  fragment_blank : t.goes [21] blankByte [.fragment] [4] = true
  name_first : t.goes [13] tokenBytes [.startField] [14] = true
  name : t.goes [14] tokenBytes [] [14] = true
  colon : t.goes [14] [(58, 58)] [.writeField] [15] = true
  blank : t.goes [15] blankByte [.mark] [15] = true
  value_first : t.goes [15] visible [.mark] [16] = true
  value : t.goes [16] printable [] [16] = true
  value_cr : t.goes [16] [(13, 13)] [.writeValue] [17] = true
  value_empty : t.goes [15] [(13, 13)] [.mark, .writeValue] [17] = true
  lf : t.goes [17] [(10, 10)] [] [13] = true
  cr : t.goes [13] [(13, 13)] [.startField] [18] = true
  done : t.goes [18] [(10, 10)] [.done] [348] = true

theorem layout (relaxed : Bool) :
    Layout (requestTable.under relaxed) (partTable relaxed) := by
  cases relaxed <;> constructor <;> decide

/-! ## The parts of the target -/

variable {relaxed : Bool}

theorem getD_partTable (relaxed : Bool) (q : ℕ) : (partTable relaxed).getD q [] =
    ((requestTable.under relaxed).getD q []).filter fun r => !ends r := by
  simp only [List.getD_eq_getElem?_getD, partTable, List.getElem?_map]
  cases (requestTable.under relaxed)[q]? <;> rfl

theorem next_part_of_next {q : ℕ} {c : UInt8} {r : Row RequestAction}
    (h : (requestTable.under relaxed).next false q c = some r) (hr : ends r = false) :
    (partTable relaxed).next false q c = some r := by
  have hfind : ((requestTable.under relaxed).getD q []).find? (Row.fits false c) = some r := h
  rw [Table.next, getD_partTable, List.find?_filter]
  rw [List.find?_eq_some_iff_append] at hfind ⊢
  obtain ⟨hfits, as, bs, heq, hbefore⟩ := hfind
  refine ⟨by simp [hfits, hr], as, bs, heq, fun x hx => ?_⟩
  have := hbefore x hx
  simp only [Bool.not_eq_true'] at this
  simp [this]

/-- The rows that end a part do not meet the other ones of the state. -/
theorem next_of_next_part {q : ℕ} {c : UInt8} {r : Row RequestAction}
    (h : (partTable relaxed).next false q c = some r) :
    (requestTable.under relaxed).next false q c = some r := by
  have hmem : r ∈ (partTable relaxed).getD q [] := List.mem_of_find?_eq_some h
  rw [getD_partTable, List.mem_filter, Bool.not_eq_true'] at hmem
  obtain ⟨hmem, hr⟩ := hmem
  cases hnext : (requestTable.under relaxed).next false q c with
  | none =>
      have hfits := next_fits h
      rw [Table.next, List.find?_eq_none] at hnext
      exact absurd hfits (hnext r hmem)
  | some r' =>
      have hmem' : r' ∈ (requestTable.under relaxed).getD q [] :=
        List.mem_of_find?_eq_some hnext
      by_cases hends : ends r' = true
      · have hrows : (requestTable.under relaxed).getD q [] ∈ requestTable.under relaxed := by
          have hq := lt_length_of_next hnext
          rw [List.getD_eq_getElem _ _ hq]
          exact List.getElem_mem hq
        have hsep := List.all_eq_true.mp
          (List.all_eq_true.mp (layout relaxed).separate _ hrows) r' hmem'
        rw [hends, Bool.not_true, Bool.false_or] at hsep
        have hpair := List.all_eq_true.mp hsep r hmem
        rw [hr, meets_of_within (within_of_next hnext) (within_of_next h)] at hpair
        exact absurd hpair (by decide)
      · rw [next_part_of_next hnext (Bool.eq_false_iff.mpr hends)] at h
        exact h

/-- A part that is not empty, with the byte that ends it. -/
theorem trace_part {start q' : ℕ} {starts R : List (ℕ × ℕ)} {finals : List ℕ}
    {a : RequestAction} {last : List RequestAction} {e : UInt8} {w : List UInt8} {q : ℕ}
    (hstart : within starts start = true)
    (hentered : entered (partTable relaxed) starts a R = true)
    (hquiet : (partTable relaxed).quiet R = true)
    (hend : (requestTable.under relaxed).goes finals [(e.toNat, e.toNat)] last [q'] = true)
    (hw : w ≠ []) (hrun : (partTable relaxed).run start w = some q)
    (hfinal : within R q = true → q ∈ finals) :
    (requestTable.under relaxed).trace start (w ++ [e]) =
      some (Scanner.valueTrace a last w, q') := by
  obtain ⟨x, w, rfl⟩ := List.exists_cons_of_ne_nil hw
  simp only [Table.run] at hrun
  cases hnext : (partTable relaxed).next false start x with
  | none => simp [hnext] at hrun
  | some r =>
      simp only [hnext] at hrun
      have hr := rows_next hentered hstart (within_byte x) hnext
      rw [Bool.and_eq_true, decide_eq_true_eq] at hr
      obtain ⟨htrace, hq⟩ := trace_quiet (t := requestTable.under relaxed) hquiet
        next_of_next_part hr.2 hrun
      obtain ⟨q₁, hq₁, hlast⟩ := trace_of_goes hend (hfinal hq) (c := e) (by simp [within])
      obtain rfl := List.mem_singleton.mp hq₁
      have hfirst : (requestTable.under relaxed).trace start [x] = some ([[a]], r.target) := by
        simp [Table.trace, next_of_next_part hnext, hr.1]
      exact trace_append (trace_append hfirst htrace) hlast

theorem run_of_derives {q : ℕ} {k : List Symbol} {w : List UInt8}
    (hmem : (q, [k]) ∈ starts) (h : Derives (rule relaxed) k w) :
    ∃ q', (partTable relaxed).run q w = some q' ∧ partFinal q' = true := by
  have haccepts := (accepts_iff_derives (explore_partTable relaxed) hmem w).mpr h
  exact Option.any_eq_true _ _ |>.mp haccepts

theorem pathEnds_of_final : ∀ q < 174, within pathStates q = true → partFinal q = true →
    q ∈ pathEnds := by
  decide

theorem lt_of_pathStates {q : ℕ} (h : within pathStates q = true) : q < 174 := by
  simp only [pathStates, within_cons, within_nil, Bool.false_eq_true, or_false] at h
  omega

/-- What is run on the byte behind a path, and the state behind it. -/
def pathActs (e : UInt8) : List RequestAction :=
  if e = 63 then [.requestPath] else [.requestPath, .requestUri]

def pathTarget (e : UInt8) : ℕ := if e = 32 then 4 else if e = 35 then 20 else 29

/-- A path from the start of the target or from behind a scheme. -/
theorem trace_path {start q : ℕ} (hstart : start = 3 ∨ start = 174) {w : List UInt8} {e : UInt8}
    (he : e = 32 ∨ e = 35 ∨ e = 63) (hrun : (partTable relaxed).run start w = some q)
    (hfinal : w = [] ∨ q ∈ pathEnds) :
    (requestTable.under relaxed).trace start (w ++ [e]) =
      some (Scanner.valueTrace .mark (pathActs e) w, pathTarget e) := by
  have hl := layout relaxed
  have hin : within [(3, 3), (174, 174)] start = true := by
    rcases hstart with rfl | rfl <;> decide
  by_cases hw : w = []
  · subst hw
    have hmem : start ∈ [3, 174] := by simpa using hstart
    have hone : ∀ {acts : List RequestAction} {T : ℕ}, (requestTable.under relaxed).goes [3, 174]
        [(e.toNat, e.toNat)] acts [T] = true →
        (requestTable.under relaxed).trace start ([] ++ [e]) = some ([acts], T) := by
      intro acts T hgoes
      obtain ⟨q', hq', htrace⟩ := trace_of_goes hgoes hmem (c := e) (by simp [within])
      obtain rfl := List.mem_singleton.mp hq'
      exact htrace
    rcases he with rfl | rfl | rfl
    · exact hone hl.empty_blank
    · exact hone hl.empty_hash
    · exact hone hl.empty_mark
  · have hq := hfinal.resolve_left hw
    rcases he with rfl | rfl | rfl
    · exact trace_part hin hl.path_entered hl.path_quiet hl.path_blank hw hrun fun _ => hq
    · exact trace_part hin hl.path_entered hl.path_quiet hl.path_hash hw hrun fun _ => hq
    · exact trace_part hin hl.path_entered hl.path_quiet hl.path_mark hw hrun fun _ => hq

theorem trace_query {w : List UInt8} (hw : w ≠ []) (h : Derives (rule relaxed) [.query] w)
    {e : UInt8} (he : e = 32 ∨ e = 35) :
    (requestTable.under relaxed).trace 29 (w ++ [e]) =
      some (Scanner.valueTrace .startQuery [.queryString, .requestUri] w,
        if e = 32 then 4 else 20) := by
  have hl := layout relaxed
  obtain ⟨q, hrun, hfinal⟩ := run_of_derives (q := 29) (by decide) h
  have hq : within queryStates q = true → q ∈ [30] := by
    intro hin
    have hcases : ∀ q ∈ [30, 31, 32], partFinal q = true → q ∈ [30] := by decide
    refine hcases q ?_ hfinal
    simp only [queryStates, within_cons, within_nil, Bool.false_eq_true, or_false] at hin
    simp only [List.mem_cons, List.not_mem_nil, or_false]
    omega
  rcases he with rfl | rfl
  · exact trace_part (by decide) hl.query_entered hl.query_quiet hl.query_blank hw hrun hq
  · exact trace_part (by decide) hl.query_entered hl.query_quiet hl.query_hash hw hrun hq

theorem trace_fragment {w : List UInt8} (hw : w ≠ [])
    (h : Derives (rule relaxed) [.fragment] w) :
    (requestTable.under relaxed).trace 20 (w ++ [32]) =
      some (Scanner.valueTrace .mark [.fragment] w, 4) := by
  have hl := layout relaxed
  obtain ⟨q, hrun, hfinal⟩ := run_of_derives (q := 20) (by decide) h
  refine trace_part (by decide) hl.fragment_entered hl.fragment_quiet hl.fragment_blank hw hrun
    fun hin => ?_
  have hcases : ∀ q ∈ [21, 22, 23], partFinal q = true → q ∈ [21] := by decide
  refine hcases q ?_ hfinal
  simp only [fragmentStates, within_cons, within_nil, Bool.false_eq_true, or_false] at hin
  simp only [List.mem_cons, List.not_mem_nil, or_false]
  omega

/-! ## Running the request line -/

section Run

variable {buffer : List UInt8} {p : ℕ} {g : Registers} {d : RequestState}

theorem go_path {start q : ℕ} (hstart : start = 3 ∨ start = 174) {w rest : List UInt8}
    {e : UInt8} (he : e = 32 ∨ e = 35 ∨ e = 63)
    (hrun : (partTable relaxed).run start w = some q) (hfinal : w = [] ∨ q ∈ pathEnds)
    (hlen : buffer.length < 2147483648) (hs : buffer.drop p = w ++ e :: rest) :
    (requestScannerUnder relaxed).go buffer p start (g, d) =
      (requestScannerUnder relaxed).go buffer (p + w.length + 1) (pathTarget e)
        ({ g with mark := p }, RequestState.onRequestPath w d) := by
  refine Scanner.go_piece (P := requestScannerUnder relaxed) (r := .mark) rfl
    (trace_path hstart he hrun hfinal) hs rfl ?_ ?_
  · unfold pathActs
    split_ifs <;> rfl
  · have hact := Scanner.act_element (P := requestScannerUnder relaxed)
      (a := RequestAction.requestPath) (r := .mark) (g := { g with mark := p }) (d := d)
      (f := RequestState.onRequestPath) rfl hlen hs
    unfold pathActs
    split_ifs
    · exact Scanner.runActs_one hact
    · exact (Scanner.runActs_cons hact).trans rfl

theorem go_query {w rest : List UInt8} {e : UInt8} (he : e = 32 ∨ e = 35) (hw : w ≠ [])
    (h : Derives (rule relaxed) [.query] w) (hlen : buffer.length < 2147483648)
    (hs : buffer.drop p = w ++ e :: rest) :
    (requestScannerUnder relaxed).go buffer p 29 (g, d) =
      (requestScannerUnder relaxed).go buffer (p + w.length + 1) (if e = 32 then 4 else 20)
        ({ g with queryStart := p }, RequestState.onRequestQuery w d) := by
  refine Scanner.go_piece (P := requestScannerUnder relaxed) (r := .queryStart) rfl
    (trace_query hw h he) hs rfl rfl ?_
  exact (Scanner.runActs_cons (Scanner.act_element (P := requestScannerUnder relaxed)
    (a := RequestAction.queryString) (r := .queryStart) (g := { g with queryStart := p })
    (f := RequestState.onRequestQuery) rfl hlen hs)).trans rfl

theorem go_fragment {w rest : List UInt8} (hw : w ≠ [])
    (h : Derives (rule relaxed) [.fragment] w) (hlen : buffer.length < 2147483648)
    (hs : buffer.drop p = w ++ 32 :: rest) :
    (requestScannerUnder relaxed).go buffer p 20 (g, d) =
      (requestScannerUnder relaxed).go buffer (p + w.length + 1) 4
        ({ g with mark := p }, RequestState.onRequestFragment w d) :=
  Scanner.go_element (P := requestScannerUnder relaxed) rfl rfl (trace_fragment hw h) hlen hs
    rfl rfl

/-- What follows the path in the request line. -/
def targetTail (query fragment : List UInt8) : List UInt8 :=
  (if query = [] then [] else 63 :: query) ++
    ((if fragment = [] then [] else 35 :: fragment) ++ [32])

theorem go_targetTail {query fragment rest : List UInt8}
    (hquery : Derives (rule relaxed) [.query] query)
    (hfragment : Derives (rule relaxed) [.fragment] fragment)
    (hlen : buffer.length < 2147483648) (hs : buffer.drop p = targetTail query fragment ++ rest)
    (hd : d.data.query = [] ∧ d.data.fragment = []) :
    ∃ e rest', buffer.drop p = e :: rest' ∧ (e = 32 ∨ e = 35 ∨ e = 63) ∧ ∀ g, ∃ g',
      (requestScannerUnder relaxed).go buffer (p + 1) (pathTarget e) (g, d) =
        (requestScannerUnder relaxed).go buffer (p + (targetTail query fragment).length) 4
          (g', { d with data := { d.data with query := query, fragment := fragment } }) := by
  obtain ⟨hdq, hdf⟩ := hd
  by_cases hq : query = []
  · by_cases hf : fragment = []
    · subst hq hf
      refine ⟨32, rest, hs, Or.inl rfl, fun g => ⟨g, ?_⟩⟩
      rcases d with ⟨_, _, _, ⟨_, _, _, _, _, _, _⟩, _⟩
      simp only at hdq hdf
      subst hdq hdf
      rfl
    · have hs' : buffer.drop p = 35 :: (fragment ++ 32 :: rest) := by
        rw [hs, targetTail, if_pos hq, if_neg hf]
        simp
      refine ⟨35, _, hs', Or.inr (Or.inl rfl), fun g => ⟨{ g with mark := p + 1 }, ?_⟩⟩
      have hgo := go_fragment (g := g) (d := d) hf hfragment hlen (drop_succ hs')
      have hend : p + (targetTail query fragment).length = p + 1 + fragment.length + 1 := by
        rw [targetTail, if_pos hq, if_neg hf]
        simp
        omega
      rw [hend]
      refine hgo.trans ?_
      rw [hq, ← hdq]
      rfl
  · by_cases hf : fragment = []
    · have hs' : buffer.drop p = 63 :: (query ++ 32 :: rest) := by
        rw [hs, targetTail, if_neg hq, if_pos hf]
        simp
      refine ⟨63, _, hs', Or.inr (Or.inr rfl), fun g => ⟨{ g with queryStart := p + 1 }, ?_⟩⟩
      have hgo := go_query (g := g) (d := d) (Or.inl rfl) hq hquery hlen (drop_succ hs')
      have hend : p + (targetTail query fragment).length = p + 1 + query.length + 1 := by
        rw [targetTail, if_neg hq, if_pos hf]
        simp
        omega
      rw [hend]
      refine hgo.trans ?_
      rw [hf, ← hdf]
      rfl
    · have hs' : buffer.drop p = 63 :: (query ++ 35 :: (fragment ++ 32 :: rest)) := by
        rw [hs, targetTail, if_neg hq, if_neg hf]
        simp
      refine ⟨63, _, hs', Or.inr (Or.inr rfl), fun g =>
        ⟨{ g with queryStart := p + 1, mark := p + 1 + query.length + 1 }, ?_⟩⟩
      have hs₁ := drop_succ hs'
      have hgo := go_query (g := g) (d := d) (Or.inr rfl) hq hquery hlen hs₁
      have hgo' := go_fragment (g := { g with queryStart := p + 1 })
        (d := RequestState.onRequestQuery query d) hf hfragment hlen (drop_succ (drop_add hs₁))
      have hend : p + (targetTail query fragment).length =
          p + 1 + query.length + 1 + fragment.length + 1 := by
        rw [targetTail, if_neg hq, if_neg hf]
        simp
        omega
      rw [hend]
      exact hgo.trans hgo'

theorem trace_version {version : ℕ} (h : version = 0x10 ∨ version = 0x11) :
    (requestTable.under relaxed).trace 4 (dumpVersion version ++ [13]) =
      some (Scanner.valueTrace .mark [.httpVersion] (dumpVersion version), 17) := by
  rcases h with rfl | rfl
  · simp only [dumpVersion, decimal]
    cases relaxed <;> decide
  · simp only [dumpVersion, decimal]
    cases relaxed <;> decide

theorem onRequestVersion_dump {version : ℕ} (h : version = 0x10 ∨ version = 0x11)
    (rest : List UInt8) (d : RequestState) :
    RequestState.onRequestVersion (dumpVersion version ++ rest) (dumpVersion version).length d =
      { d with data.version := version } := by
  unfold RequestState.onRequestVersion
  rw [strncmpEq_take rest [] _ le_rfl, strncmpEq_take rest [] _ le_rfl]
  rcases h with rfl | rfl
  · rw [if_neg (by simp only [dumpVersion, decimal]; decide),
      if_pos (by simp only [dumpVersion, decimal]; decide)]
  · rw [if_pos (by simp only [dumpVersion, decimal]; decide)]

theorem trace_lf : (requestTable.under relaxed).trace 17 [10] = some ([[]], 13) := by
  obtain ⟨q, hq, h⟩ := trace_of_goes (layout relaxed).lf List.mem_cons_self (c := 10) (by decide)
  rwa [List.mem_singleton.mp hq] at h

variable (relaxed) in
theorem go_version {version : ℕ} (h : version = 0x10 ∨ version = 0x11) {rest : List UInt8}
    (hlen : buffer.length < 2147483648)
    (hs : buffer.drop p = dumpVersion version ++ 13 :: 10 :: rest) :
    (requestScannerUnder relaxed).go buffer p 4 (g, d) =
      (requestScannerUnder relaxed).go buffer (p + (dumpVersion version).length + 2) 13
        ({ g with mark := p }, { d with data.version := version }) := by
  have hgo := Scanner.go_pointer (P := requestScannerUnder relaxed) (g := g) (d := d) rfl rfl
    (trace_version h) hlen hs rfl rfl
  rw [onRequestVersion_dump h] at hgo
  exact hgo.trans (Scanner.go_byte (P := requestScannerUnder relaxed) trace_lf
    (drop_succ (drop_add hs)) _)

/-! ## Methods -/

theorem httpMethodToString_mem : ∀ m : HttpMethod, m ≠ .INVALID_METHOD →
    (m, httpMethodToString m) ∈ httpMethodMap := by
  intro m
  cases m <;> decide

theorem charsToHttpMethod_name : ∀ e ∈ httpMethodMap, charsToHttpMethod (e.2 ++ [32]) = e.1 := by
  decide

theorem go_method {m : HttpMethod} (hm : m ≠ .INVALID_METHOD) (hsearch : m ≠ .MSEARCH)
    {rest : List UInt8} (hlen : buffer.length < 2147483648)
    (hs : buffer.drop p = httpMethodToString m ++ 32 :: rest) :
    (requestScannerUnder relaxed).go buffer p 1 (g, d) =
      (requestScannerUnder relaxed).go buffer (p + (httpMethodToString m).length + 1) 3
        ({ g with mark := p }, { d with data.method := m }) := by
  have hmem := httpMethodToString_mem m hm
  have hgo := Scanner.go_pointer (P := requestScannerUnder relaxed) (g := g) (d := d) rfl rfl
    ((layout relaxed).method _ hmem hsearch) hlen hs rfl rfl
  have hchars : charsToHttpMethod (httpMethodToString m ++ 32 :: rest) = m := by
    rw [charsToHttpMethod_stop _ rest []]
    exact charsToHttpMethod_name _ hmem
  simp only [RequestState.onRequestMethod, hchars, if_neg hm] at hgo
  exact hgo

/-! ## The header block -/

def fieldActs (relaxed : Bool) : (requestScannerUnder relaxed).FieldActs where
  mark := .mark
  startField := .startField
  writeField := .writeField
  writeValue := .writeValue
  callback := RequestState.onRequestHttpFiled
  instr_mark := rfl
  instr_startField := rfl
  instr_writeField := rfl
  instr_writeValue := rfl
  runs_on := by intro a ha; revert a; cases relaxed <;> decide

/-- No control character, and no white space in front. -/
def IsPrintable (value : List UInt8) : Prop :=
  (∀ c ∈ value, within printable c.toNat = true) ∧ ∀ c ∈ value.head?, isSpace c = false

instance : DecidablePred IsPrintable := fun value =>
  inferInstanceAs (Decidable ((∀ c ∈ value, _) ∧ ∀ c ∈ value.head?, _))

theorem visible_of_isSpace : ∀ c : UInt8, within printable c.toNat = true → isSpace c = false →
    within visible c.toNat = true := by
  decide

theorem line_header {name value : List UInt8} {pad : List UInt8} (hpad : pad = [] ∨ pad = [32])
    (hname : IsToken name) (hvalue : IsPrintable value) :
    Scanner.Line (fieldActs relaxed) 13 13 [] [] name pad value := by
  have hl := layout relaxed
  obtain ⟨hne, htoken⟩ := hname
  obtain ⟨c, cs, rfl⟩ := List.exists_cons_of_ne_nil hne
  obtain ⟨q₁, hq₁, h₁⟩ := trace_of_goes hl.name_first List.mem_cons_self
    (htoken c List.mem_cons_self)
  obtain ⟨q₂, hq₂, h₂⟩ := trace_stretch hl.name hq₁ fun d hd =>
    htoken d (List.mem_cons_of_mem _ hd)
  obtain ⟨q₃, hq₃, h₃⟩ := trace_of_goes hl.colon hq₂ (c := 58) (by decide)
  obtain rfl := List.mem_singleton.mp hq₃
  obtain ⟨q₄, hq₄, h₄⟩ := trace_of_goes hl.blank List.mem_cons_self (c := 32) (by decide)
  obtain rfl := List.mem_singleton.mp hq₄
  have hcolon : (requestTable.under relaxed).trace q₂ (58 :: pad) =
      some ([.writeField] :: List.replicate pad.length [.mark], 15) := by
    rcases hpad with rfl | rfl
    · exact h₃
    · exact trace_append h₃ h₄
  have hv : (requestTable.under relaxed).trace 15 (value ++ [13]) =
      some (Scanner.valueTrace .mark [.writeValue] value, 17) := by
    cases value with
    | nil =>
        obtain ⟨q, hq, h⟩ := trace_of_goes hl.value_empty List.mem_cons_self (c := 13) (by decide)
        rwa [List.mem_singleton.mp hq] at h
    | cons x w =>
        exact Scanner.trace_piece hl.value_first hl.value hl.value_cr
          (visible_of_isSpace x (hvalue.1 x List.mem_cons_self) (hvalue.2 x rfl))
          fun c hc => hvalue.1 c (List.mem_cons_of_mem _ hc)
  exact ⟨List.cons_ne_nil c cs, ⟨q₂, 15, 17, trace_append h₁ h₂, hcolon, hv, trace_lf⟩,
    by simp⟩

variable (relaxed) in
/-- The empty line, behind which the loop is left. -/
theorem go_done {rest : List UInt8} (hs : buffer.drop p = 13 :: 10 :: rest)
    (hd : d.xmlSent = false ∧ d.jsonSent = false) :
    ∃ g', (requestScannerUnder relaxed).go buffer p 13 (g, d) = .ok (p + 2, 348, (g', d)) := by
  have hl := layout relaxed
  obtain ⟨q, hq, hcr⟩ := trace_of_goes hl.cr List.mem_cons_self (c := 13) (by decide)
  obtain rfl := List.mem_singleton.mp hq
  obtain ⟨r, hnext, hacts, htarget⟩ := next_of_goes hl.done List.mem_cons_self (c := 10)
    (by decide)
  have hset : runTrace ((requestScannerUnder relaxed).act buffer) p [[.startField]] (g, d) =
      .ok ({ g with fieldStart := p }, d) := rfl
  rw [Scanner.go_trace (P := requestScannerUnder relaxed) (w := [13]) hcr hs
    (by simp [requestScannerUnder, requestScanner]) hset]
  refine ⟨{ g with fieldStart := p, bodyStart := p + 2 }, ?_⟩
  have hrun : runActs ((requestScannerUnder relaxed).act buffer) (p + 1) r.acts
      ({ g with fieldStart := p }, d) =
        .ok ({ g with fieldStart := p, bodyStart := p + 2 }, d) := by
    rw [hacts]
    refine Scanner.runActs_one ((requestScannerUnder relaxed).act_eq_ok.mpr ?_)
    simp [requestScannerUnder, requestScanner, RequestState.instr, Instr.run, hd]
  have hbreak : r.acts.any (requestScannerUnder relaxed).breaks = true := by
    rw [hacts]
    rfl
  rw [← List.mem_singleton.mp htarget]
  exact execFrom_break (drop_succ hs) hnext hrun hbreak

/-- What `dump` writes for the connection. -/
def connection (close : Bool) : List UInt8 :=
  if close then bytes "close" else bytes "keep=alive"

/-- The headers that are written. -/
def headersRead (r : HttpRequest) : MapType :=
  MapType.withLength r.body
    (MapType.setAll r.headers (MapType.set (bytes "connection") (connection r.close) []))

/-- A request whose parts the grammar derives: the path from the rule of this
name or from one that the request line has in its place. -/
structure Writable (relaxed : Bool) (r : HttpRequest) : Prop where
  method : r.method ≠ .INVALID_METHOD
  version : r.version = 0x10 ∨ r.version = 0x11
  path : Derives (rule relaxed) [.path] r.path ∨ Derives (rule relaxed) [.relativePart] r.path ∨
    Derives (rule relaxed) [.hierPart] r.path
  query : Derives (rule relaxed) [.query] r.query
  fragment : Derives (rule relaxed) [.fragment] r.fragment
  ordered : r.headers.Ordered
  name : ∀ e ∈ r.headers, IsToken e.1 ∧
    folded e.1 ∉ [bytes "connection", bytes "content-length"]
  value : ∀ e ∈ r.headers, IsPrintable e.2

theorem foldl_callback : ∀ (headers : MapType) (d : RequestState),
    headers.foldl (fun d e => (fieldActs relaxed).callback e.1 e.2 d) d =
      { d with data.headers := MapType.setAll headers d.data.headers }
  | [], _ => rfl
  | e :: headers, d => foldl_callback headers (RequestState.onRequestHttpFiled e.1 e.2 d)

theorem isPrintable_decimal (n : ℕ) : IsPrintable (decimal n) := by
  have hdigit : ∀ c : UInt8, (digit 10 c).isSome = true →
      within printable c.toNat = true ∧ isSpace c = false := by
    decide
  refine ⟨fun c hc => (hdigit c (mem_decimal hc)).1, fun c hc => ?_⟩
  exact (hdigit c (mem_decimal (List.mem_of_mem_head? hc))).2

variable (relaxed) in
/-- The length of the body, if there is one, and the empty line. -/
theorem go_dumpLength (hlen : buffer.length < 2147483648) {body rest : List UInt8}
    (hs : buffer.drop p = dumpLength body ++ rest) (hd : d.xmlSent = false ∧ d.jsonSent = false) :
    ∃ g', (requestScannerUnder relaxed).go buffer p 13 (g, d) =
      .ok (p + (dumpLength body).length, 348,
        (g', { d with data.headers := MapType.withLength body d.data.headers })) := by
  unfold dumpLength at hs ⊢
  unfold MapType.withLength
  by_cases hbody : body = []
  · simp only [if_pos hbody] at hs ⊢
    exact go_done relaxed hs hd
  · simp only [if_neg hbody] at hs ⊢
    have hs' : buffer.drop p = bytes "content-length" ++ 58 :: ([32] ++
        (decimal body.length ++ 13 :: 10 :: (13 :: 10 :: rest))) := by
      rw [hs]
      simp [bytes, crlf]
    have hlength : (bytes "content-length: " ++ decimal body.length ++ crlf ++ crlf).length =
        (bytes "content-length").length + 1 + [(32 : UInt8)].length +
          (decimal body.length).length + 2 + 2 := by
      simp [bytes, crlf]
      omega
    obtain ⟨g₁, hgo⟩ := Scanner.go_plainLine (P := requestScannerUnder relaxed) (g := g) (d := d)
      (line_header (Or.inr rfl) (by decide) (isPrintable_decimal body.length)) hlen hs'
    obtain ⟨g₂, hdone⟩ := go_done relaxed (g := g₁)
      (d := RequestState.onRequestHttpFiled (bytes "content-length") (decimal body.length) d)
      (Scanner.drop_line hs') hd
    exact ⟨g₂, by rw [hlength]; exact hgo.trans hdone⟩

/-- What follows the path in the dump of a request. -/
def afterPath (r : HttpRequest) : List UInt8 :=
  targetTail r.query r.fragment ++ (dumpVersion r.version ++ 13 :: 10 ::
    (bytes "connection" ++ 58 :: ([32] ++ (connection r.close ++ 13 :: 10 ::
      (r.headers.flatMap (headerLine [58]) ++ dumpLength r.body)))))

/-- The loop over it. -/
theorem go_afterPath {r : HttpRequest} (hr : Writable relaxed r)
    {rest : List UInt8} (hlen : buffer.length < 2147483648)
    (hs : buffer.drop p = afterPath r ++ rest)
    (hd : d.data.query = [] ∧ d.data.fragment = []) (hheaders : d.data.headers = [])
    (hsent : d.xmlSent = false ∧ d.jsonSent = false) :
    ∃ e rest', buffer.drop p = e :: rest' ∧ (e = 32 ∨ e = 35 ∨ e = 63) ∧ ∀ g, ∃ g',
      (requestScannerUnder relaxed).go buffer (p + 1) (pathTarget e) (g, d) =
        .ok (p + (afterPath r).length, 348, (g', { d with data := { d.data with
          query := r.query, fragment := r.fragment, version := r.version,
          headers := headersRead r } })) := by
  have hs₀ : buffer.drop p = targetTail r.query r.fragment ++ (dumpVersion r.version ++ 13 ::
      10 :: (bytes "connection" ++ 58 :: ([32] ++ (connection r.close ++ 13 :: 10 ::
        (r.headers.flatMap (headerLine [58]) ++ (dumpLength r.body ++ rest)))))) := by
    rw [hs, afterPath]
    simp
  have hs₁ := drop_add hs₀
  have hs₂ := drop_succ (drop_succ (drop_add hs₁))
  have hs₃ := Scanner.drop_line hs₂
  have hs₄ := drop_add hs₃
  obtain ⟨e, rest', he, hmem, htail⟩ := go_targetTail hr.query hr.fragment hlen hs₀ hd
  refine ⟨e, rest', he, hmem, fun g => ?_⟩
  obtain ⟨g₁, hgo₁⟩ := htail g
  have hgo₂ := go_version relaxed (g := g₁)
    (d := { d with data := { d.data with query := r.query, fragment := r.fragment } })
    hr.version hlen hs₁
  have hvalue : IsPrintable (connection r.close) := by
    cases r.close <;> decide
  obtain ⟨g₃, hgo₃⟩ := Scanner.go_plainLine (P := requestScannerUnder relaxed)
    (g := { g₁ with mark := p + (targetTail r.query r.fragment).length })
    (d := { d with data := { d.data with query := r.query, fragment := r.fragment,
                                         version := r.version } })
    (line_header (Or.inr rfl) (by decide) hvalue) hlen hs₂
  obtain ⟨g₄, hgo₄⟩ := Scanner.go_headers (F := fieldActs relaxed) (g := g₃) (q := 13)
    (d := RequestState.onRequestHttpFiled (bytes "connection") (connection r.close)
      { d with data := { d.data with query := r.query, fragment := r.fragment,
                                     version := r.version } })
    [] hlen (fun e he => line_header (Or.inl rfl) (hr.name e he).1 (hr.value e he)) hs₃
  rw [foldl_callback] at hgo₄
  obtain ⟨g₅, hgo₅⟩ := go_dumpLength relaxed (g := g₄)
    (d := { d with data := { d.data with
      query := r.query, fragment := r.fragment, version := r.version,
      headers := MapType.setAll r.headers
        (MapType.set (bytes "connection") (connection r.close) d.data.headers) } })
    hlen hs₄ hsent
  refine ⟨g₅, ?_⟩
  have hend : p + (afterPath r).length = p + (targetTail r.query r.fragment).length +
      (dumpVersion r.version).length + 2 + ((bytes "connection").length + 1 +
        [(32 : UInt8)].length + (connection r.close).length + 2) +
      (r.headers.flatMap (headerLine [58])).length + (dumpLength r.body).length := by
    unfold afterPath
    simp only [List.length_append, List.length_cons]
    omega
  rw [hend, hgo₁, hgo₂]
  refine hgo₃.trans (hgo₄.trans (hgo₅.trans ?_))
  rw [hheaders]
  rfl

end Run

end RequestText

end Http

end Skt
