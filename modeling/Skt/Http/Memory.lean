import Skt.Lib.TwoRuns
import Skt.Http.Pieces

/-!
# What a new parser finds in memory

Neither `http_parser_init` nor the constructor writes `query_start` and `uri_relaxed`. The
first is always written before an action reads it. The second decides whether `{`, `}` and
`^` may stand in a URI, so a request with one of them is read in one way or another.
-/

namespace Skt

set_option maxRecDepth 4000

namespace Http

open Lib Lib.CString Lib.Ragel

/-! ## What is known of `query_start` -/

namespace RequestState

/-- `query_start` has been written. -/
def recordQuery (a : RequestAction) (written : Bool) : Bool :=
  if a = .startQuery then true else written

/-- `query_string` reads `query_start`. -/
def needsQuery (a : RequestAction) (written : Bool) : Bool :=
  if a = .queryString then written else true

/-- The states inside a query. -/
def inQuery (cs : ℕ) : Bool := cs = 30 || cs = 31 || cs = 32

/-- The same registers and message, but for a `query_start` that has not been written. -/
def SameBut (written : Bool) (s s' : Registers × RequestState) : Prop :=
  s'.2 = s.2 ∧ s'.1 = { s.1 with queryStart := s'.1.queryStart } ∧
    (written = true → s'.1.queryStart = s.1.queryStart)

theorem SameBut.exists {written : Bool} {s s' : Registers × RequestState}
    (h : SameBut written s s') : ∃ q, s' = ({ s.1 with queryStart := q }, s.2) ∧
      (written = true → q = s.1.queryStart) :=
  ⟨s'.1.queryStart, Prod.ext h.2.1 h.1, h.2.2⟩

/-- A callback that copies a string from `mark` on. -/
theorem element_agree {buffer : List UInt8} {p q : ℕ} {a : RequestAction} {written : Bool}
    {f : List UInt8 → RequestState → RequestState} (ha : instr a = .element .mark f)
    {g : Registers} {d : RequestState} (hq : written = true → q = g.queryStart) :
    Agree (SameBut written) (requestScanner.act buffer p a (g, d))
      (requestScanner.act buffer p a ({ g with queryStart := q }, d)) := by
  have hinstr : requestScanner.instr a = .element .mark f := ha
  simp only [Scanner.act, hinstr, Instr.run, Registers.get]
  cases stdString buffer g.mark (lenOf g.mark p) with
  | error e => exact rfl
  | ok str => exact ⟨rfl, rfl, hq⟩

/-- The name and the value of a field. -/
theorem field_agree {buffer : List UInt8} {p q : ℕ} {written : Bool} {g : Registers}
    {d : RequestState} (hq : written = true → q = g.queryStart) :
    Agree (SameBut written) (requestScanner.act buffer p .writeValue (g, d))
      (requestScanner.act buffer p .writeValue ({ g with queryStart := q }, d)) := by
  have hinstr : requestScanner.instr .writeValue = .field onRequestHttpFiled := rfl
  simp only [Scanner.act, hinstr, Instr.run]
  by_cases hzero : g.fieldLen = 0
  · rw [if_pos hzero, if_pos hzero]
    exact ⟨rfl, rfl, hq⟩
  rw [if_neg hzero, if_neg hzero]
  cases stdString buffer g.fieldStart g.fieldLen with
  | error e => exact rfl
  | ok key =>
      cases stdString buffer g.mark (lenOf g.mark p) with
      | error e => exact rfl
      | ok v => exact ⟨rfl, rfl, hq⟩

theorem act_agree {buffer : List UInt8} {p : ℕ} {a : RequestAction} {written : Bool}
    {s s' : Registers × RequestState} (hneeds : needsQuery a written = true)
    (h : SameBut written s s') :
    Agree (SameBut (recordQuery a written)) (requestScanner.act buffer p a s)
      (requestScanner.act buffer p a s') := by
  obtain ⟨q, rfl, hq⟩ := h.exists
  obtain ⟨g, d⟩ := s
  cases a with
  | startQuery => exact ⟨rfl, rfl, fun _ => rfl⟩
  | queryString =>
      -- The one action that reads the register.
      obtain rfl := hq hneeds
      show Agree (SameBut written) _ _
      cases requestScanner.act buffer p .queryString (g, d) with
      | error e => exact rfl
      | ok s => exact ⟨rfl, rfl, fun _ => rfl⟩
  | fragment => exact element_agree rfl hq
  | requestPath => exact element_agree rfl hq
  | writeValue => exact field_agree hq
  | mark | startField | writeField | requestMethod | requestUri | httpVersion | xml | json
    | done => exact ⟨rfl, rfl, hq⟩

theorem requestScanner_tracks (buffer : List UInt8) :
    Tracks recordQuery needsQuery inQuery SameBut requestTable (requestScanner.act buffer) where
  row := by
    intro cond cs c r hnext
    have hrows : requestTable.checked (fun q r =>
        admits recordQuery needsQuery r.acts (inQuery q) &&
          (!inQuery r.target || recordAll recordQuery r.acts (inQuery q))) = true := by
      decide
    have hrow := checked_next hrows hnext
    rw [Bool.and_eq_true] at hrow
    refine ⟨hrow.1, fun {s s'} h => ⟨h.1, h.2.1, fun htarget => h.2.2 ?_⟩⟩
    simpa [htarget] using hrow.2
  forget := fun h => ⟨h.1, h.2.1, fun hzero => absurd hzero (by decide)⟩
  act := act_agree

theorem guardedLast : requestTable.GuardedLast := by decide

end RequestState

namespace HttpRequestParser

/-! ## Sequences of calls -/

/-- What is seen of a sequence of calls: the count that each returns, the message, `m_error`
and the two flags. It ends with the first exception. -/
def parse : HttpRequestParser → List (List UInt8) →
    List (Except (Thrown RequestState) (ℕ × HttpRequest × ℕ × Bool × ℤ))
  | _, [] => []
  | s, data :: rest =>
      match s.excute data with
      | .error e => [.error e]
      | .ok (s', n, _) => .ok (n, s'.outcome) :: s'.parse rest

/-- In one of the calls, which returns, the parser comes to a byte that it would take only
with `uri_relaxed`. -/
def Relaxes : HttpRequestParser → List (List UInt8) → Prop
  | _, [] => False
  | s, data :: rest =>
      match s.excute data with
      | .error _ => False
      | .ok (s', _, _) =>
          requestTable.meets requestScanner.breaks data s.cs = true ∨ s'.Relaxes rest

/-- The states of the header fields, and those behind a request: no URI follows. -/
def isLate (cs : ℕ) : Bool := cs = 0 || (13 ≤ cs && cs ≤ 18) || 348 ≤ cs

/-- Two parsers with the same calls behind them, in different memory; `body_start` is only
written at the end of a request. -/
structure Twin (s s' : HttpRequestParser) : Prop where
  strict : s.uriRelaxed = false
  cs_eq : s'.cs = s.cs
  same : RequestState.SameBut (RequestState.inQuery s.cs) (s.regs, s.state) (s'.regs, s'.state)
  bodyStart : isLate s.cs = true ∨ s.regs.bodyStart = 0

theorem twin_new (queryStart queryStart' : ℕ) (uriRelaxed : Bool) :
    Twin (new queryStart false) (new queryStart' uriRelaxed) :=
  ⟨rfl, rfl, ⟨rfl, rfl, fun h => absurd h (by decide : ¬RequestState.inQuery 1 = true)⟩,
    Or.inr rfl⟩

/-! ## One call -/

/-- Behind a URI the automaton stays behind it, and it is there at the end of a request. -/
theorem isLate_next {cond : Bool} {cs : ℕ} {c : UInt8} {r : Row RequestAction}
    (h : requestTable.next cond cs c = some r) :
    (isLate cs = true → isLate r.target = true ∧ r.guarded = false) ∧
      (r.acts.any requestScanner.breaks = true → isLate r.target = true) := by
  have hrows : requestTable.checked (fun q r =>
      (!isLate q || (isLate r.target && !r.guarded)) &&
        (!r.acts.any requestScanner.breaks || isLate r.target)) = true := by
    decide
  have hrow := checked_next hrows h
  rw [Bool.and_eq_true] at hrow
  refine ⟨fun hlate => ?_, fun hbreaks => ?_⟩
  · have hboth : isLate r.target = true ∧ (!r.guarded) = true := by
      simpa [hlate] using hrow.1
    exact ⟨hboth.1, by simpa using hboth.2⟩
  · simpa [hbreaks] using hrow.2

theorem not_meets_of_isLate : ∀ (xs : List UInt8) {cs : ℕ}, isLate cs = true →
    requestTable.meets requestScanner.breaks xs cs = false
  | [], _, _ => rfl
  | c :: xs, cs, hlate => by
      simp only [Table.meets]
      cases hnext : requestTable.next false cs c with
      | none =>
          cases hguard : requestTable.next true cs c with
          | none => rfl
          | some r =>
              -- The row would be there without the condition.
              have hplain := ((isLate_next hguard).1 hlate).2
              have hfits : r.fits false c = true := by
                have := next_fits hguard
                simpa [Row.fits, hplain] using this
              have hmem : r ∈ requestTable.getD cs [] := List.mem_of_find?_eq_some hguard
              exact absurd hfits (List.find?_eq_none.mp hnext r hmem)
      | some r =>
          have hrest := not_meets_of_isLate xs ((isLate_next hnext).1 hlate).1
          dsimp only
          rw [hrest, Bool.and_false]

/-- Only the end of a request writes `body_start`. -/
theorem exec_bodyStart {cond : Bool} {buffer : List UInt8} :
    ∀ (xs : List UInt8) {p cs p' cs' : ℕ} {s s' : Registers × RequestState},
      isLate cs = true ∨ s.1.bodyStart = 0 →
      exec requestTable cond requestScanner.breaks (requestScanner.act buffer) xs p cs s =
        .ok (p', cs', s') → isLate cs' = true ∨ s'.1.bodyStart = 0
  | [], p, cs, p', cs', s, s', hbody, h => by
      cases h
      exact hbody
  | c :: xs, p, cs, p', cs', s, s', hbody, h => by
      simp only [exec] at h
      cases hnext : requestTable.next cond cs c with
      | none =>
          rw [hnext] at h
          cases h
          exact Or.inl rfl
      | some r =>
          rw [hnext] at h
          dsimp only at h
          cases hacts : runActs (requestScanner.act buffer) p r.acts s with
          | error e =>
              rw [hacts] at h
              cases h
          | ok s₁ =>
              rw [hacts] at h
              dsimp only at h
              by_cases hb : r.acts.any requestScanner.breaks = true
              · rw [if_pos hb] at h
                cases h
                exact Or.inl ((isLate_next hnext).2 hb)
              · rw [if_neg hb] at h
                refine exec_bodyStart xs ?_ h
                rcases hbody with hlate | hzero
                · exact Or.inl ((isLate_next hnext).1 hlate).1
                · right
                  refine runActs_invariant (I := fun s : Registers × RequestState =>
                    s.1.bodyStart = 0) r.acts (fun a ha s s' hs hact => ?_) hzero hacts
                  have hbreaks : requestScanner.breaks a = false := by
                    by_contra hne
                    exact hb (List.any_eq_true.mpr ⟨a, ha, by simpa using hne⟩)
                  rw [Scanner.bodyStart_of_act RequestState.requestScanner_lawful hbreaks hact]
                  exact hs

theorem Twin.reset {s s' : HttpRequestParser} (h : Twin s s') :
    RequestState.SameBut (RequestState.inQuery s.cs) (s.regs.reset, s.state)
      (s'.regs.reset, s'.state) := by
  obtain ⟨hstate, hregs, hquery⟩ := h.same
  refine ⟨hstate, ?_, hquery⟩
  dsimp only at hregs ⊢
  rw [hregs]
  rfl

theorem asserts_congr {len p : ℕ} {s s' : Registers × RequestState} {written : Bool}
    (h : RequestState.SameBut written s s') : Asserts len p s'.1 ↔ Asserts len p s.1 := by
  rw [h.2.1]
  exact Iff.rfl

theorem scan_twin {s s' : HttpRequestParser} (h : Twin s s') {data : List UInt8}
    (hmeets : s'.uriRelaxed = true →
      requestTable.meets requestScanner.breaks data s.cs = false) :
    Agree (Alike RequestState.inQuery RequestState.SameBut)
      (requestScanner.scan s.uriRelaxed data s.cs (s.regs.reset, s.state))
      (requestScanner.scan s'.uriRelaxed data s'.cs (s'.regs.reset, s'.state)) := by
  unfold Scanner.scan
  rw [h.cs_eq]
  by_cases hzero : data.length ≠ 0 ∧ s.cs = 0
  · rw [if_pos hzero, if_pos hzero]
    obtain ⟨hstate, hregs, -⟩ := h.reset
    have hquery : RequestState.inQuery 2 = false := rfl
    exact ⟨rfl, rfl, hstate, hregs, fun htrue => absurd (hquery.symm.trans htrue) (by decide)⟩
  · rw [if_neg hzero, if_neg hzero, h.strict]
    exact (RequestState.requestScanner_tracks data).exec_alike RequestState.guardedLast
      s'.uriRelaxed data hmeets h.reset

theorem scan_bodyStart {s : HttpRequestParser}
    (h : isLate s.cs = true ∨ s.regs.bodyStart = 0) {data : List UInt8} {p cs : ℕ}
    {s' : Registers × RequestState}
    (hscan : requestScanner.scan s.uriRelaxed data s.cs (s.regs.reset, s.state) =
      .ok (p, cs, s')) :
    isLate (if s.cs = 0 then s.cs else cs) = true ∨ s'.1.bodyStart = 0 := by
  unfold Scanner.scan at hscan
  by_cases hzero : s.cs = 0
  · rw [if_pos hzero, hzero]
    exact Or.inl rfl
  · rw [if_neg fun hboth => hzero hboth.2] at hscan
    rw [if_neg hzero]
    exact exec_bodyStart data h hscan

/-- A call on a buffer in which no byte is left to `uri_relaxed`. -/
theorem excute_twin {s s' : HttpRequestParser} (h : Twin s s') {data : List UInt8}
    (hmeets : s'.uriRelaxed = true →
      requestTable.meets requestScanner.breaks data s.cs = false) :
    Agree (fun r r' => r'.2.1 = r.2.1 ∧ Twin r.1 r'.1 ∧ r'.1.uriRelaxed = s'.uriRelaxed)
      (s.excute data) (s'.excute data) := by
  unfold excute execute
  by_cases hnil : data.length = 0
  · rw [if_pos hnil, if_pos hnil]
    exact ⟨rfl, h, rfl⟩
  rw [if_neg hnil, if_neg hnil]
  by_cases hlong : 2147483648 ≤ data.length
  · rw [if_pos hlong, if_pos hlong]
    have hstate : s'.state = s.state := h.same.1
    show (⟨.assertion, s.state⟩ : Thrown RequestState) = ⟨.assertion, s'.state⟩
    rw [hstate]
  rw [if_neg hlong, if_neg hlong]
  rcases (scan_twin h hmeets).cases with
    ⟨e, hs, hs'⟩ | ⟨⟨p, cs, g, d⟩, ⟨p', cs', g', d'⟩, hs, hs', hp, hcs, hsame⟩
  · rw [hs, hs']
    exact rfl
  obtain rfl : p = p' := hp
  obtain rfl : cs = cs' := hcs
  have hbody := scan_bodyStart h.bodyStart hs
  rw [hs, hs', h.cs_eq]
  dsimp only
  by_cases hassert : Asserts data.length p g
  · rw [if_pos hassert, if_pos ((asserts_congr hsame).mpr hassert)]
    refine ⟨rfl, ⟨h.strict, rfl, ?_, hbody⟩, rfl⟩
    by_cases hzero : s.cs = 0
    · simp only [hzero, if_true]
      exact ⟨hsame.1, hsame.2.1, fun hquery => absurd hquery (by decide)⟩
    · simp only [hzero, if_false]
      exact hsame
  · rw [if_neg hassert, if_neg fun hn => hassert ((asserts_congr hsame).mp hn)]
    have hstate : d' = d := hsame.1
    show (⟨.assertion, d⟩ : Thrown RequestState) = ⟨.assertion, d'⟩
    rw [hstate]

/-- A call ends with the exception of its scan. -/
theorem excute_of_error {s : HttpRequestParser} {data : List UInt8} {e : Thrown RequestState}
    (hne : data ≠ []) (hlen : data.length < 2147483648) (hcs : s.cs ≠ 0)
    (hexec : exec requestTable s.uriRelaxed requestScanner.breaks (requestScanner.act data) data
      0 s.cs (s.regs.reset, s.state) = .error e) : s.excute data = .error e := by
  have hpos : 0 < data.length := List.length_pos_iff.mpr hne
  have hscan : requestScanner.scan s.uriRelaxed data s.cs (s.regs.reset, s.state) =
      .error e := by
    unfold Scanner.scan
    rw [if_neg fun h => hcs h.2]
    exact hexec
  unfold excute execute
  rw [if_neg hpos.ne', if_neg (Nat.not_le.mpr hlen), hscan]

/-- A call on a buffer with such a byte. -/
theorem excute_meets {s s' : HttpRequestParser} (h : Twin s s') (hrelaxed : s'.uriRelaxed = true)
    {data : List UInt8} (hmeets : requestTable.meets requestScanner.breaks data s.cs = true) :
    (∀ e, s.excute data = .error e → s'.excute data = .error e) ∧
      ∀ r r', s.excute data = .ok r → s'.excute data = .ok r' → r.2.1 < r'.2.1 := by
  have hlate : ¬isLate s.cs = true := fun hlate => by
    rw [not_meets_of_isLate data hlate] at hmeets
    cases hmeets
  have hzero : s.cs ≠ 0 := by
    intro hzero
    rw [hzero] at hlate
    exact hlate rfl
  have hne : data ≠ [] := by
    rintro rfl
    cases hmeets
  have hbody : s.regs.bodyStart ≤ data.length := by
    rw [h.bodyStart.resolve_left hlate]
    exact Nat.zero_le _
  obtain ⟨herror, hok⟩ := (RequestState.requestScanner_tracks data).exec_meets (p := 0)
    RequestState.guardedLast data hmeets h.reset
  rw [← h.strict, ← hrelaxed] at herror hok
  constructor
  · intro e he
    by_cases hlong : 2147483648 ≤ data.length
    · have hstate : s'.state = s.state := h.same.1
      have hlen : data.length ≠ 0 := by omega
      unfold excute execute at he ⊢
      rw [if_neg hlen, if_pos hlong] at he ⊢
      rw [hstate]
      exact he
    · cases hexec : exec requestTable s.uriRelaxed requestScanner.breaks
          (requestScanner.act data) data 0 s.cs (s.regs.reset, s.state) with
      | ok x =>
          -- A scan that comes to its end passes the assertions.
          obtain ⟨p, cs, s₁⟩ := x
          rw [excute_of_exec hne (by omega) hzero hbody hexec] at he
          cases he
      | error e' =>
          rw [excute_of_error hne (by omega) hzero hexec] at he
          obtain rfl := Except.error.inj he
          rw [← h.cs_eq] at hzero
          have hrest := herror _ hexec
          rw [← h.cs_eq] at hrest
          exact excute_of_error hne (by omega) hzero hrest
  · rintro ⟨s₁, p, tail⟩ ⟨s₁', p', tail'⟩ hs hs'
    obtain ⟨-, hexec⟩ := exec_of_excute hne hzero hs
    obtain ⟨-, hexec'⟩ := exec_of_excute hne (h.cs_eq ▸ hzero) hs'
    rw [h.cs_eq] at hexec'
    exact hok _ _ hexec hexec'

/-! ## All calls -/

theorem outcome_twin {s s' : HttpRequestParser} (h : Twin s s') : s'.outcome = s.outcome :=
  outcome_congr (congrArg RequestState.message h.same.1) h.cs_eq

theorem parse_eq_of_not_relaxes : ∀ (datas : List (List UInt8)) {s s' : HttpRequestParser},
    Twin s s' → ¬s.Relaxes datas → s'.parse datas = s.parse datas
  | [], _, _, _, _ => rfl
  | data :: datas, s, s', h, hnot => by
      simp only [Relaxes] at hnot
      simp only [parse]
      by_cases hmeets : s'.uriRelaxed = true ∧
          requestTable.meets requestScanner.breaks data s.cs = true
      · cases hs : s.excute data with
        | error e => rw [(excute_meets h hmeets.1 hmeets.2).1 e hs]
        | ok r =>
            rw [hs] at hnot
            exact absurd (Or.inl hmeets.2) hnot
      · have hplain : s'.uriRelaxed = true →
            requestTable.meets requestScanner.breaks data s.cs = false := by
          intro hrelaxed
          by_contra hne
          exact hmeets ⟨hrelaxed, by simpa using hne⟩
        rcases (excute_twin h hplain).cases with
          ⟨e, hs, hs'⟩ | ⟨⟨s₁, n, tail⟩, ⟨s₁', n', tail'⟩, hs, hs', hn, htwin, -⟩
        · rw [hs, hs']
        · obtain rfl : n' = n := hn
          rw [hs] at hnot
          have hrest := parse_eq_of_not_relaxes datas htwin fun hr => hnot (Or.inr hr)
          have hout := outcome_twin htwin
          dsimp only at hrest hout
          rw [hs, hs']
          dsimp only
          rw [hrest, hout]

theorem parse_ne_of_relaxes : ∀ (datas : List (List UInt8)) {s s' : HttpRequestParser},
    Twin s s' → s'.uriRelaxed = true → s.Relaxes datas → s'.parse datas ≠ s.parse datas
  | [], _, _, _, _, hrelaxes => hrelaxes.elim
  | data :: datas, s, s', h, hrelaxed, hrelaxes => by
      simp only [Relaxes] at hrelaxes
      simp only [parse]
      by_cases hmeets : requestTable.meets requestScanner.breaks data s.cs = true
      · cases hs : s.excute data with
        | error e =>
            rw [hs] at hrelaxes
            exact hrelaxes.elim
        | ok r =>
            cases hs' : s'.excute data with
            | error e => exact fun heq => by cases heq
            | ok r' =>
                have hlt := (excute_meets h hrelaxed hmeets).2 r r' hs hs'
                intro heq
                have hhead := Except.ok.inj (List.head_eq_of_cons_eq heq)
                exact absurd (congrArg Prod.fst hhead) hlt.ne'
      · rcases (excute_twin h fun _ => by simpa using hmeets).cases with
          ⟨e, hs, hs'⟩ | ⟨⟨s₁, n, tail⟩, ⟨s₁', n', tail'⟩, hs, hs', hn, htwin, hsame⟩
        · rw [hs] at hrelaxes
          exact hrelaxes.elim
        · rw [hs] at hrelaxes
          rw [hs, hs']
          intro heq
          exact parse_ne_of_relaxes datas htwin (hsame.trans hrelaxed)
            (hrelaxes.resolve_left hmeets) (List.tail_eq_of_cons_eq heq)

/-- **Unset fields.** For a sequence of buffers, what is seen of the parser does not depend on
what it finds in memory, just if a parser without `uri_relaxed` never comes to a byte that it
would take with it. -/
theorem parse_memory_iff (datas : List (List UInt8)) :
    (∀ queryStart uriRelaxed queryStart' uriRelaxed',
      (new queryStart uriRelaxed).parse datas = (new queryStart' uriRelaxed').parse datas) ↔
      ¬(new 0 false).Relaxes datas := by
  constructor
  · intro hall hrelaxes
    exact parse_ne_of_relaxes datas (twin_new 0 0 true) rfl hrelaxes (hall 0 true 0 false)
  · intro hnot queryStart uriRelaxed queryStart' uriRelaxed'
    rw [parse_eq_of_not_relaxes datas (twin_new 0 queryStart uriRelaxed) hnot,
      parse_eq_of_not_relaxes datas (twin_new 0 queryStart' uriRelaxed') hnot]

/-- The bytes in question are `^`, `{` and `}`. -/
theorem mem_of_meets : ∀ (xs : List UInt8) {cs : ℕ},
    requestTable.meets requestScanner.breaks xs cs = true →
      ∃ c ∈ xs, c = 94 ∨ c = 123 ∨ c = 125
  | [], _, h => by cases h
  | c :: xs, cs, h => by
      simp only [Table.meets] at h
      cases hnext : requestTable.next false cs c with
      | none =>
          rw [hnext] at h
          obtain ⟨r, hguard⟩ := Option.isSome_iff_exists.mp h
          have hrows : requestTable.checked (fun _ r =>
              !r.guarded || r.on = RequestTable.moreDelims) = true := by
            decide
          have hmem : r ∈ requestTable.getD cs [] := List.mem_of_find?_eq_some hguard
          have hno : ¬r.fits false c = true := List.find?_eq_none.mp hnext r hmem
          have hfits := next_fits hguard
          have hguarded : r.guarded = true := by
            cases hplain : r.guarded with
            | true => rfl
            | false =>
                simp only [Row.fits, hplain] at hno hfits
                exact absurd hfits hno
          have hon : r.on = RequestTable.moreDelims := by
            simpa [hguarded] using checked_next hrows hguard
          simp only [Row.fits, hon, RequestTable.moreDelims, List.any_cons, List.any_nil,
            Bool.or_false, Bool.true_or, Bool.true_and, Bool.or_eq_true, Bool.and_eq_true,
            decide_eq_true_eq] at hfits
          refine ⟨c, List.mem_cons_self, ?_⟩
          simp only [← UInt8.toNat_inj]
          show c.toNat = 94 ∨ c.toNat = 123 ∨ c.toNat = 125
          omega
      | some r =>
          rw [hnext, Bool.and_eq_true] at h
          obtain ⟨c', hc', hdelim⟩ := mem_of_meets xs h.2
          exact ⟨c', List.mem_cons_of_mem _ hc', hdelim⟩

/-- Without these bytes a request is read in the same way in any memory. -/
theorem not_relaxes_of_plain : ∀ (datas : List (List UInt8)) {s : HttpRequestParser},
    (∀ data ∈ datas, ∀ c ∈ data, c ≠ 94 ∧ c ≠ 123 ∧ c ≠ 125) → ¬s.Relaxes datas
  | [], _, _ => fun h => h
  | data :: datas, s, hplain => by
      simp only [Relaxes]
      cases s.excute data with
      | error e => exact fun h => h
      | ok r =>
          rintro (hmeets | hrest)
          · obtain ⟨c, hc, hdelim⟩ := mem_of_meets data hmeets
            obtain ⟨h₁, h₂, h₃⟩ := hplain data List.mem_cons_self c hc
            rcases hdelim with rfl | rfl | rfl
            · exact h₁ rfl
            · exact h₂ rfl
            · exact h₃ rfl
          · exact not_relaxes_of_plain datas
              (fun data' h => hplain data' (List.mem_cons_of_mem _ h)) hrest

/-- A `{` in the path: one parser stops at it, the other one reads to the end. -/
theorem parse_memory_brace :
    ((new 0 false).parse [bytes "GET /\x7b HTTP/1.1\r\n\r\n"]).map (fun r => r.toOption.map Prod.fst) =
        [some 5] ∧
      ((new 0 true).parse [bytes "GET /\x7b HTTP/1.1\r\n\r\n"]).map
        (fun r => r.toOption.map Prod.fst) = [some 19] := by
  decide

end HttpRequestParser

end Http

end Skt
