import Skt.Http.RequestParser
import Skt.Http.Segments
import Skt.Http.Receive

/-!
# `HttpSession::recvRequest`

When a request is handed out, and what becomes of one with an error in it:
`hasError` wants both the automaton and `m_error` to see the error, and an
automaton in its error state counts as finished.
-/

namespace Skt

set_option maxRecDepth 4000

namespace Http

open Lib Lib.CString Lib.Ragel SocketStream

/-- The request parser as the receiving loops see it. -/
def requestOps : ParserOps HttpRequestParser RequestState where
  excute := HttpRequestParser.excute
  hasError := HttpRequestParser.hasError
  isFinished := HttpRequestParser.isFinished
  withState s state := { s with state }
  setBody body s := { s with state.data.body := body }

namespace HttpSession

/-- The part of `recvRequest` behind the loop. -/
def afterHeader (lexicalCast : List UInt8 → Option UInt64) (alloc : ℕ → Bool) :
    HeaderRead HttpRequestParser → Received HttpRequestParser
  | .over received => received
  | .stopped s data recvs coming =>
      requestOps.recvBody alloc (s.state.data.headers.contentLength lexicalCast) s
        data recvs coming

/-- `recvRequest` with a parser in memory that holds `queryStart` and
`uriRelaxed`. -/
def recvRequest (lexicalCast : List UInt8 → Option UInt64) (alloc : ℕ → Bool)
    (buffSize queryStart : ℕ) (uriRelaxed : Bool) (recvs : List Recv)
    (coming : List UInt8) : Received HttpRequestParser :=
  afterHeader lexicalCast alloc
    (requestOps.recvHeader buffSize recvs coming (.new queryStart uriRelaxed) [])

/-! ## The loop and the reads -/

/-- What `excute` leaves behind a call that neither failed nor finished:
nothing. -/
theorem tail_of_excute {s s' : HttpRequestParser} {buffer tail : List UInt8}
    {p : ℕ} (hne : buffer ≠ []) (hcs : s.cs ≠ 0)
    (h : s.excute buffer = .ok (s', p, tail)) (hfin : s'.isFinished = 0) :
    tail = [] := by
  obtain ⟨-, hex⟩ := HttpRequestParser.exec_of_excute hne hcs h
  have htail : tail = buffer.drop p := HttpRequestParser.drop_of_excute h
  have hrows : requestTable.checked (fun _ r =>
      !r.acts.any requestScanner.breaks || decide (348 ≤ r.target)) = true := by
    decide
  simp only [HttpRequestParser.isFinished, HttpRequestParser.hasAutomatonError,
    decide_eq_true_eq] at hfin
  rcases exec_stop (fun cs => decide (348 ≤ cs)) hrows buffer hex with
    hp | hzero | hfinal
  · rw [htail, hp, Nat.zero_add, List.drop_length]
  · rw [if_pos hzero] at hfin
    cases hfin
  · have hfinal : 348 ≤ s'.cs := by simpa using hfinal
    rw [if_neg (by omega), if_pos hfinal] at hfin
    cases hfin

/-- The loop goes on behind a call that returned. -/
def GoesOn (buffSize : ℕ) :
    Except (Thrown RequestState) (HttpRequestParser × List UInt8) → Prop
  | .error _ => False
  | .ok (s, data) => s.isFinished = 0 ∧ (data.length : ℤ) ≠ toInt32 buffSize

section Sound

variable (lexicalCast : List UInt8 → Option UInt64) (alloc : ℕ → Bool)
  (buffSize : ℕ)

/-- Neither the automaton nor a callback has seen an error. -/
def Clean (s : HttpRequestParser) : Prop := s.cs ≠ 0 ∧ s.state.error = 0

/-- A request is only handed out without an error, and an error always closes
the session. -/
def Sound : Received HttpRequestParser → Prop
  | .closed => True
  | .returned s => 348 ≤ s.cs ∧ Clean s
  | .thrown _ s => Clean s

/-- More body is announced than came with the header block, and the rest cannot
be read. -/
def BodyMissing (s : HttpRequestParser) (data : List UInt8) (recvs : List Recv)
    (coming : List UInt8) : Prop :=
  let length := (s.state.data.headers.contentLength lexicalCast).toBitVec.toInt
  let left := (length - data.length).toNat
  let body := overlay (List.replicate length.toNat 0) 0 (data.take length.toNat)
  data.length < length ∧ alloc length.toNat = true ∧
    ∃ rt body', readFixSize data.length left recvs coming body 0 left =
      some (rt, body') ∧ rt ≤ 0

theorem body_sound_iff {s : HttpRequestParser} {data : List UInt8}
    {recvs : List Recv} {coming : List UInt8} (hstop : s.cs = 0 ∨ 348 ≤ s.cs) :
    Sound (afterHeader lexicalCast alloc (.stopped s data recvs coming)) ↔
      Clean s ∨ BodyMissing lexicalCast alloc s data recvs coming := by
  have hfinal : (348 ≤ s.cs ∧ Clean s) ↔ Clean s := by
    refine ⟨fun h => h.2, fun h => ⟨?_, h⟩⟩
    rcases hstop with hzero | hfin
    · exact absurd hzero h.1
    · exact hfin
  unfold afterHeader ParserOps.recvBody BodyMissing
  dsimp only
  generalize (s.state.data.headers.contentLength lexicalCast).toBitVec.toInt = length
  by_cases hpos : 0 < length
  · rw [if_pos hpos]
    by_cases halloc : alloc length.toNat = true
    · rw [if_pos halloc]
      by_cases hleft : (data.length : ℤ) < length
      · rw [if_pos (by omega), if_pos (by omega)]
        cases hread : readFixSize data.length (length - data.length).toNat recvs
            coming (overlay (List.replicate length.toNat 0) 0
              (data.take length.toNat)) 0 (length - data.length).toNat with
        | none => simp [Sound]
        | some out =>
            obtain ⟨rt, body'⟩ := out
            by_cases hrt : rt ≤ 0
            · simp [hrt, Sound, hleft, halloc]
            · have hno : ¬∃ rt' b, some (rt, body') = some (rt', b) ∧ rt' ≤ 0 := by
                rintro ⟨rt', b, h, hle⟩
                cases h
                exact hrt hle
              dsimp only
              rw [if_neg hrt, or_iff_left fun h => hno h.2.2]
              exact hfinal
      · rw [if_neg (by omega), or_iff_left fun h => hleft h.1]
        exact hfinal
    · rw [if_neg halloc]
      simp [Sound, halloc]
  · have hleft : ¬(data.length : ℤ) < length := by omega
    rw [if_neg hpos, or_iff_left fun h => hleft h.1]
    exact hfinal

/-- What is asked of the parser behind the read the loop ends with: if it
stopped, the automaton and the callbacks agree on whether there was an error,
or the session is closed for another reason. -/
def StopsWell (recvs : List Recv) (coming : List UInt8) :
    Except (Thrown RequestState) (HttpRequestParser × List UInt8) → Prop
  | .error e => e.state.error = 0
  | .ok (s, data) =>
      s.isFinished = 0 ∨ (s.cs = 0 ↔ s.state.error ≠ 0) ∨
        (data.length : ℤ) = toInt32 buffSize ∨
        BodyMissing lexicalCast alloc s data recvs coming

/-- What `excute` makes of the first `n` reads. -/
abbrev fed (s : HttpRequestParser) (recvs : List Recv) (coming : List UInt8)
    (n : ℕ) : Except (Thrown RequestState) (HttpRequestParser × List UInt8) :=
  feed HttpRequestParser.excute s [] ((pieces buffSize recvs coming).take n)

/-- The loop ends well: behind the first read with which it does not go on, the
parser has stopped well. -/
def EndsWell (s : HttpRequestParser) (recvs : List Recv) (coming : List UInt8) :
    Prop :=
  ∀ n < (pieces buffSize recvs coming).length,
    (∀ m < n, GoesOn buffSize (fed buffSize s recvs coming (m + 1))) →
    StopsWell lexicalCast alloc buffSize (recvs.drop (n + 1))
      (coming.drop ((pieces buffSize recvs coming).take (n + 1)).flatten.length)
      (fed buffSize s recvs coming (n + 1))

/-- No byte is read: the session is closed. -/
theorem endsWell_nil {s : HttpRequestParser} {recvs : List Recv}
    {coming : List UInt8} (h : pieces buffSize recvs coming = []) :
    EndsWell lexicalCast alloc buffSize s recvs coming := by
  intro n hn
  rw [h] at hn
  exact absurd hn (Nat.not_lt_zero n)

variable {lexicalCast alloc buffSize}

theorem pieces_cons {r : Recv} (recvs : List Recv) {coming : List UInt8}
    {c : UInt8} {cs : List UInt8} (h : r.read buffSize coming = some (c :: cs)) :
    pieces buffSize (r :: recvs) coming =
      (c :: cs) :: pieces buffSize recvs (coming.drop (c :: cs).length) := by
  simp only [pieces, h]

/-- The first read ends the loop. -/
theorem endsWell_stop {s : HttpRequestParser} {r : Recv} {recvs : List Recv}
    {coming : List UInt8} {c : UInt8} {cs : List UInt8}
    (hread : r.read buffSize coming = some (c :: cs))
    (hstop : ¬GoesOn buffSize (fed buffSize s (r :: recvs) coming 1)) :
    EndsWell lexicalCast alloc buffSize s (r :: recvs) coming ↔
      StopsWell lexicalCast alloc buffSize recvs (coming.drop (c :: cs).length)
        (fed buffSize s (r :: recvs) coming 1) := by
  have hpieces := pieces_cons recvs hread
  constructor
  · intro h
    have h0 := h 0 (by rw [hpieces]; exact Nat.succ_pos _)
      fun m hm => absurd hm (Nat.not_lt_zero m)
    simpa [hpieces] using h0
  · intro h n hn hgo
    cases n with
    | zero => simpa [hpieces] using h
    | succ n => exact absurd (hgo 0 (Nat.succ_pos n)) hstop

/-- The loop goes on behind the first read. -/
theorem endsWell_next {s s' : HttpRequestParser} {r : Recv} {recvs : List Recv}
    {coming : List UInt8} {c : UInt8} {cs : List UInt8} {p : ℕ}
    (hread : r.read buffSize coming = some (c :: cs))
    (hexc : s.excute (c :: cs) = .ok (s', p, []))
    (hfin : s'.isFinished = 0) (hsize : toInt32 buffSize ≠ 0) :
    EndsWell lexicalCast alloc buffSize s (r :: recvs) coming ↔
      EndsWell lexicalCast alloc buffSize s' recvs
        (coming.drop (c :: cs).length) := by
  have hpieces := pieces_cons recvs hread
  have hfed : ∀ n, fed buffSize s (r :: recvs) coming (n + 1) =
      fed buffSize s' recvs (coming.drop (c :: cs).length) n := by
    intro n
    simp only [fed, hpieces, List.take_succ_cons, feed, List.nil_append, hexc]
  have hdrop : ∀ n, coming.drop
      ((pieces buffSize (r :: recvs) coming).take (n + 1)).flatten.length =
        (coming.drop (c :: cs).length).drop ((pieces buffSize recvs
          (coming.drop (c :: cs).length)).take n).flatten.length := by
    intro n
    rw [hpieces, List.take_succ_cons, List.flatten_cons, List.length_append,
      List.drop_drop]
  have hgo : GoesOn buffSize (fed buffSize s (r :: recvs) coming 1) := by
    rw [hfed 0]
    exact ⟨hfin, fun h => hsize h.symm⟩
  constructor
  · intro h n hn hbefore
    have hn' : n + 1 < (pieces buffSize (r :: recvs) coming).length := by
      rw [hpieces, List.length_cons]
      exact Nat.succ_lt_succ hn
    have := h (n + 1) hn' fun m hm => ?_
    · rw [hfed, hdrop, List.drop_succ_cons] at this
      exact this
    · cases m with
      | zero => exact hgo
      | succ m =>
          rw [hfed]
          exact hbefore m (Nat.lt_of_succ_lt_succ hm)
  · intro h n hn hbefore
    cases n with
    | zero =>
        rw [hfed 0]
        exact Or.inl hfin
    | succ n =>
        rw [hpieces, List.length_cons] at hn
        have := h n (Nat.lt_of_succ_lt_succ hn) fun m hm => by
          rw [← hfed]
          exact hbefore (m + 1) (Nat.succ_lt_succ hm)
        rw [hfed, hdrop, List.drop_succ_cons]
        exact this

/-- The call behind the first read stops the parser. -/
theorem stop_sound_iff {s' : HttpRequestParser} {data : List UInt8}
    {recvs : List Recv} {coming : List UInt8} (hfin : s'.isFinished ≠ 0) :
    Sound (afterHeader lexicalCast alloc
      (if s'.hasError then .over .closed
      else if (data.length : ℤ) = toInt32 buffSize then .over .closed
      else .stopped s' data recvs coming)) ↔
      StopsWell lexicalCast alloc buffSize recvs coming (.ok (s', data)) := by
  have hstop : s'.cs = 0 ∨ 348 ≤ s'.cs := by
    by_contra hn
    rw [not_or] at hn
    apply hfin
    simp [HttpRequestParser.isFinished, HttpRequestParser.hasAutomatonError, hn]
  simp only [StopsWell, hfin, false_or]
  by_cases herr : s'.hasError = true
  · rw [if_pos herr]
    simp only [HttpRequestParser.hasError, HttpRequestParser.hasAutomatonError,
      Bool.and_eq_true, decide_eq_true_eq] at herr
    exact ⟨fun _ => Or.inl ⟨fun _ => herr.1, fun _ => herr.2⟩, fun _ => trivial⟩
  · rw [if_neg herr]
    by_cases hfull : (data.length : ℤ) = toInt32 buffSize
    · rw [if_pos hfull]
      exact ⟨fun _ => Or.inr (Or.inl hfull), fun _ => trivial⟩
    · rw [if_neg hfull]
      have hclean : Clean s' ↔ (s'.cs = 0 ↔ s'.state.error ≠ 0) := by
        simp only [HttpRequestParser.hasError, Bool.and_eq_true,
          HttpRequestParser.hasAutomatonError, decide_eq_true_eq, not_and] at herr
        constructor
        · rintro ⟨hcs, hok⟩
          exact ⟨fun h => absurd h hcs, fun h => absurd hok h⟩
        · intro h
          have hok : s'.state.error = 0 := by
            by_contra hn
            exact herr hn (h.mpr hn)
          exact ⟨fun hcs => h.mp hcs hok, hok⟩
      simp only [hfull, false_or, ← hclean]
      exact body_sound_iff lexicalCast alloc hstop

/-- The call behind the first read leaves the parser in the middle of the
header block. -/
theorem next_sound_iff {s s' : HttpRequestParser} {r : Recv} {rs : List Recv}
    {coming : List UInt8} {c : UInt8} {cs : List UInt8} {p : ℕ}
    (hread : r.read buffSize coming = some (c :: cs))
    (hexc : s.excute (c :: cs) = .ok (s', p, [])) (hfin : s'.isFinished = 0)
    (ih : Sound (afterHeader lexicalCast alloc (requestOps.recvHeader buffSize rs
        (coming.drop (c :: cs).length) s' [])) ↔
      EndsWell lexicalCast alloc buffSize s' rs (coming.drop (c :: cs).length)) :
    Sound (afterHeader lexicalCast alloc
      (requestOps.recvHeader buffSize (r :: rs) coming s [])) ↔
      EndsWell lexicalCast alloc buffSize s (r :: rs) coming := by
  have hcs' : s'.cs ≠ 0 := by
    intro h0
    simp [HttpRequestParser.isFinished, HttpRequestParser.hasAutomatonError, h0]
      at hfin
  have herr : requestOps.hasError s' = false := by
    simp [requestOps, HttpRequestParser.hasError,
      HttpRequestParser.hasAutomatonError, hcs']
  rw [ParserOps.recvHeader_of_ok [] hread hexc, herr, if_neg Bool.false_ne_true]
  by_cases hsize : toInt32 buffSize = 0
  · -- `(int)buff_size` is `0`: nothing is left over, and that fills the buffer.
    rw [if_pos (by rw [hsize]; rfl)]
    have hfed : fed buffSize s (r :: rs) coming 1 = .ok (s', []) := by
      simp only [fed, pieces_cons _ hread, List.take_succ_cons, List.take_zero,
        feed, List.nil_append, hexc]
    have hstop : ¬GoesOn buffSize (fed buffSize s (r :: rs) coming 1) := by
      rw [hfed]
      exact fun h => h.2 hsize.symm
    rw [endsWell_stop hread hstop, hfed]
    exact iff_of_true trivial (Or.inl hfin)
  · have hfin' : requestOps.isFinished s' = 0 := hfin
    rw [if_neg (fun h => hsize h.symm), if_neg (not_not.mpr hfin'),
      endsWell_next hread hexc hfin hsize]
    exact ih

/-- The loop from a parser that has not stopped. -/
theorem loop_sound_iff : ∀ (recvs : List Recv) (coming : List UInt8)
    {s : HttpRequestParser}, s.cs ≠ 0 →
    (Sound (afterHeader lexicalCast alloc
      (requestOps.recvHeader buffSize recvs coming s [])) ↔
      EndsWell lexicalCast alloc buffSize s recvs coming)
  | [], _, _, _ => iff_of_true trivial (endsWell_nil _ _ _ rfl)
  | r :: rs, coming, s, hcs => by
      rcases hread : r.read buffSize coming with _ | _ | ⟨c, cs⟩
      · have hnone : pieces buffSize (r :: rs) coming = [] := by
          simp only [pieces, hread]
        simp only [ParserOps.recvHeader, List.length_nil, Nat.sub_zero, hread]
        exact iff_of_true trivial (endsWell_nil _ _ _ hnone)
      · have hnone : pieces buffSize (r :: rs) coming = [] := by
          simp only [pieces, hread]
        simp only [ParserOps.recvHeader, List.length_nil, Nat.sub_zero, hread]
        exact iff_of_true trivial (endsWell_nil _ _ _ hnone)
      · have hfed : fed buffSize s (r :: rs) coming 1 =
            feed HttpRequestParser.excute s [] [c :: cs] := by
          simp only [fed, pieces_cons _ hread, List.take_succ_cons, List.take_zero]
        simp only [feed, List.nil_append] at hfed
        rcases hexc : s.excute (c :: cs) with e | ⟨s', p, data⟩
        · simp only [hexc] at hfed
          rw [ParserOps.recvHeader_of_error [] hread hexc,
            endsWell_stop hread (by rw [hfed]; exact id), hfed]
          exact ⟨fun h => h.2, fun h => ⟨hcs, h⟩⟩
        · simp only [hexc] at hfed
          by_cases hfin : s'.isFinished = 0
          · obtain rfl := tail_of_excute (List.cons_ne_nil c cs) hcs hexc hfin
            have hcs' : s'.cs ≠ 0 := by
              intro h0
              simp [HttpRequestParser.isFinished,
                HttpRequestParser.hasAutomatonError, h0] at hfin
            exact next_sound_iff hread hexc hfin (loop_sound_iff rs _ hcs')
          · have hstop : ¬GoesOn buffSize (fed buffSize s (r :: rs) coming 1) := by
              rw [hfed]
              exact fun h => hfin h.1
            rw [ParserOps.recvHeader_of_ok [] hread hexc,
              endsWell_stop hread hstop, hfed]
            have hfin' : requestOps.isFinished s' ≠ 0 := hfin
            rw [if_pos hfin']
            exact stop_sound_iff hfin

/-- **Malformed requests.** `recvRequest` hands out only what was read without
an error, and closes the session on every error, exactly if the reads end
well. -/
theorem recvRequest_sound_iff (lexicalCast : List UInt8 → Option UInt64)
    (alloc : ℕ → Bool) (buffSize queryStart : ℕ) (uriRelaxed : Bool)
    (recvs : List Recv) (coming : List UInt8) :
    Sound (recvRequest lexicalCast alloc buffSize queryStart uriRelaxed recvs
      coming) ↔
      EndsWell lexicalCast alloc buffSize (.new queryStart uriRelaxed) recvs
        coming :=
  loop_sound_iff recvs coming (by simp [HttpRequestParser.new])

/-- A blank is no method: the automaton is in its error state, `m_error` is
`0`, and the request handed out is the one the constructor made. -/
theorem recvRequest_blank :
    ∃ s, recvRequest (fun _ => none) (fun _ => true) 4096 0 false [.got 1] [32] =
        .returned s ∧
      s.cs = 0 ∧ s.state.error = 0 ∧ s.state.data = .new ∧
      ¬Sound (recvRequest (fun _ => none) (fun _ => true) 4096 0 false [.got 1]
        [32]) := by
  refine ⟨_, by rfl, by rfl, by rfl, by rfl, fun h => ?_⟩
  exact h.2.1 rfl

end Sound

end HttpSession

end Http

end Skt
