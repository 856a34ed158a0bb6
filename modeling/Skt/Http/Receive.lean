import Skt.Http.Scanner
import Skt.Lib.Decimal
import Skt.Stream.SocketStream

/-!
# Receiving a message

What `HttpSession::recvRequest` and `HttpConnection::recvResponse` have in
common: the loop that reads a header block and hands it to the parser, and a
body of the announced length behind it.
-/

namespace Skt

namespace Http

open Lib Lib.CString SocketStream

/-- `getAs<uint64_t>(headers, "content-length", 0)`; `lexicalCast` is
`boost::lexical_cast<uint64_t>`. -/
def MapType.contentLength (lexicalCast : List UInt8 → Option UInt64)
    (headers : MapType) : UInt64 :=
  ((headers.find (bytes "content-length")).bind lexicalCast).getD 0

/-- How receiving ends: `close()` and `nullptr`, the message of a parser, or an
exception that leaves the parser behind. -/
inductive Received (σ : Type)
  | closed
  | returned (parser : σ)
  | thrown (fault : Fault) (parser : σ)
  deriving DecidableEq, Repr

/-- What the loop over the header block leaves: all is over, or the parser has
stopped with the bytes `data` left in the buffer. -/
inductive HeaderRead (σ : Type)
  | over (received : Received σ)
  | stopped (parser : σ) (data : List UInt8) (recvs : List Recv)
      (coming : List UInt8)
  deriving DecidableEq, Repr

/-- What the loops use of a parser; `withState` puts back what a call that
throws leaves. -/
structure ParserOps (σ ρ : Type) where
  excute : σ → List UInt8 → Except (Thrown ρ) (σ × ℕ × List UInt8)
  hasError : σ → Bool
  isFinished : σ → ℤ
  withState : σ → ρ → σ
  setBody : List UInt8 → σ → σ

namespace ParserOps

variable {σ ρ : Type} (P : ParserOps σ ρ)

/-- The first `do` loop; `data` is what the last call of `excute` left in the
buffer. -/
def recvHeader (buffSize : ℕ) :
    List Recv → List UInt8 → σ → List UInt8 → HeaderRead σ
  | [], _, _, _ => .over .closed
  | r :: rs, coming, s, data =>
      match r.read (buffSize - data.length) coming with
      | none => .over .closed
      | some [] => .over .closed
      | some (c :: cs) =>
          match P.excute s (data ++ c :: cs) with
          | .error e => .over (.thrown e.fault (P.withState s e.state))
          | .ok (s', _, data') =>
              if P.hasError s' then .over .closed
              -- `offset == (int)buff_size`
              else if (data'.length : ℤ) = toInt32 buffSize then .over .closed
              else if P.isFinished s' ≠ 0 then
                .stopped s' data' rs (coming.drop (c :: cs).length)
              else
                recvHeader buffSize rs (coming.drop (c :: cs).length) s' data'

variable {P} {buffSize : ℕ} {r : Recv} {rs : List Recv} {coming : List UInt8}
  (data : List UInt8) {s : σ} {c : UInt8} {cs : List UInt8}

theorem recvHeader_of_error {e : Thrown ρ}
    (hread : r.read (buffSize - data.length) coming = some (c :: cs))
    (hexc : P.excute s (data ++ c :: cs) = .error e) :
    P.recvHeader buffSize (r :: rs) coming s data =
      .over (.thrown e.fault (P.withState s e.state)) := by
  simp only [recvHeader, hread, hexc]

theorem recvHeader_of_ok {s' : σ} {p : ℕ} {data' : List UInt8}
    (hread : r.read (buffSize - data.length) coming = some (c :: cs))
    (hexc : P.excute s (data ++ c :: cs) = .ok (s', p, data')) :
    P.recvHeader buffSize (r :: rs) coming s data =
      if P.hasError s' then .over .closed
      else if (data'.length : ℤ) = toInt32 buffSize then .over .closed
      else if P.isFinished s' ≠ 0 then
        .stopped s' data' rs (coming.drop (c :: cs).length)
      else P.recvHeader buffSize rs (coming.drop (c :: cs).length) s' data' := by
  simp only [recvHeader, hread, hexc]

variable (P)

/-- A body of `contentLength` bytes; `alloc` says whether a string can be made
as long as asked. -/
def recvBody (alloc : ℕ → Bool) (contentLength : UInt64) (s : σ)
    (data : List UInt8) (recvs : List Recv) (coming : List UInt8) : Received σ :=
  -- The `uint64_t` is kept in an `int64_t`.
  let length := contentLength.toBitVec.toInt
  if 0 < length then
    if alloc length.toNat then
      let body := overlay (List.replicate length.toNat 0) 0 (data.take length.toNat)
      let len := if (data.length : ℤ) ≤ length then data.length else 0
      let left := length - data.length
      if 0 < left then
        match readFixSize len left.toNat recvs coming body 0 left.toNat with
        | none => .thrown .outOfBounds s
        | some (rt, body') =>
            if rt ≤ 0 then .closed else .returned (P.setBody body' s)
      else .returned (P.setBody body s)
    else .thrown .badAlloc s
  else .returned s

/-! ## What the loops do not change -/

/-- The loop over the header block hands out no message, and `I` holds of the parser when
it has stopped. -/
def HeaderRead.Holds (I : σ → Prop) : HeaderRead σ → Prop
  | .over (.returned _) => False
  | .over _ => True
  | .stopped s _ _ _ => I s

variable {P} in
theorem keeps_recvHeader {I : σ → Prop}
    (hexcute : ∀ {s s' : σ} {buffer tail : List UInt8} {p : ℕ},
      P.excute s buffer = .ok (s', p, tail) → I s → I s') (buffSize : ℕ) :
    ∀ (recvs : List Recv) (coming : List UInt8) (s : σ) (data : List UInt8), I s →
      HeaderRead.Holds I (P.recvHeader buffSize recvs coming s data)
  | [], _, _, _, _ => trivial
  | r :: rs, coming, s, data, hs => by
      rcases hread : r.read (buffSize - data.length) coming with _ | _ | ⟨c, cs⟩
      · simp only [recvHeader, hread]
        trivial
      · simp only [recvHeader, hread]
        trivial
      rcases hexc : P.excute s (data ++ c :: cs) with e | ⟨s₁, p, data₁⟩
      · rw [recvHeader_of_error data hread hexc]
        trivial
      rw [recvHeader_of_ok data hread hexc]
      by_cases herror : P.hasError s₁ = true
      · rw [if_pos herror]
        trivial
      by_cases hfull : (data₁.length : ℤ) = toInt32 buffSize
      · rw [if_neg herror, if_pos hfull]
        trivial
      rw [if_neg herror, if_neg hfull]
      by_cases hfinished : P.isFinished s₁ ≠ 0
      · rw [if_pos hfinished]
        exact hexcute hexc hs
      · rw [if_neg hfinished]
        exact keeps_recvHeader hexcute buffSize rs _ _ _ (hexcute hexc hs)

theorem of_recvBody {alloc : ℕ → Bool} {contentLength : UInt64} {s s' : σ} {data : List UInt8}
    {recvs : List Recv} {coming : List UInt8}
    (h : P.recvBody alloc contentLength s data recvs coming = .returned s') :
    s' = s ∨ ∃ body, s' = P.setBody body s := by
  unfold recvBody at h
  dsimp only at h
  split at h
  · split at h
    · split at h
      · split at h
        · cases h
        · split at h
          · cases h
          · cases h
            exact Or.inr ⟨_, rfl⟩
      · cases h
        exact Or.inr ⟨_, rfl⟩
    · cases h
  · cases h
    exact Or.inl rfl

/-! ## A body that comes whole -/

theorem toInt_ofNat {n : ℕ} (h : n < 2147483648) :
    (UInt64.ofNat n).toBitVec.toInt = n := by
  have hnat : (UInt64.ofNat n).toBitVec.toNat = n := by
    rw [UInt64.toBitVec_ofNat', BitVec.toNat_ofNat, Nat.mod_eq_of_lt (by omega)]
  rw [BitVec.toInt_eq_toNat_of_lt (by omega), hnat]

/-- The whole of a string is written over. -/
theorem overlay_replicate {n : ℕ} {d : List UInt8} (h : d.length = n) :
    overlay (List.replicate n (0 : UInt8)) 0 d = d := by
  simp [overlay, h]

/-- A body of `L` bytes, from what is in the buffer and what comes: it is there if as many
bytes come before the end of the stream, and else the connection is closed. -/
theorem recvBody_supplied (alloc : ℕ → Bool) (s : σ) {L : ℕ} (hpos : 1 ≤ L)
    (hlt : L < 2147483648) (halloc : alloc L = true) (data : List UInt8) {recvs : List Recv}
    (hok : ∀ r ∈ recvs, r ≠ .failed) (coming : List UInt8) :
    P.recvBody alloc (UInt64.ofNat L) s data recvs coming =
      if L ≤ data.length + min (supplied recvs) coming.length then
        .returned (P.setBody ((data ++ coming).take L) s)
      else .closed := by
  unfold ParserOps.recvBody
  rw [toInt_ofNat hlt]
  dsimp only
  rw [if_pos (by omega), Int.toNat_natCast, if_pos halloc]
  rcases Nat.lt_or_ge data.length L with hless | hge
  · -- The rest of the body is read behind the part that is there.
    have hleft : ((L : ℤ) - data.length).toNat = L - data.length := by omega
    have hover : overlay (overlay (List.replicate L (0 : UInt8)) 0 data)
        (0 + data.length) (coming.take (L - data.length)) =
          overlay (List.replicate L 0) 0 (data ++ coming.take (L - data.length)) :=
      overlay_overlay (by rw [List.length_replicate]; omega)
    have hfits : data.length + 0 + (L - data.length) ≤
        (overlay (List.replicate L (0 : UInt8)) 0 data).length := by
      rw [length_overlay (by rw [List.length_replicate]; omega), List.length_replicate]
      omega
    obtain ⟨hfull, hshort⟩ := readFixSize_supplied (L - data.length) recvs coming hok hfits
    rw [Nat.cast_zero] at hfull hshort
    rw [List.take_of_length_le hless.le, if_pos (by omega), if_pos (by omega), hleft]
    by_cases henough : L ≤ data.length + min (supplied recvs) coming.length
    · have hbody : (data ++ coming.take (L - data.length)).length = L := by
        rw [List.length_append, List.length_take]
        omega
      rw [if_pos henough, hfull (by omega)]
      dsimp only
      rw [toInt32_of_le (by omega) (by omega), if_neg (by omega), Nat.add_zero]
      rw [Nat.zero_add] at hover
      rw [hover, overlay_replicate hbody, List.take_append,
        List.take_of_length_le hless.le]
    · obtain ⟨body', hread⟩ := hshort (by omega)
      rw [if_neg henough, hread]
      exact if_pos (Int.le_refl 0)
  · have hbody : (data.take L).length = L := List.length_take_of_le hge
    rw [if_neg (by omega), if_pos (by omega), overlay_replicate hbody,
      List.take_append_of_le_length hge]

/-- The body, with its first bytes in the buffer behind the header block. -/
theorem recvBody_body (alloc : ℕ → Bool) (s : σ) {body : List UInt8}
    (hbody : body.length < 2147483648) (halloc : alloc body.length = true) (k : ℕ)
    {recvs : List Recv} (hpos : ∀ x ∈ recvs, x.Positive)
    (henough : body.length - k ≤ recvs.length) :
    P.recvBody alloc (UInt64.ofNat body.length) s (body.take k) recvs (body.drop k) =
      .returned (if body = [] then s else P.setBody body s) := by
  by_cases hnil : body = []
  · subst hnil
    rfl
  have hok : ∀ r ∈ recvs, r ≠ .failed := by
    rintro r hr rfl
    exact hpos _ hr
  have hsupplied := length_le_supplied hpos
  have hlen : 0 < body.length := List.length_pos_iff.mpr hnil
  have hall : body.length ≤
      (body.take k).length + min (supplied recvs) (body.drop k).length := by
    rw [List.length_take, List.length_drop]
    omega
  rw [recvBody_supplied P alloc s hlen hbody halloc _ hok, if_pos hall, if_neg hnil,
    List.take_append_drop, List.take_length]

end ParserOps

end Http

end Skt
