import Skt.Http.Connection

/-!
# Chunked bodies

A chunk is its size in hexadecimal digits, CRLF, the data and CRLF. The decoder
takes the last two bytes in the buffer for the CRLF behind the data and drops
them, before it knows where the data ends. So it gets a chunk right if the read
that brings the size line ends where the chunk does.
-/

namespace Skt

set_option maxRecDepth 4000

namespace Http

namespace HttpConnection

open Lib Lib.CString Lib.Ragel SocketStream

/-! ## Chunks -/

structure Chunk where
  size : List UInt8
  data : List UInt8
  size_ne : size ≠ []
  size_hex : ∀ c ∈ size, (digit 16 c).isSome
  size_eq : digits 16 size 0 = data.length

namespace Chunk

def line (c : Chunk) : List UInt8 := c.size ++ crlf

def encoded (c : Chunk) : List UInt8 := c.line ++ (c.data ++ crlf)

theorem length_line (c : Chunk) : c.line.length = c.size.length + 2 := by
  rw [line, List.length_append]
  rfl

theorem length_encoded (c : Chunk) :
    c.encoded.length = c.line.length + (c.data.length + 2) := by
  rw [encoded, List.length_append, List.length_append]
  rfl

end Chunk

def encode (cs : List Chunk) : List UInt8 := (cs.map Chunk.encoded).flatten

/-! ## The size line -/

theorem next_size_first : ∀ c : UInt8, (digit 16 c).isSome →
    responseTable.next false 1 c =
      some (row ResponseTable.xdigit 2 [.mark]) := by
  decide

theorem next_size : ∀ c : UInt8, (digit 16 c).isSome →
    responseTable.next false 2 c =
      some (row ResponseTable.xdigit 2) := by
  decide

theorem exec_size (act : ℕ → ResponseAction → Registers × ResponseState →
      Except (Thrown ResponseState) (Registers × ResponseState))
    (s : Registers × ResponseState) (tail : List UInt8) :
    ∀ (xs : List UInt8) (p : ℕ), (∀ c ∈ xs, (digit 16 c).isSome) →
      exec responseTable false responseScanner.breaks act (xs ++ tail) p 2 s =
        exec responseTable false responseScanner.breaks act tail (p + xs.length) 2 s
  | [], p, _ => rfl
  | c :: xs, p, hhex => by
      have hnext := next_size c (hhex c List.mem_cons_self)
      have htl := exec_size act s tail xs (p + 1)
        fun x hx => hhex x (List.mem_cons_of_mem _ hx)
      simp only [List.cons_append, exec, hnext, row, runActs,
        List.any_nil, Bool.false_eq_true, if_false, List.length_cons]
      rw [htl]
      congr 1
      omega

theorem exec_line (c : Chunk) (rest : List UInt8) (g : Registers)
    (d : ResponseState) :
    exec responseTable false responseScanner.breaks
      (responseScanner.act (c.line ++ rest)) (c.line ++ rest) 0 1 (g, d) =
        .ok (c.line.length, 120,
          ({ g with mark := 0, bodyStart := c.line.length },
            ResponseState.chunkSize (c.line ++ rest) d)) := by
  obtain ⟨x, xs, hsize⟩ := List.exists_cons_of_ne_nil c.size_ne
  have hhex := c.size_hex
  rw [hsize] at hhex
  have hline : c.line ++ rest = x :: (xs ++ 13 :: 10 :: rest) := by
    rw [Chunk.line, hsize, crlf]
    simp
  have hlen : c.line.length = xs.length + 3 := by
    rw [Chunk.length_line, hsize, List.length_cons]
  generalize c.line ++ rest = buffer at hline ⊢
  have hfirst := next_size_first x (hhex x List.mem_cons_self)
  have hcr : responseTable.next false 2 13 =
      some (row [(13, 13)] 3 [.chunkSize]) := by decide
  have hlf : responseTable.next false 3 10 =
      some (row [(10, 10)] 120 [.done]) := by decide
  have hmark : responseScanner.act buffer 0 .mark (g, d) =
      .ok ({ g with mark := 0 }, d) := rfl
  have hchunk : ∀ p, responseScanner.act buffer p .chunkSize
      ({ g with mark := 0 }, d) =
        .ok ({ g with mark := 0 }, ResponseState.chunkSize buffer d) := fun _ => rfl
  have hdone : ∀ p d, responseScanner.act buffer p .done ({ g with mark := 0 }, d) =
      .ok ({ g with mark := 0, bodyStart := p + 1 }, d) := fun _ _ => rfl
  have hbreaks : responseScanner.breaks .mark = false ∧
      responseScanner.breaks .chunkSize = false ∧
      responseScanner.breaks .done = true := by decide
  obtain ⟨hb₁, hb₂, hb₃⟩ := hbreaks
  have hstart : exec responseTable false responseScanner.breaks
      (responseScanner.act buffer) buffer 0 1 (g, d) =
        exec responseTable false responseScanner.breaks
          (responseScanner.act buffer) (xs ++ 13 :: 10 :: rest) 1 2
          ({ g with mark := 0 }, d) := by
    conv_lhs => rw [hline]
    simp only [exec, hfirst, row, runActs, ← hline, hmark,
      List.any_cons, List.any_nil, hb₁, Bool.or_self, Bool.false_eq_true, if_false]
  rw [hstart, exec_size _ _ _ xs 1 fun y hy => hhex y (List.mem_cons_of_mem _ hy)]
  simp only [exec, hcr, hlf, row, runActs, hchunk, hdone,
    List.any_cons, List.any_nil, hb₂, hb₃, Bool.or_self, Bool.or_false,
    Bool.false_eq_true, if_false, if_true, hlen]
  rw [show 1 + xs.length + 1 + 1 = xs.length + 3 by omega]

/-- The parser behind the size line of a chunk. -/
structure Parsed (s s' : HttpResponseParser) (c : Chunk) : Prop where
  cs_eq : s'.cs = 120
  error_eq : s'.state.error = s.state.error
  data_eq : s'.state.data = s.state.data
  contentLen_eq : s'.state.contentLen = c.data.length
  chunksDone_eq : s'.state.chunksDone = decide (c.data.length = 0)

theorem excute_line (s : HttpResponseParser) {c : Chunk} {rest : List UInt8}
    (hlen : (c.line ++ rest).length < 2147483648)
    (hsize : c.data.length < 2147483648) :
    ∃ s', s.excute true (c.line ++ rest) = .ok (s', c.line.length, rest) ∧
      Parsed s s' c := by
  have hne : c.line ++ rest ≠ [] := by
    rw [Chunk.line, crlf]
    simp
  have hexec := HttpResponseParser.execute_of_exec (s := s.init) hne hlen
    (by simp [HttpResponseParser.init]) (Nat.zero_le _)
    (exec_line c rest s.init.regs.reset s.init.state)
  have hstrtol : strtol 16 (c.line ++ rest) = c.data.length := by
    rw [Chunk.line, crlf, List.append_assoc, List.cons_append,
      strtol_sixteen (by decide) (by decide) c.size_ne c.size_hex, c.size_eq]
    unfold longMax
    omega
  refine ⟨{ cs := 120, nread := c.line.length
            regs := { s.init.regs.reset with mark := 0, bodyStart := c.line.length }
            state := ResponseState.chunkSize (c.line ++ rest) s.init.state }, ?_,
    ⟨rfl, rfl, rfl, ?_, ?_⟩⟩
  · have hexc := HttpResponseParser.excute_of_execute (s := s) (b := true) hexec
    rw [hexc, List.drop_left]
  · simp only [ResponseState.chunkSize, hstrtol]
    exact toInt32_of_le (by omega) (by omega)
  · simp only [ResponseState.chunkSize, hstrtol]
    rw [toInt32_of_le (by omega) (by omega), decide_eq_decide]
    omega

/-- A size line cannot start with a CR. -/
theorem excute_cr {s s' : HttpResponseParser} {data rest : List UInt8} {p : ℕ}
    (h : s.excute true (13 :: rest) = .ok (s', p, data)) : s'.hasError = true := by
  have hcs : s'.cs = 0 := by
    have hinit : s.init.excute false (13 :: rest) = .ok (s', p, data) := h
    obtain ⟨-, hex⟩ :=
      HttpResponseParser.exec_of_excute (by simp [HttpResponseParser.init]) hinit
    have hnext : responseTable.next false 1 13 = none := by decide
    have hstart : s.init.cs = 1 := rfl
    rw [hstart] at hex
    simp only [exec, hnext, Except.ok.injEq, Prod.mk.injEq] at hex
    exact hex.2.1.symm
  simp [HttpResponseParser.hasError, HttpResponseParser.hasAutomatonError, hcs]

/-! ## One chunk -/

section One

variable {buffSize : ℕ} {s s' : HttpResponseParser} {c : Chunk}
  {data piece rest body coming : List UInt8} {r : Recv} {rs : List Recv}

/-- The read that completes the size line; `rest` is what came behind it. -/
theorem got_line (buffSize : ℕ) (body : List UInt8)
    (hsplit : data ++ piece = c.line ++ rest)
    (hlen : (data ++ piece).length < 2147483648)
    (hsize : c.data.length < 2147483648) (herr : s.state.error = 0) :
    ∃ s', Parsed s s' c ∧ ChunkState.got buffSize ⟨s, data, body, 0⟩ piece =
      if (rest.length : ℤ) = toInt32 buffSize then .over .closed
      else ChunkState.chunk ⟨s', rest, body, 0⟩ := by
  rw [hsplit] at hlen
  obtain ⟨s', hexc, hs'⟩ := excute_line s hlen hsize
  refine ⟨s', hs', ?_⟩
  have hok : s'.hasError = false := by
    simp [HttpResponseParser.hasError, HttpResponseParser.hasAutomatonError,
      hs'.cs_eq, hs'.error_eq, herr]
  have hfin : s'.isFinished ≠ 0 := by
    simp [HttpResponseParser.isFinished, HttpResponseParser.hasAutomatonError,
      hs'.cs_eq]
  simp only [ChunkState.got, lt_irrefl, if_false, hsplit, hexc, hok,
    Bool.false_eq_true, if_neg hfin]

/-- Fewer than two bytes behind the size line: `len` is negative. -/
theorem chunk_short (h : Parsed s s' c) (hrest : rest.length < 2) :
    ChunkState.chunk ⟨s', rest, body, 0⟩ = .over (.thrown .lengthError s') := by
  simp only [ChunkState.chunk, h.contentLen_eq]
  rw [if_neg (by omega), if_pos (by omega)]

/-- The whole chunk is in the buffer, perhaps with more behind it. -/
theorem chunk_whole (h : Parsed s s' c) (hrest : c.data.length + 2 ≤ rest.length) :
    ChunkState.chunk ⟨s', rest, body, 0⟩ =
      ChunkState.next ⟨s', (rest.drop c.data.length).take
        (rest.length - 2 - c.data.length), body ++ rest.take c.data.length, 0⟩ := by
  simp only [ChunkState.chunk, h.contentLen_eq]
  rw [if_pos (by omega), if_neg (by omega), Int.toNat_natCast,
    show ((rest.length : ℤ) - 2 - (c.data.length : ℤ)).toNat =
      rest.length - 2 - c.data.length by omega]

/-- A part of the chunk is in the buffer: its last two bytes are dropped. -/
theorem chunk_part (h : Parsed s s' c) (htwo : 2 ≤ rest.length)
    (hrest : rest.length < c.data.length + 2) :
    ChunkState.chunk ⟨s', rest, body, 0⟩ =
      .again ⟨s', [], body ++ rest.take (rest.length - 2),
        ((c.data.length + 2 - rest.length : ℕ) : ℤ)⟩ := by
  simp only [ChunkState.chunk, h.contentLen_eq]
  rw [if_neg (by omega), if_neg (by omega),
    show ((rest.length : ℤ) - 2).toNat = rest.length - 2 by omega,
    show (c.data.length : ℤ) - ((rest.length : ℤ) - 2) =
      ((c.data.length + 2 - rest.length : ℕ) : ℤ) by omega]

theorem next_of_ne (h : Parsed s s' c) (hdata : c.data ≠ []) :
    ChunkState.next ⟨s', rest, body, 0⟩ = .again ⟨s', rest, body, 0⟩ := by
  have hlen : c.data.length ≠ 0 := fun h0 => hdata (List.length_eq_zero_iff.mp h0)
  simp only [ChunkState.next, h.chunksDone_eq, hlen, decide_false,
    Bool.false_eq_true, if_false]

theorem next_of_nil (h : Parsed s s' c) (hdata : c.data = []) :
    ChunkState.next ⟨s', rest, body, 0⟩ =
      .over (.returned (responseOps.setBody body s')) := by
  simp only [ChunkState.next, h.chunksDone_eq, hdata, List.length_nil,
    decide_true, if_true]

/-- The response is handed out with this body. -/
def Decodes (buffSize : ℕ) (recvs : List Recv) (coming : List UInt8)
    (c : ChunkState) (body : List UInt8) : Prop :=
  ∃ s, recvChunks buffSize recvs coming c = .returned s ∧ s.state.data.body = body

theorem not_decodes_of_over {c : ChunkState} {x : UInt8} {xs : List UInt8}
    (hread : r.read (c.asks buffSize) coming = some (x :: xs))
    {received : Received HttpResponseParser}
    (hgot : c.got buffSize (x :: xs) = .over received)
    (hno : ∀ s, received ≠ .returned s) :
    ¬Decodes buffSize (r :: rs) coming c body := by
  rintro ⟨s, hs, -⟩
  simp only [recvChunks, hread, hgot] at hs
  exact hno s hs

theorem decodes_of_again {c c' : ChunkState} {x : UInt8} {xs : List UInt8}
    (hread : r.read (c.asks buffSize) coming = some (x :: xs))
    (hgot : c.got buffSize (x :: xs) = .again c') :
    Decodes buffSize (r :: rs) coming c body ↔
      Decodes buffSize rs (coming.drop (x :: xs).length) c' body := by
  simp only [Decodes, recvChunks, hread, hgot]

/-- No byte is read: the connection is closed. -/
theorem not_decodes_of_read {c : ChunkState}
    (hread : ∀ x xs, r.read (c.asks buffSize) coming ≠ some (x :: xs)) :
    ¬Decodes buffSize (r :: rs) coming c body := by
  rintro ⟨s, hs, -⟩
  rcases h : r.read (c.asks buffSize) coming with _ | _ | ⟨x, xs⟩
  · simp [recvChunks, h] at hs
  · simp [recvChunks, h] at hs
  · exact hread x xs h

/-- A CR left at the front of the buffer ends it all. -/
theorem not_decodes_of_cr {t body' : List UInt8} :
    ¬Decodes buffSize rs coming ⟨s, 13 :: t, body', 0⟩ body := by
  cases rs with
  | nil =>
      rintro ⟨s, hs, -⟩
      cases hs
  | cons r rs =>
      by_cases hread : ∃ x xs, r.read
          (ChunkState.asks buffSize ⟨s, 13 :: t, body', 0⟩) coming = some (x :: xs)
      · obtain ⟨x, xs, hread⟩ := hread
        rcases hexc : s.excute true (13 :: (t ++ x :: xs)) with e | ⟨s', p, rest⟩
        · refine not_decodes_of_over hread (by
            simp only [ChunkState.got, lt_irrefl, if_false, List.cons_append, hexc]
            rfl) ?_
          intro s h
          cases h
        · refine not_decodes_of_over hread (by
            simp only [ChunkState.got, lt_irrefl, if_false, List.cons_append, hexc,
              excute_cr hexc, if_true]
            rfl) ?_
          intro s h
          cases h
      · apply not_decodes_of_read
        intro x xs h
        exact hread ⟨x, xs, h⟩

end One

/-! ## The rest of a chunk -/

/-- The `recv`s behind those that fetch `left` bytes. -/
def recvsAfter (buffSize : ℕ) : List Recv → List UInt8 → ℕ → List Recv
  | [], _, _ => []
  | r :: rs, coming, left =>
      if left = 0 then r :: rs
      else
        let piece := (r.read (min left (toInt32 buffSize).toNat) coming).getD []
        recvsAfter buffSize rs (coming.drop piece.length) (left - piece.length)

theorem recvsAfter_zero {buffSize : ℕ} (rs : List Recv) (coming : List UInt8) :
    recvsAfter buffSize rs coming 0 = rs := by
  cases rs with
  | nil => rfl
  | cons r rs => rw [recvsAfter, if_pos rfl]

theorem toInt32_lt (v : ℤ) : toInt32 v < 2147483648 := by
  have := Int.bmod_lt (x := v) (m := 4294967296) (by omega)
  unfold toInt32
  omega

/-- The loop over `left` takes exactly the next bytes. -/
theorem left_loop {buffSize : ℕ} {s : HttpResponseParser} {b : List UInt8}
    (hbuf : 0 < toInt32 buffSize) (hdone : s.state.chunksDone = false) :
    ∀ (rs : List Recv) (coming body : List UInt8) (left : ℕ), 0 < left →
      left ≤ coming.length → coming.length ≤ rs.length →
      (∀ r ∈ rs, r.Positive) →
      (Decodes buffSize rs coming ⟨s, [], body, left⟩ b ↔
        Decodes buffSize (recvsAfter buffSize rs coming left) (coming.drop left)
          ⟨s, [], body ++ coming.take left, 0⟩ b) ∧
      (coming.drop left).length ≤ (recvsAfter buffSize rs coming left).length ∧
      ∀ r ∈ recvsAfter buffSize rs coming left, r.Positive
  | [], coming, body, left, hpos, hleft, hlen, _ => by
      rw [List.length_nil] at hlen
      omega
  | r :: rs, coming, body, left, hpos, hleft, hlen, hrs => by
      have hasks : ChunkState.asks buffSize ⟨s, [], body, left⟩ =
          min left (toInt32 buffSize).toNat := by
        have hlt := toInt32_lt buffSize
        simp only [ChunkState.asks, Nat.cast_pos, hpos, if_true]
        rw [Int.emod_eq_of_lt (by omega) (by omega)]
        omega
      obtain ⟨x, xs, hread⟩ := read_positive (n := min left (toInt32 buffSize).toNat)
        (hrs r List.mem_cons_self) (by omega)
        (show coming ≠ [] by rintro rfl; rw [List.length_nil] at hleft; omega)
      obtain ⟨htake, hle⟩ := of_read hread
      have hafter : recvsAfter buffSize (r :: rs) coming left =
          recvsAfter buffSize rs (coming.drop (x :: xs).length)
            (left - (x :: xs).length) := by
        rw [recvsAfter, if_neg (by omega), hread]
        rfl
      have hcoming : coming.take left =
          x :: xs ++ (coming.drop (x :: xs).length).take (left - (x :: xs).length) := by
        conv_lhs => rw [show left = (x :: xs).length + (left - (x :: xs).length) by
          omega]
        rw [List.take_add, htake]
      have hdrop : (coming.drop (x :: xs).length).drop (left - (x :: xs).length) =
          coming.drop left := by
        rw [List.drop_drop, Nat.add_sub_cancel' (by omega)]
      have hrs' : ∀ r ∈ rs, r.Positive :=
        fun r' h => hrs r' (List.mem_cons_of_mem _ h)
      have hlen' : (coming.drop (x :: xs).length).length ≤ rs.length := by
        rw [List.length_cons] at hlen
        rw [List.length_drop, List.length_cons]
        omega
      rw [← hasks] at hread
      rw [hafter, hcoming, ← List.append_assoc, ← hdrop]
      have hgot : ChunkState.got buffSize ⟨s, [], body, left⟩ (x :: xs) =
          if 0 < left - (x :: xs).length then
            .again ⟨s, [], body ++ x :: xs, (left - (x :: xs).length : ℕ)⟩
          else ChunkState.next ⟨s, [], body ++ x :: xs, 0⟩ := by
        simp only [ChunkState.got, Nat.cast_pos, hpos, if_true]
        rw [← Nat.cast_sub (show (x :: xs).length ≤ left by omega)]
        simp only [Nat.cast_pos]
      by_cases hmore : 0 < left - (x :: xs).length
      · rw [if_pos hmore] at hgot
        rw [decodes_of_again hread hgot]
        refine left_loop hbuf hdone rs _ _ _ hmore ?_ hlen' hrs'
        rw [List.length_drop]
        omega
      · have hnext : ChunkState.next ⟨s, [], body ++ x :: xs, 0⟩ =
            .again ⟨s, [], body ++ x :: xs, 0⟩ := by
          rw [ChunkState.next, hdone, if_neg Bool.false_ne_true]
        rw [if_neg hmore, hnext] at hgot
        rw [decodes_of_again hread hgot, show left - (x :: xs).length = 0 by omega,
          recvsAfter_zero, List.drop_zero, List.take_zero, List.append_nil]
        exact ⟨Iff.rfl, hlen', hrs'⟩

/-! ## All chunks -/

/-- What the first read behind the end of the last chunk brings; `data` is what
came with the header block. -/
def firstRead (buffSize : ℕ) (data : List UInt8) (r : Recv) (coming : List UInt8) :
    List UInt8 :=
  (r.read (buffSize - data.length) coming).getD []

/-- Every chunk comes as the decoder expects it. The read that brings the size
line ends where the chunk ends, or at least two bytes behind the size line in a
place where it makes no difference that these two bytes are dropped and that the
CRLF behind the data is taken for data. -/
def Framed (buffSize : ℕ) :
    List Chunk → List UInt8 → List Recv → List UInt8 → Prop
  | [], _, _, _ => True
  | _ :: _, _, [], _ => False
  | c :: cs, data, r :: rs, coming =>
      let piece := firstRead buffSize data r coming
      let seen := data.length + piece.length
      let a := seen - c.line.length
      let rest := coming.drop piece.length
      let left := c.encoded.length - seen
      piece ≠ [] ∧ seen < 2147483648 ∧ c.data.length < 2147483648 ∧
        c.line.length + 2 ≤ seen ∧ (a : ℤ) ≠ toInt32 buffSize ∧
        (seen = c.encoded.length ∧ Framed buffSize cs [] rs rest ∨
          seen < c.encoded.length ∧ 0 < toInt32 buffSize ∧
            (c.data ++ crlf).drop a = c.data.drop (a - 2) ∧
            Framed buffSize cs [] (recvsAfter buffSize rs rest left)
              (rest.drop left))

instance Framed.decidable (buffSize : ℕ) : ∀ (cs : List Chunk) (data : List UInt8)
    (recvs : List Recv) (coming : List UInt8),
    Decidable (Framed buffSize cs data recvs coming)
  | [], _, _, _ => isTrue trivial
  | _ :: _, _, [], _ => isFalse id
  | c :: cs, data, r :: rs, coming => by
      have := Framed.decidable buffSize cs
      unfold Framed
      infer_instance

/-- No read ends inside a size line, and no size is too large for an `int`. -/
def Regular (buffSize : ℕ) :
    List Chunk → List UInt8 → List Recv → List UInt8 → Prop
  | [], _, _, _ => True
  | _ :: _, _, [], _ => True
  | c :: cs, data, r :: rs, coming =>
      let piece := firstRead buffSize data r coming
      let seen := data.length + piece.length
      let rest := coming.drop piece.length
      let left := c.encoded.length - seen
      c.data.length < 2147483648 ∧ c.line.length ≤ seen ∧
        (seen = c.encoded.length → Regular buffSize cs [] rs rest) ∧
        (c.line.length + 2 ≤ seen → seen < c.encoded.length →
          0 < toInt32 buffSize ∧
            Regular buffSize cs [] (recvsAfter buffSize rs rest left)
              (rest.drop left))

theorem regular_of_framed {buffSize : ℕ} : ∀ (cs : List Chunk) {data : List UInt8}
    {recvs : List Recv} {coming : List UInt8},
    Framed buffSize cs data recvs coming → Regular buffSize cs data recvs coming
  | [], _, _, _, _ => trivial
  | _ :: _, _, [], _, _ => trivial
  | c :: cs, data, r :: rs, coming, h => by
      obtain ⟨-, -, hsize, hline, -, h⟩ := h
      refine ⟨hsize, by omega, fun heq => ?_, fun _ hlt => ?_⟩
      · rcases h with ⟨-, h⟩ | ⟨hlt, -⟩
        · exact regular_of_framed cs h
        · omega
      · rcases h with ⟨heq, -⟩ | ⟨-, hbuf, -, h⟩
        · omega
        · exact ⟨hbuf, regular_of_framed cs h⟩

theorem split_line {c : Chunk} {data coming piece X : List UInt8}
    (hstream : data ++ coming = c.line ++ X)
    (htake : coming.take piece.length = piece)
    (hline : c.line.length ≤ data.length + piece.length) :
    data ++ piece =
        c.line ++ X.take (data.length + piece.length - c.line.length) ∧
      coming.drop piece.length =
        X.drop (data.length + piece.length - c.line.length) := by
  have hsum : data.length + piece.length =
      c.line.length + (data.length + piece.length - c.line.length) := by omega
  constructor
  · have h := congrArg (List.take (data.length + piece.length)) hstream
    rw [List.take_length_add_append, htake] at h
    rw [h]
    conv_lhs => rw [hsum]
    rw [List.take_length_add_append]
  · have h := congrArg (List.drop (data.length + piece.length)) hstream
    rw [List.drop_length_add_append] at h
    rw [h]
    conv_lhs => rw [hsum]
    rw [List.drop_length_add_append]

/-- A step of the loop, and what the reads behind it make of it. -/
def StepDecodes (buffSize : ℕ) (rs : List Recv) (rest body : List UInt8) :
    ChunkStep → Prop
  | .over received => ∃ s, received = .returned s ∧ s.state.data.body = body
  | .again c => Decodes buffSize rs rest c body

theorem decodes_iff_step {buffSize : ℕ} {r : Recv} {rs : List Recv}
    {coming b : List UInt8} {c : ChunkState} {x : UInt8} {xs : List UInt8}
    (hread : r.read (c.asks buffSize) coming = some (x :: xs)) :
    Decodes buffSize (r :: rs) coming c b ↔
      StepDecodes buffSize rs (coming.drop (x :: xs).length) b
        (c.got buffSize (x :: xs)) := by
  simp only [Decodes, recvChunks, hread]
  rcases c.got buffSize (x :: xs) with c' | received
  · rfl
  · rfl

section Head

variable {buffSize : ℕ} {s : HttpResponseParser} {c : Chunk}
  {data body coming b X : List UInt8} {r : Recv} {rs : List Recv} {x : UInt8}
  {xs : List UInt8}

/-- The assertion on the length of the buffer. -/
theorem not_decodes_of_long
    (hread : r.read (buffSize - data.length) coming = some (x :: xs))
    (hlong : 2147483648 ≤ (data ++ x :: xs).length) :
    ¬Decodes buffSize (r :: rs) coming ⟨s, data, body, 0⟩ b := by
  have hread' : r.read (ChunkState.asks buffSize ⟨s, data, body, 0⟩) coming =
      some (x :: xs) := hread
  have hexc : s.excute true (data ++ x :: xs) =
      .error ⟨.assertion, s.init.state⟩ := by
    simp only [HttpResponseParser.excute, HttpResponseParser.execute, if_true,
      if_pos hlong]
  rw [decodes_iff_step hread']
  simp only [ChunkState.got, lt_irrefl, if_false, hexc]
  rintro ⟨s, h, -⟩
  cases h

/-- The read that brings the size line of the chunk `c`. -/
theorem decodes_head (body b : List UInt8) (rs : List Recv)
    (hread : r.read (buffSize - data.length) coming = some (x :: xs))
    (hstream : data ++ coming = c.line ++ X)
    (hline : c.line.length ≤ data.length + (x :: xs).length)
    (hlen : data.length + (x :: xs).length < 2147483648)
    (hsize : c.data.length < 2147483648) (herr : s.state.error = 0)
    {a : ℕ} (ha : a = data.length + (x :: xs).length - c.line.length) :
    ∃ s', Parsed s s' c ∧
      (Decodes buffSize (r :: rs) coming ⟨s, data, body, 0⟩ b ↔
        ((X.take a).length : ℤ) ≠ toInt32 buffSize ∧
          StepDecodes buffSize rs (X.drop a) b
            (ChunkState.chunk ⟨s', X.take a, body, 0⟩)) := by
  have hread' : r.read (ChunkState.asks buffSize ⟨s, data, body, 0⟩) coming =
      some (x :: xs) := hread
  obtain ⟨hsplit, hrest⟩ := split_line hstream (of_read hread).1 hline
  rw [← ha] at hsplit hrest
  rw [← List.length_append] at hlen
  obtain ⟨s', hs', hgot⟩ := got_line buffSize body hsplit hlen hsize herr
  refine ⟨s', hs', ?_⟩
  rw [decodes_iff_step hread', hgot, hrest]
  by_cases hfull : ((X.take a).length : ℤ) = toInt32 buffSize
  · rw [if_pos hfull]
    constructor
    · rintro ⟨s, h, -⟩
      cases h
    · exact fun h => absurd hfull h.1
  · rw [if_neg hfull]
    exact ⟨fun h => ⟨hfull, h⟩, fun h => h.2⟩

end Head

/-! ## The body -/

section Body

variable {buffSize : ℕ} {s s' : HttpResponseParser} {c : Chunk}
  {body body₀ rest b : List UInt8} {rs : List Recv} {a : ℕ}

/-- Behind the zero chunk nothing more is read. -/
theorem last_step (h : Parsed s s' c) (hdata : c.data = []) (ha : a ≤ 2) :
    StepDecodes buffSize rs rest b
      (ChunkState.chunk ⟨s', crlf.take a, body, 0⟩) ↔ a = 2 ∧ body = b := by
  have hlen : (crlf.take a).length = a := by
    rw [List.length_take]
    exact min_eq_left ha
  by_cases hshort : a < 2
  · rw [chunk_short h (by rw [hlen]; exact hshort)]
    constructor
    · rintro ⟨s, hs, -⟩
      cases hs
    · rintro ⟨rfl, -⟩
      exact absurd hshort (lt_irrefl 2)
  · obtain rfl : a = 2 := by omega
    rw [chunk_whole h (by rw [hlen, hdata]; exact le_refl 2), hdata,
      next_of_nil h hdata]
    simp only [List.length_nil, List.take_zero, List.append_nil, true_and]
    constructor
    · rintro ⟨s, hs, hbody⟩
      cases hs
      exact hbody
    · exact fun hb => ⟨_, rfl, hb⟩

/-- The read ends where the chunk does. -/
theorem whole_step {tail : List UInt8} (h : Parsed s s' c) (hdata : c.data ≠ [])
    (ha : a = c.data.length + 2) :
    StepDecodes buffSize rs rest b
      (ChunkState.chunk ⟨s', (c.data ++ crlf ++ tail).take a, body, 0⟩) ↔
      Decodes buffSize rs rest ⟨s', [], body ++ c.data, 0⟩ b := by
  have htake : (c.data ++ crlf ++ tail).take a = c.data ++ crlf := by
    rw [ha, show c.data.length + 2 = (c.data ++ crlf).length by
      rw [List.length_append]; rfl, List.take_left]
  have hlen : (c.data ++ crlf).length = c.data.length + 2 := by
    rw [List.length_append]
    rfl
  rw [htake, chunk_whole h (by rw [hlen]), next_of_ne h hdata, hlen,
    List.take_left, show c.data.length + 2 - 2 - c.data.length = 0 by omega,
    List.take_zero]
  rfl

/-- The read ends behind the chunk: the decoder does not skip the CRLF. -/
theorem beyond_step {tail : List UInt8} (h : Parsed s s' c) (hdata : c.data ≠ [])
    (ha : c.data.length + 2 < a) (hle : a ≤ (c.data ++ crlf ++ tail).length) :
    ¬StepDecodes buffSize rs rest b
      (ChunkState.chunk ⟨s', (c.data ++ crlf ++ tail).take a, body, 0⟩) := by
  have hlen : ((c.data ++ crlf ++ tail).take a).length = a := by
    rw [List.length_take]
    exact min_eq_left hle
  obtain ⟨k, hk⟩ : ∃ k, a - 2 - c.data.length = k + 1 :=
    ⟨a - 2 - c.data.length - 1, by omega⟩
  obtain ⟨m, hm⟩ : ∃ m, a - c.data.length = m + 1 :=
    ⟨a - c.data.length - 1, by omega⟩
  have hfront : (((c.data ++ crlf ++ tail).take a).drop c.data.length).take (k + 1) =
      13 :: ((10 :: tail).take m).take k := by
    rw [List.drop_take, List.append_assoc, List.drop_left, hm, crlf,
      List.cons_append, List.take_succ_cons, List.take_succ_cons]
    rfl
  rw [chunk_whole h (by rw [hlen]; omega), next_of_ne h hdata, hlen, hk, hfront]
  exact not_decodes_of_cr

/-- The read ends inside the chunk, at least two bytes behind the size line. -/
theorem part_step {tail : List UInt8} (h : Parsed s s' c)
    (htwo : 2 ≤ a) (ha : a < c.data.length + 2) :
    StepDecodes buffSize rs rest b
      (ChunkState.chunk ⟨s', (c.data ++ crlf ++ tail).take a, body, 0⟩) ↔
      Decodes buffSize rs rest
        ⟨s', [], body ++ c.data.take (a - 2), (c.data.length + 2 - a : ℕ)⟩ b := by
  have hlen : ((c.data ++ crlf ++ tail).take a).length = a := by
    rw [List.length_take, List.length_append, List.length_append]
    exact min_eq_left (by simp only [crlf, List.length_cons, List.length_nil]; omega)
  rw [chunk_part h (by rw [hlen]; exact htwo) (by rw [hlen]; exact ha), hlen,
    List.take_take, min_eq_left (Nat.sub_le a 2), List.append_assoc,
    List.take_append_of_le_length (by omega)]
  rfl

/-- Bodies of the same length with the same end. -/
theorem append_part_eq_iff (hbody : body.length = body₀.length) :
    body ++ c.data.take (a - 2) ++ (c.data ++ crlf).drop a = body₀ ++ c.data ↔
      body = body₀ ∧ (c.data ++ crlf).drop a = c.data.drop (a - 2) := by
  rw [List.append_assoc]
  constructor
  · intro h
    obtain ⟨hb, hd⟩ := List.append_inj h hbody
    refine ⟨hb, ?_⟩
    conv_rhs at hd => rw [← List.take_append_drop (a - 2) c.data]
    exact List.append_cancel_left hd
  · rintro ⟨rfl, hd⟩
    rw [hd, List.take_append_drop]

end Body

/-- The read in front of a chunk, as `Framed` and `Regular` see it. -/
theorem firstRead_cases {buffSize : ℕ} {data : List UInt8} {r : Recv}
    (hr : r.Positive) (hdata : data.length < buffSize) (coming : List UInt8) :
    (coming = [] ∧ firstRead buffSize data r coming = []) ∨
      ∃ x xs, r.read (buffSize - data.length) coming = some (x :: xs) ∧
        firstRead buffSize data r coming = x :: xs := by
  by_cases hne : coming = []
  · left
    refine ⟨hne, ?_⟩
    rcases h : r.read (buffSize - data.length) coming with _ | _ | ⟨y, ys⟩
    · rw [firstRead, h]
      rfl
    · rw [firstRead, h]
      rfl
    · rw [hne] at h
      exact absurd h (read_nil y ys)
  · right
    obtain ⟨x, xs, hread⟩ := read_positive hr (Nat.sub_pos_of_lt hdata) hne
    exact ⟨x, xs, hread, by rw [firstRead, hread]; rfl⟩

theorem take_firstRead (buffSize : ℕ) (data : List UInt8) (r : Recv)
    (coming : List UInt8) : coming.take (firstRead buffSize data r coming).length =
      firstRead buffSize data r coming := by
  unfold firstRead
  cases h : r.read (buffSize - data.length) coming with
  | none => rfl
  | some piece => exact (of_read h).1

/-- From what becomes of the size line to what becomes of the chunk. -/
theorem decodes_head_iff {buffSize : ℕ} {s : HttpResponseParser} {c : Chunk}
    {data body coming b X : List UInt8} {r : Recv} {rs : List Recv}
    (herr : s.state.error = 0) (hr : r.Positive) (hbuf : data.length < buffSize)
    (hstream : data ++ coming = c.line ++ X) (hsize : c.data.length < 2147483648)
    {seen : ℕ} (hseen : seen = data.length + (firstRead buffSize data r coming).length)
    (hline : c.line.length ≤ seen) {Q : Prop}
    (hstep : ∀ s', Parsed s s' c → seen - c.line.length ≤ X.length →
      firstRead buffSize data r coming ≠ [] →
      (StepDecodes buffSize rs (X.drop (seen - c.line.length)) b
        (ChunkState.chunk ⟨s', X.take (seen - c.line.length), body, 0⟩) ↔ Q)) :
    Decodes buffSize (r :: rs) coming ⟨s, data, body, 0⟩ b ↔
      firstRead buffSize data r coming ≠ [] ∧ seen < 2147483648 ∧
        ((seen - c.line.length : ℕ) : ℤ) ≠ toInt32 buffSize ∧ Q := by
  rcases firstRead_cases hr hbuf coming with ⟨rfl, hfirst⟩ | ⟨x, xs, hread, hfirst⟩
  · rw [hfirst]
    refine ⟨fun h => absurd h (not_decodes_of_read read_nil), fun h => absurd rfl h.1⟩
  · rw [hfirst] at hseen ⊢
    by_cases hlong : seen < 2147483648
    · have hle : seen - c.line.length ≤ X.length := by
        have hlen := congrArg List.length hstream
        have htake := congrArg List.length (of_read hread).1
        rw [List.length_append, List.length_append] at hlen
        rw [List.length_take] at htake
        omega
      obtain ⟨s', hs', hiff⟩ := decodes_head body b rs hread hstream
        (hseen ▸ hline) (hseen ▸ hlong) hsize herr (by rw [← hseen])
      have htake : (X.take (seen - c.line.length)).length = seen - c.line.length := by
        rw [List.length_take]
        exact min_eq_left hle
      rw [hiff, hstep s' hs' hle (by rw [hfirst]; exact List.cons_ne_nil x xs), htake]
      exact ⟨fun h => ⟨List.cons_ne_nil x xs, hlong, h⟩, fun h => h.2.2⟩
    · refine ⟨fun h => absurd h (not_decodes_of_long hread ?_), fun h => absurd h.2.1 hlong⟩
      rw [List.length_append]
      omega

theorem not_decodes_nil {buffSize : ℕ} {coming b : List UInt8} {c : ChunkState} :
    ¬Decodes buffSize [] coming c b := by
  rintro ⟨s, hs, -⟩
  cases hs

/-- The zero chunk. -/
theorem decodes_last {buffSize : ℕ} {c : Chunk} (hlast : c.data = [])
    {s : HttpResponseParser} {data body coming b : List UInt8}
    {recvs : List Recv} (herr : s.state.error = 0)
    (hstream : data ++ coming = encode [c]) (hbuf : data.length < buffSize)
    (hrecvs : ∀ r ∈ recvs, r.Positive)
    (hreg : Regular buffSize [c] data recvs coming) :
    Decodes buffSize recvs coming ⟨s, data, body, 0⟩ b ↔
      body = b ∧ Framed buffSize [c] data recvs coming := by
  cases recvs with
  | nil => exact ⟨fun h => absurd h not_decodes_nil, fun h => h.2.elim⟩
  | cons r rs =>
      have hX : data ++ coming = c.line ++ crlf := by
        rw [hstream, encode]
        simp [Chunk.encoded, hlast]
      have hencoded : c.encoded.length = c.line.length + 2 := by
        rw [Chunk.length_encoded, hlast]
        rfl
      obtain ⟨hsize, hline, -, -⟩ := hreg
      rw [decodes_head_iff herr (hrecvs r List.mem_cons_self) hbuf hX hsize rfl hline
        fun s' hs' hle _ => last_step hs' hlast hle]
      simp only [Framed]
      generalize data.length + (firstRead buffSize data r coming).length = seen
        at hline ⊢
      constructor
      · rintro ⟨hne, hlong, hfull, htwo, hbody⟩
        exact ⟨hbody, hne, hlong, hsize, by omega, hfull, Or.inl ⟨by omega, trivial⟩⟩
      · rintro ⟨hbody, hne, hlong, -, htwo, hfull, h⟩
        refine ⟨hne, hlong, hfull, ?_, hbody⟩
        rcases h with ⟨h, -⟩ | ⟨h, -⟩ <;> omega

/-- A chunk with data: what the decoder makes of it, from what it makes of the
chunks in `tail`. -/
theorem cons_step {buffSize : ℕ} {s s' : HttpResponseParser} {c : Chunk}
    {body body₀ tail flat : List UInt8} {rs : List Recv} {a : ℕ}
    {R F : List Recv → Prop}
    (ih : ∀ {s' : HttpResponseParser} {body body₀ : List UInt8} {rs : List Recv},
      s'.state.error = 0 → body.length = body₀.length →
      tail.length ≤ rs.length → (∀ r ∈ rs, r.Positive) → R rs →
      (Decodes buffSize rs tail ⟨s', [], body, 0⟩ (body₀ ++ flat) ↔
        body = body₀ ∧ F rs))
    (hs' : Parsed s s' c) (herr : s.state.error = 0) (hdata : c.data ≠ [])
    (hbody : body.length = body₀.length)
    (hle : a ≤ (c.data ++ crlf ++ tail).length)
    (hlen : ((c.data ++ crlf ++ tail).drop a).length ≤ rs.length)
    (hrs : ∀ r ∈ rs, r.Positive) (hwhole : a = c.data.length + 2 → R rs)
    (hpart : 2 ≤ a → a < c.data.length + 2 → 0 < toInt32 buffSize ∧
      R (recvsAfter buffSize rs ((c.data ++ crlf ++ tail).drop a)
        (c.data.length + 2 - a))) :
    StepDecodes buffSize rs ((c.data ++ crlf ++ tail).drop a)
        (body₀ ++ (c.data ++ flat))
        (ChunkState.chunk ⟨s', (c.data ++ crlf ++ tail).take a, body, 0⟩) ↔
      (a = c.data.length + 2 ∧ body = body₀ ∧ F rs) ∨
      (2 ≤ a ∧ a < c.data.length + 2 ∧ body = body₀ ∧
        (c.data ++ crlf).drop a = c.data.drop (a - 2) ∧
        F (recvsAfter buffSize rs ((c.data ++ crlf ++ tail).drop a)
          (c.data.length + 2 - a))) := by
  have herr' : s'.state.error = 0 := by rw [hs'.error_eq, herr]
  have hcrlf : (c.data ++ crlf).length = c.data.length + 2 := by
    rw [List.length_append]
    rfl
  have hpos : 0 < c.data.length := List.length_pos_iff.mpr hdata
  rw [← List.append_assoc]
  rcases lt_trichotomy a (c.data.length + 2) with hlt | heq | hgt
  · by_cases htwo : 2 ≤ a
    · obtain ⟨hbuf, hR⟩ := hpart htwo hlt
      have hdone : s'.state.chunksDone = false := by
        rw [hs'.chunksDone_eq, decide_eq_false_iff_not]
        omega
      have hdrop : (c.data ++ crlf ++ tail).drop a = (c.data ++ crlf).drop a ++ tail :=
        List.drop_append_of_le_length (by omega)
      have hleft : ((c.data ++ crlf).drop a).length = c.data.length + 2 - a := by
        rw [List.length_drop, hcrlf]
      obtain ⟨hiff, hlen', hpos'⟩ := left_loop (b := body₀ ++ c.data ++ flat) hbuf hdone
        rs ((c.data ++ crlf ++ tail).drop a) (body ++ c.data.take (a - 2))
        (c.data.length + 2 - a) (by omega)
        (by rw [hdrop, List.length_append, hleft]; omega) hlen hrs
      rw [part_step hs' htwo hlt, hiff]
      generalize recvsAfter buffSize rs ((c.data ++ crlf ++ tail).drop a)
        (c.data.length + 2 - a) = rs' at *
      rw [hdrop, ← hleft, List.drop_left] at hlen' ⊢
      rw [List.take_left, ih herr' ?_ hlen' hpos' hR, append_part_eq_iff hbody]
      · constructor
        · rintro ⟨⟨hb, hd⟩, hF⟩
          exact Or.inr ⟨htwo, hlt, hb, hd, hF⟩
        · rintro (⟨heq, -⟩ | ⟨-, -, hb, hd, hF⟩)
          · omega
          · exact ⟨⟨hb, hd⟩, hF⟩
      · simp only [List.length_append, List.length_take, hleft]
        omega
    · rw [chunk_short hs' (by rw [List.length_take]; omega)]
      constructor
      · rintro ⟨s, hs, -⟩
        cases hs
      · rintro (⟨heq, -⟩ | ⟨h, -⟩) <;> omega
  · have hdrop : (c.data ++ crlf ++ tail).drop a = tail := by
      rw [heq, ← hcrlf, List.drop_left]
    rw [whole_step hs' hdata heq, hdrop]
    rw [hdrop] at hlen
    rw [ih herr' (by rw [List.length_append, List.length_append, hbody]) hlen hrs
      (hwhole heq)]
    constructor
    · rintro ⟨hb, hF⟩
      exact Or.inl ⟨heq, List.append_cancel_right hb, hF⟩
    · rintro (⟨-, rfl, hF⟩ | ⟨-, h, -⟩)
      · exact ⟨rfl, hF⟩
      · omega
  · constructor
    · exact fun h => absurd h (beyond_step hs' hdata hgt hle)
    · rintro (⟨heq, -⟩ | ⟨-, h, -⟩) <;> omega

/-- The chunks `cs` with the zero chunk `last` behind them. -/
theorem decodes_iff {buffSize : ℕ} (hbuf : 0 < buffSize) {last : Chunk}
    (hlast : last.data = []) :
    ∀ (cs : List Chunk) {s : HttpResponseParser} {data body body₀ coming : List UInt8}
      {recvs : List Recv}, (∀ c ∈ cs, c.data ≠ []) → s.state.error = 0 →
      data ++ coming = encode (cs ++ [last]) → data.length < buffSize →
      coming.length ≤ recvs.length → (∀ r ∈ recvs, r.Positive) →
      body.length = body₀.length →
      Regular buffSize (cs ++ [last]) data recvs coming →
      (Decodes buffSize recvs coming ⟨s, data, body, 0⟩
          (body₀ ++ (cs.map Chunk.data).flatten) ↔
        body = body₀ ∧ Framed buffSize (cs ++ [last]) data recvs coming)
  | [], s, data, body, body₀, coming, recvs, _, herr, hstream, hdata, _, hrecvs, _,
      hreg => by
      rw [List.map_nil, List.flatten_nil, List.append_nil]
      exact decodes_last hlast herr hstream hdata hrecvs hreg
  | c :: cs, s, data, body, body₀, coming, [], _, _, _, _, _, _, _, _ =>
      ⟨fun h => absurd h not_decodes_nil, fun h => h.2.elim⟩
  | c :: cs, s, data, body, body₀, coming, r :: rs, hcs, herr, hstream, hdata, hlen,
      hrecvs, hbody, hreg => by
      have hX : data ++ coming =
          c.line ++ (c.data ++ crlf ++ encode (cs ++ [last])) := by
        rw [hstream, List.cons_append, encode, List.map_cons, List.flatten_cons,
          Chunk.encoded, List.append_assoc]
        rfl
      have hencoded := c.length_encoded
      obtain ⟨hsize, hline, hwhole, hpart⟩ := hreg
      have hne : c.data ≠ [] := hcs c List.mem_cons_self
      have hcs' : ∀ c ∈ cs, c.data ≠ [] :=
        fun c' h => hcs c' (List.mem_cons_of_mem _ h)
      have hrs : ∀ r ∈ rs, r.Positive :=
        fun r' h => hrecvs r' (List.mem_cons_of_mem _ h)
      have hcrlf : (c.data ++ crlf).length = c.data.length + 2 := by
        rw [List.length_append]
        rfl
      -- The read ends inside the chunk: what is left of it, and the chunks behind.
      have hleft : ∀ {seen : ℕ}, c.line.length ≤ seen → c.encoded.length - seen =
          c.data.length + 2 - (seen - c.line.length) := by
        intro seen h
        omega
      have htail : ∀ {a : ℕ}, a ≤ c.data.length + 2 →
          ((c.data ++ crlf ++ encode (cs ++ [last])).drop a).drop
            (c.data.length + 2 - a) = encode (cs ++ [last]) := by
        intro a h
        rw [List.drop_drop, Nat.add_sub_cancel' h, ← hcrlf, List.drop_left]
      simp only [List.cons_append, Framed]
      rw [List.map_cons, List.flatten_cons]
      rw [hleft hline] at hpart
      rw [hleft hline]
      have hrest := (split_line hX (take_firstRead buffSize data r coming) hline).2
      rw [hrest] at hwhole hpart ⊢
      refine (decodes_head_iff herr (hrecvs r List.mem_cons_self) hdata hX hsize rfl
        hline fun s' hs' hle hfirst => cons_step
          (R := fun rs => Regular buffSize (cs ++ [last]) [] rs (encode (cs ++ [last])))
          (F := fun rs => Framed buffSize (cs ++ [last]) [] rs (encode (cs ++ [last])))
          (fun herr hb hl hp hR => decodes_iff hbuf hlast cs hcs' herr
            (List.nil_append _) hbuf hl hp hb hR)
          hs' herr hne hbody hle ?_ hrs ?_ ?_).trans ?_
      · have hpos := List.length_pos_iff.mpr hfirst
        rw [← hrest, List.length_drop]
        rw [List.length_cons] at hlen
        omega
      all_goals
        generalize data.length + (firstRead buffSize data r coming).length = seen at *
      · intro ha
        have hR := hwhole (by omega)
        have hdrop := htail (le_of_eq ha)
        rw [ha, Nat.sub_self, List.drop_zero] at hdrop
        rw [ha, hdrop] at hR
        exact hR
      · intro htwo hlt
        obtain ⟨hsmall, hR⟩ := hpart (by omega) (by omega)
        rw [htail hlt.le] at hR
        exact ⟨hsmall, hR⟩
      · constructor
        · rintro ⟨hfirst, hlong, hfull, ⟨ha, hb, hF⟩ | ⟨htwo, hlt, hb, hd, hF⟩⟩
          · have hdrop := htail (le_of_eq ha)
            rw [← ha, Nat.sub_self, List.drop_zero] at hdrop
            rw [← hdrop] at hF
            exact ⟨hb, hfirst, hlong, hsize, by omega, hfull, Or.inl ⟨by omega, hF⟩⟩
          · have hsmall := (hpart (by omega) (by omega)).1
            refine ⟨hb, hfirst, hlong, hsize, by omega, hfull,
              Or.inr ⟨by omega, hsmall, hd, ?_⟩⟩
            rw [htail hlt.le]
            exact hF
        · rintro ⟨hb, hfirst, hlong, -, htwo, hfull,
            ⟨henc, hF⟩ | ⟨hlt, -, hd, hF⟩⟩
          · refine ⟨hfirst, hlong, hfull, Or.inl ⟨by omega, hb, ?_⟩⟩
            have ha : seen - c.line.length = c.data.length + 2 := by omega
            have hdrop := htail (le_of_eq ha)
            rw [ha, Nat.sub_self, List.drop_zero] at hdrop
            rw [ha, hdrop] at hF
            exact hF
          · have ha : seen - c.line.length < c.data.length + 2 := by omega
            rw [htail ha.le] at hF
            exact ⟨hfirst, hlong, hfull, Or.inr ⟨by omega, ha, hb, hd, hF⟩⟩

/-! ## The response -/

/-- The parser and the buffer behind the header block. -/
theorem of_header_stopped {buffSize : ℕ} : ∀ (recvs : List Recv)
    {coming data data' coming' : List UInt8} {s s' : HttpResponseParser}
    {recvs' : List Recv}, s.cs ≠ 0 → data.length ≤ buffSize →
    responseOps.recvHeader buffSize recvs coming s data =
      .stopped s' data' recvs' coming' →
    s'.state.error = 0 ∧ data'.length < buffSize
  | [], _, _, _, _, _, _, _, _, _, h => by cases h
  | r :: rs, coming, data, data', coming', s, s', recvs', hcs, hdata, h => by
      rcases hread : r.read (buffSize - data.length) coming with _ | _ | ⟨x, xs⟩
      · simp only [ParserOps.recvHeader, hread] at h
        cases h
      · simp only [ParserOps.recvHeader, hread] at h
        cases h
      · have hpiece := (of_read hread).2
        rcases hexc : s.excute false (data ++ x :: xs) with e | ⟨s₁, p, data₁⟩
        · rw [ParserOps.recvHeader_of_error data hread hexc] at h
          cases h
        · rw [ParserOps.recvHeader_of_ok data hread hexc] at h
          have hlen : data₁.length + p ≤ buffSize ∨ data₁.length = 0 := by
            rw [HttpResponseParser.drop_of_excute hexc, List.length_drop,
              List.length_append]
            omega
          split_ifs at h with herr hfull hfin
          · cases h
            have herr : ¬(s'.cs = 0 ∨ s'.state.error ≠ 0) := by
              simpa [responseOps, HttpResponseParser.hasError,
                HttpResponseParser.hasAutomatonError] using herr
            rw [not_or, not_not] at herr
            obtain ⟨-, hex⟩ := HttpResponseParser.exec_of_excute hcs hexc
            have hp : 0 < p :=
              ((exec_progress _ hex).2 (by simp)).resolve_left herr.1
            refine ⟨herr.2, ?_⟩
            rw [List.length_cons] at hpiece
            omega
          · have hcs₁ : s₁.cs ≠ 0 := by
              intro h0
              apply hfin
              simp [responseOps, HttpResponseParser.isFinished,
                HttpResponseParser.hasAutomatonError, h0]
            exact of_header_stopped rs hcs₁ (by omega) h

/-- **Chunked responses.** Behind a header block that announces chunks, the body
handed out is the data of the chunks if every chunk comes as the decoder expects
it; and only then, unless a read ends inside a size line or a size is too large
for an `int`. -/
theorem recvResponse_chunked (lexicalCast : List UInt8 → Option UInt64)
    (alloc : ℕ → Bool) {buffSize : ℕ} {recvs recvs' : List Recv}
    {coming coming' data : List UInt8} {s : HttpResponseParser} (cs : List Chunk)
    (last : Chunk) (hcs : ∀ c ∈ cs, c.data ≠ []) (hlast : last.data = [])
    (hheader : responseOps.recvHeader buffSize recvs coming .new [] =
      .stopped s data recvs' coming')
    (hchunked : s.state.chunked = true)
    (hstream : data ++ coming' = encode (cs ++ [last]))
    (hrecvs : ∀ r ∈ recvs', r.Positive) (henough : coming'.length ≤ recvs'.length) :
    (Framed buffSize (cs ++ [last]) data recvs' coming' →
      ∃ s', recvResponse lexicalCast alloc buffSize recvs coming = .returned s' ∧
        s'.state.data.body = (cs.map Chunk.data).flatten) ∧
    (Regular buffSize (cs ++ [last]) data recvs' coming' →
      ((∃ s', recvResponse lexicalCast alloc buffSize recvs coming = .returned s' ∧
        s'.state.data.body = (cs.map Chunk.data).flatten) ↔
        Framed buffSize (cs ++ [last]) data recvs' coming')) := by
  obtain ⟨herr, hdata⟩ := of_header_stopped recvs
    (by simp [HttpResponseParser.new, HttpResponseParser.init]) (Nat.zero_le _) hheader
  have hresponse : recvResponse lexicalCast alloc buffSize recvs coming =
      recvChunks buffSize recvs' coming' ⟨s, data, [], 0⟩ := by
    rw [recvResponse, hheader, afterHeader, if_pos hchunked]
  rw [hresponse]
  have hiff : Regular buffSize (cs ++ [last]) data recvs' coming' →
      (Decodes buffSize recvs' coming' ⟨s, data, [], 0⟩ (cs.map Chunk.data).flatten ↔
        Framed buffSize (cs ++ [last]) data recvs' coming') := by
    intro hreg
    have h : Decodes buffSize recvs' coming' ⟨s, data, [], 0⟩
        ([] ++ (cs.map Chunk.data).flatten) ↔ ([] : List UInt8) = [] ∧
          Framed buffSize (cs ++ [last]) data recvs' coming' :=
      decodes_iff (by omega) hlast cs hcs herr hstream hdata henough hrecvs rfl hreg
    rw [List.nil_append] at h
    rw [h]
    exact ⟨fun h => h.2, fun h => ⟨rfl, h⟩⟩
  exact ⟨fun h => (hiff (regular_of_framed _ h)).mpr h, hiff⟩

def abcChunk : Chunk where
  size := bytes "3"
  data := bytes "abc"
  size_ne := by decide
  size_hex := by decide
  size_eq := by decide

def zeroChunk : Chunk where
  size := bytes "0"
  data := []
  size_ne := by decide
  size_hex := by decide
  size_eq := by decide

def chunkedHeader : List UInt8 :=
  bytes "HTTP/1.1 200 OK\r\nTransfer-Encoding: chunked\r\n\r\n"

/-- One read for the header block and one for each chunk. -/
theorem recvResponse_chunked_sample :
    ∃ s', recvResponse (fun _ => none) (fun _ => true) 4096
        (.got 47 :: .got 8 :: .got 5 :: List.replicate 11 (.got 1))
        (chunkedHeader ++ encode [abcChunk, zeroChunk]) = .returned s' ∧
      s'.state.data.body = bytes "abc" :=
  (recvResponse_chunked (fun _ => none) (fun _ => true) [abcChunk] zeroChunk
    (by decide) rfl (by rfl) rfl (by rfl) (by decide) (by decide)).1
    (by decide)

/-- A read that ends inside the data: the two bytes in front of its end are
lost, and the CRLF is taken for data. -/
theorem recvResponse_cut_data :
    ∃ s s', responseOps.recvHeader 4096
        (.got 47 :: .got 5 :: .got 3 :: .got 5 :: List.replicate 11 (.got 1))
        (chunkedHeader ++ encode [abcChunk, zeroChunk]) .new [] =
          .stopped s [] (.got 5 :: .got 3 :: .got 5 :: List.replicate 11 (.got 1))
            (encode [abcChunk, zeroChunk]) ∧
      s.state.chunked = true ∧
      recvResponse (fun _ => none) (fun _ => true) 4096
        (.got 47 :: .got 5 :: .got 3 :: .got 5 :: List.replicate 11 (.got 1))
        (chunkedHeader ++ encode [abcChunk, zeroChunk]) = .returned s' ∧
      s'.state.data.body = bytes "c\r\n" ∧
      s'.state.data.body ≠ ([abcChunk].map Chunk.data).flatten := by
  refine ⟨_, _, by rfl, by rfl, by rfl, by decide, by decide⟩

end HttpConnection

end Http

end Skt
