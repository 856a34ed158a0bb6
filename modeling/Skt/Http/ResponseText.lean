import Skt.Http.Fields
import Skt.Http.ResponseParser

/-!
# A response as text, read by the parser

The automaton over what `HttpResponse::dump` writes. Up to its last byte a header
name may still be one of the three names that have states of their own, so the
names go through several states; they end in one of the three only if they are
spelled like it.
-/

namespace Skt

set_option maxRecDepth 4000

namespace Http

open Lib Lib.CString Lib.Ragel

/-! ## What a header may hold -/

/-- No CR or LF, and no white space in front. -/
def IsValue (value : List UInt8) : Prop :=
  (∀ c ∈ value, c ≠ 13 ∧ c ≠ 10) ∧ ∀ c ∈ value.head?, isSpace c = false

instance : DecidablePred IsValue := fun value =>
  inferInstanceAs (Decidable ((∀ c ∈ value, _) ∧ ∀ c ∈ value.head?, _))

namespace ResponseText

open ResponseTable

/-! ## The states of the header block -/

/-- The states inside of a name that is spelled like none of the three. -/
def plainNames : List ℕ :=
  [21, 25, 26, 27, 28, 29, 30, 31, 32, 33, 44, 45, 46, 47, 48, 49, 50, 51, 52, 53, 54, 55,
    56, 57, 58, 59, 101, 102, 103, 104, 105, 106, 107, 108, 109, 110]

def names : List ℕ := plainNames ++ [34, 60, 111]

/-- The states along a name, from the start of the line on. -/
def spelling (states : List ℕ) (name : List UInt8) : List (ℕ × List UInt8) :=
  states.zip name.inits

def labels : List (ℕ × List UInt8) :=
  spelling [20, 25, 26, 27, 28, 29, 30, 31, 32, 33, 34] (bytes "connection") ++
    spelling [20, 25, 26, 27, 101, 102, 103, 104, 105, 106, 107, 108, 109, 110, 111]
      (bytes "content-length") ++
    spelling [20, 44, 45, 46, 47, 48, 49, 50, 51, 52, 53, 54, 55, 56, 57, 58, 59, 60]
      (bytes "transfer-encoding")

/-- Bytes that can be the first one of a value. -/
def notSpace : List (ℕ × ℕ) := [(0, 8), (14, 31), (33, 255)]

structure Layout : Prop where
  reason_first : responseTable.goes [18] [(0, 9), (11, 255)] [.mark] [19] = true
  reason : responseTable.goes [19] notNewline [] [19] = true
  reason_cr : responseTable.goes [19] [(13, 13)] [.reasonPhrase] [24] = true
  status_first : responseTable.goes [16] digit [.mark] [17] = true
  status : responseTable.goes [17] digit [] [17] = true
  status_blank : responseTable.goes [17] [(32, 32)] [.statusCode] [18] = true
  name_first : responseTable.goes [20] tokenBytes [.startField] names = true
  name : responseTable.goes names tokenBytes [] names = true
  colon : responseTable.goes plainNames [(58, 58)] [.writeField] [22] = true
  blank : responseTable.goes [22] [(32, 32)] [.mark] [22] = true
  value_first : responseTable.goes [22] notSpace [.mark] [23] = true
  value : responseTable.goes [23] notNewline [] [23] = true
  value_cr : responseTable.goes [23] [(13, 13)] [.writeValue] [24] = true
  length_first : responseTable.goes [112] digit [.mark] [119] = true
  length : responseTable.goes [119] digit [] [119] = true
  length_cr :
    responseTable.goes [119] [(13, 13)] [.writeContentLen, .writeValue] [24] = true
  spells : responseTable.spells toLower (20 :: names) labels = true

theorem layout : Layout := by
  constructor <;> decide

/-! ## Header lines -/

def fieldActs : responseScanner.FieldActs where
  mark := .mark
  startField := .startField
  writeField := .writeField
  writeValue := .writeValue
  callback := ResponseState.onResponseHttpFiled
  instr_mark := rfl
  instr_startField := rfl
  instr_writeField := rfl
  instr_writeValue := rfl
  runs_on := by decide

/-- The names that the automaton knows. -/
def special : List (List UInt8) :=
  [bytes "connection", bytes "content-length", bytes "transfer-encoding"]

/-- The state behind a name. -/
theorem trace_name {name : List UInt8} (hname : IsToken name)
    (hspecial : folded name ∉ special) :
    ∃ q ∈ plainNames, responseTable.trace 20 name =
      some ([.startField] :: List.replicate (name.length - 1) [], q) := by
  obtain ⟨hne, htoken⟩ := hname
  obtain ⟨c, cs, rfl⟩ := List.exists_cons_of_ne_nil hne
  obtain ⟨q₁, hq₁, h₁⟩ := trace_of_goes layout.name_first List.mem_cons_self
    (htoken c List.mem_cons_self)
  obtain ⟨q₂, hq₂, h₂⟩ := trace_stretch layout.name hq₁ fun d hd =>
    htoken d (List.mem_cons_of_mem _ hd)
  have htrace : responseTable.trace 20 (c :: cs) =
      some ([.startField] :: List.replicate cs.length [], q₂) := trace_append h₁ h₂
  refine ⟨q₂, ?_, htrace⟩
  have hclosed : ∀ q ∈ 20 :: names, ∀ d : UInt8, ∀ r, within tokenBytes d.toNat = true →
      responseTable.next false q d = some r → r.target ∈ 20 :: names := by
    intro q hq d r hd hnext
    rcases List.mem_cons.mp hq with rfl | hq
    · obtain ⟨r', hnext', -, htarget⟩ := next_of_goes layout.name_first List.mem_cons_self hd
      rw [hnext] at hnext'
      cases hnext'
      exact List.mem_cons_of_mem _ htarget
    · obtain ⟨r', hnext', -, htarget⟩ := next_of_goes layout.name hq hd
      rw [hnext] at hnext'
      cases hnext'
      exact List.mem_cons_of_mem _ htarget
  have hstart : ∀ e ∈ labels, e.1 = 20 → ([] : List UInt8).map toLower = e.2 := by
    decide
  obtain ⟨-, hspelled⟩ := run_spells layout.spells hclosed List.mem_cons_self htoken hstart
    (run_of_trace htrace)
  rw [List.nil_append, ← folded_of_token ⟨hne, htoken⟩] at hspelled
  rcases List.mem_append.mp hq₂ with hq | hq
  · exact hq
  · -- One of the three names has been read.
    have hlabel : ∀ q ∈ [34, 60, 111], ∃ e ∈ labels, e.1 = q ∧ e.2 ∈ special := by
      decide
    obtain ⟨e, he, hq, hmem⟩ := hlabel q₂ hq
    rw [← hspelled e he hq] at hmem
    exact absurd hmem hspecial

theorem notNewline_of_ne : ∀ c : UInt8, c ≠ 13 ∧ c ≠ 10 → within notNewline c.toNat = true := by
  decide

theorem notSpace_of_isSpace : ∀ c : UInt8, isSpace c = false → within notSpace c.toNat = true := by
  decide

theorem trace_value {value : List UInt8} (hvalue : IsValue value) :
    responseTable.trace 22 (value ++ [13]) =
      some (Scanner.valueTrace .mark [.writeValue] value, 24) := by
  cases value with
  | nil => decide
  | cons x w =>
      exact Scanner.trace_piece layout.value_first layout.value layout.value_cr
        (notSpace_of_isSpace x (hvalue.2 x rfl))
        fun c hc => notNewline_of_ne c (hvalue.1 c (List.mem_cons_of_mem _ hc))

/-- A header whose name is none of the three. -/
theorem line_header {name value : List UInt8} (hname : IsToken name)
    (hspecial : folded name ∉ special) (hvalue : IsValue value) :
    Scanner.Line fieldActs 20 20 [] [] name [32] value := by
  obtain ⟨q, hq, htrace⟩ := trace_name hname hspecial
  obtain ⟨q₁, hq₁, hcolon⟩ := trace_of_goes layout.colon hq (c := 58) (by decide)
  obtain rfl := List.mem_singleton.mp hq₁
  refine ⟨hname.1, ⟨q, 22, 24, htrace, ?_, trace_value hvalue, by decide⟩, by simp⟩
  exact trace_append hcolon (by decide : responseTable.trace 22 [32] = _)

/-- The two lines that `dump` writes for the connection. -/
theorem line_keepAlive :
    Scanner.Line fieldActs 20 20 [] [] (bytes "connection") [32] (bytes "keep-alive") :=
  ⟨by decide, ⟨34, 35, 24, by decide, by decide, by decide,
    by decide⟩, by simp⟩

theorem line_close :
    Scanner.Line fieldActs 20 43 [] [] (bytes "connection") [32] (bytes "close") :=
  ⟨by decide, ⟨34, 35, 88, by decide, by decide, by decide,
    by decide⟩, by simp⟩

theorem digits_of_decimal (n : ℕ) :
    ∀ c ∈ decimal n, within ResponseTable.digit c.toNat = true := fun c hc => by
  simpa [within, ResponseTable.digit] using (isSome_digit_iff c).mp (mem_decimal hc)

theorem trace_length (n : ℕ) :
    responseTable.trace 112 (decimal n ++ [13]) =
      some (Scanner.valueTrace .mark [.writeContentLen, .writeValue] (decimal n), 24) := by
  have hdigit := digits_of_decimal n
  obtain ⟨x, w, hw⟩ := List.exists_cons_of_ne_nil (decimal_ne_nil n)
  rw [hw] at hdigit ⊢
  exact Scanner.trace_piece layout.length_first layout.length layout.length_cr
    (hdigit x List.mem_cons_self) fun c hc => hdigit c (List.mem_cons_of_mem _ hc)

/-- The length of the body, behind either of these lines. -/
theorem line_length (n : ℕ) :
    Scanner.Line fieldActs 20 20 [] [.writeContentLen] (bytes "content-length") [32]
        (decimal n) ∧
      Scanner.Line fieldActs 43 20 [.writeConnectionClose] [.writeContentLen]
        (bytes "content-length") [32] (decimal n) :=
  ⟨⟨by decide, ⟨111, 112, 24, by decide, by decide, trace_length n,
      by decide⟩, by decide⟩,
    ⟨by decide, ⟨111, 112, 24, by decide, by decide, trace_length n,
      by decide⟩, by decide⟩⟩

/-! ## The header block -/

/-- A response that `dump` writes so that it can be read back. -/
structure Writable (r : HttpResponse) : Prop where
  version : r.version = 0x10 ∨ r.version = 0x11
  status_nonneg : 0 ≤ r.status
  status_le : r.status ≤ 2147483647
  reason : ∀ c ∈ r.reason, c ≠ 13 ∧ c ≠ 10
  ordered : r.headers.Ordered
  name : ∀ e ∈ r.headers, IsToken e.1 ∧ folded e.1 ∉ special
  value : ∀ e ∈ r.headers, IsValue e.2

/-- What `dump` writes for the connection. -/
def connection (close : Bool) : List UInt8 :=
  if close then bytes "close" else bytes "keep-alive"

/-- The headers that are written. -/
def headersRead (r : HttpResponse) : MapType :=
  MapType.withLength r.body
    ((MapType.setAll r.headers []).set (bytes "connection") (connection r.close))

/-- What the header block of a response leaves in the parser. -/
def HeadRead (r : HttpResponse) (d : ResponseState) : Prop :=
  d.data = { r with close := true, reason := r.reasonText, body := [],
                     headers := headersRead r } ∧
    d.chunked = false ∧ d.error = 0

section Run

variable {buffer : List UInt8} {p : ℕ} {g : Registers} {d : ResponseState}

theorem foldl_callback : ∀ (headers : MapType) (d : ResponseState),
    headers.foldl (fun d e => fieldActs.callback e.1 e.2 d) d =
      { d with data.headers := MapType.setAll headers d.data.headers }
  | [], _ => rfl
  | e :: headers, d => foldl_callback headers (ResponseState.onResponseHttpFiled e.1 e.2 d)

theorem trace_status (n : ℕ) : responseTable.trace 16 (decimal n ++ [32]) =
    some (Scanner.valueTrace .mark [.statusCode] (decimal n), 18) := by
  obtain ⟨x, w, hw⟩ := List.exists_cons_of_ne_nil (decimal_ne_nil n)
  have hdigit := digits_of_decimal n
  rw [hw] at hdigit ⊢
  exact Scanner.trace_piece layout.status_first layout.status layout.status_blank
    (hdigit x List.mem_cons_self) fun c hc => hdigit c (List.mem_cons_of_mem _ hc)

theorem trace_reason {reason : List UInt8} (hne : reason ≠ [])
    (h : ∀ c ∈ reason, c ≠ 13 ∧ c ≠ 10) : responseTable.trace 18 (reason ++ [13]) =
      some (Scanner.valueTrace .mark [.reasonPhrase] reason, 24) := by
  obtain ⟨x, w, rfl⟩ := List.exists_cons_of_ne_nil hne
  have hfirst : ∀ c : UInt8, c ≠ 13 ∧ c ≠ 10 →
      within [(0, 9), (11, 255)] c.toNat = true := by
    decide
  exact Scanner.trace_piece layout.reason_first layout.reason layout.reason_cr
    (hfirst x (h x List.mem_cons_self))
    fun c hc => notNewline_of_ne c (h c (List.mem_cons_of_mem _ hc))

theorem trace_version {version : ℕ} (h : version = 0x10 ∨ version = 0x11) :
    responseTable.trace 1 (dumpVersion version ++ [32]) =
      some (Scanner.valueTrace .mark [.httpVersion] (dumpVersion version), 16) := by
  rcases h with rfl | rfl
  · simp only [dumpVersion, decimal]
    decide
  · simp only [dumpVersion, decimal]
    decide

theorem onResponseVersion_dump {version : ℕ} (h : version = 0x10 ∨ version = 0x11)
    (rest : List UInt8) (d : ResponseState) :
    ResponseState.onResponseVersion (dumpVersion version ++ rest) (dumpVersion version).length d =
      { d with data.version := version } := by
  unfold ResponseState.onResponseVersion
  rw [strncmpEq_take rest [] _ le_rfl, strncmpEq_take rest [] _ le_rfl]
  rcases h with rfl | rfl
  · rw [if_neg (by simp only [dumpVersion, decimal]; decide),
      if_pos (by simp only [dumpVersion, decimal]; decide)]
  · rw [if_pos (by simp only [dumpVersion, decimal]; decide)]

theorem httpStatusToString_ne (s : ℤ) : httpStatusToString s ≠ [] ∧
    ∀ c ∈ httpStatusToString s, c ≠ 13 ∧ c ≠ 10 := by
  have hall : (httpStatusMap.all fun e =>
      !e.2.isEmpty && e.2.all fun c => Nat.blt 13 c.toNat) = true := by
    decide
  unfold httpStatusToString
  cases hfind : httpStatusMap.find? fun e => decide (e.1 = s) with
  | none => decide
  | some e =>
      have he := List.all_eq_true.mp hall e (List.mem_of_find?_eq_some hfind)
      rw [Bool.and_eq_true, Bool.not_eq_true', List.isEmpty_eq_false_iff] at he
      refine ⟨he.1, fun c hc => ?_⟩
      have hlt : 13 < c.toNat := Nat.blt_eq.mp (List.all_eq_true.mp he.2 c hc)
      constructor
      · rintro rfl
        exact absurd hlt (by decide)
      · rintro rfl
        exact absurd hlt (by decide)

theorem reasonText_ne {r : HttpResponse} (h : ∀ c ∈ r.reason, c ≠ 13 ∧ c ≠ 10) :
    r.reasonText ≠ [] ∧ ∀ c ∈ r.reasonText, c ≠ 13 ∧ c ≠ 10 := by
  unfold HttpResponse.reasonText
  split_ifs with hr
  · exact httpStatusToString_ne r.status
  · exact ⟨hr, h⟩

/-- The loop over the status line. -/
theorem go_statusLine {r : HttpResponse} (hr : Writable r)
    (hlen : buffer.length < 2147483648) {rest : List UInt8}
    (hs : buffer.drop p = dumpVersion r.version ++ 32 ::
      (decimal r.status.toNat ++ 32 :: (r.reasonText ++ 13 :: 10 :: rest))) :
    ∃ g', responseScanner.go buffer p 1 (g, d) =
      responseScanner.go buffer (p + (dumpVersion r.version).length + 1 +
          (decimal r.status.toNat).length + 1 + r.reasonText.length + 2) 20
        (g', { d with data := { d.data with version := r.version, status := r.status,
                                            reason := r.reasonText } }) := by
  obtain ⟨hne, hreason⟩ := reasonText_ne hr.reason
  have hs₁ := drop_succ (drop_add hs)
  have hs₂ := drop_succ (drop_add hs₁)
  have hs₃ := drop_succ (drop_add hs₂)
  have hversion := Scanner.go_pointer (P := responseScanner) (g := g) (d := d) rfl rfl
    (trace_version hr.version) hlen hs rfl rfl
  rw [onResponseVersion_dump hr.version] at hversion
  have hstatus := Scanner.go_pointer (P := responseScanner) (g := { g with mark := p })
    (d := { d with data.version := r.version }) rfl rfl (trace_status r.status.toNat) hlen hs₁
    rfl rfl
  have hatoi : atoi (decimal r.status.toNat ++ 32 :: (r.reasonText ++ 13 :: 10 :: rest)) =
      r.status := by
    have h₀ := hr.status_nonneg
    have h₁ := hr.status_le
    rw [atoi_decimal (by omega) (by simp; decide)]
    omega
  simp only [ResponseState.onResponseStatus, hatoi] at hstatus
  have hphrase := Scanner.go_element (P := responseScanner)
    (g := { g with mark := p + (dumpVersion r.version).length + 1 })
    (d := { d with data := { d.data with version := r.version, status := r.status } }) rfl rfl
    (trace_reason hne hreason) hlen hs₂ rfl rfl
  have hlf : responseTable.trace 24 [10] = some ([[]], 20) := by decide
  exact ⟨_, hversion.trans (hstatus.trans (hphrase.trans
    (Scanner.go_byte (P := responseScanner) hlf hs₃ _)))⟩

/-- The empty line, behind which the loop is left. -/
theorem go_done {rest : List UInt8} (hs : buffer.drop p = 13 :: 10 :: rest) :
    responseScanner.go buffer p 20 (g, d) =
      .ok (p + 2, 120, ({ g with bodyStart := p + 2 }, d)) := by
  have hcr : responseTable.trace 20 [13] = some ([[]], 3) := by decide
  rw [Scanner.go_byte (P := responseScanner) hcr hs]
  exact execFrom_break (drop_succ hs)
    (by decide : responseTable.next false 3 10 = some ⟨[(10, 10)], false, [.done], 120⟩)
    rfl rfl

/-- The empty line behind `connection: close`. -/
theorem go_done_close {rest : List UInt8} (hs : buffer.drop p = 13 :: 10 :: rest) :
    responseScanner.go buffer p 43 (g, d) =
      .ok (p + 2, 120, ({ g with bodyStart := p + 2 }, { d with close := true })) := by
  have hcr : responseTable.trace 43 [13] = some ([[.writeConnectionClose]], 3) := by
    decide
  have hrun : runTrace (responseScanner.act buffer) p [[.writeConnectionClose]] (g, d) =
      .ok (g, { d with close := true }) := rfl
  rw [Scanner.go_trace (P := responseScanner) (w := [13]) hcr hs (by simp [responseScanner]) hrun]
  exact execFrom_break (drop_succ hs)
    (by decide : responseTable.next false 3 10 = some ⟨[(10, 10)], false, [.done], 120⟩)
    rfl rfl

/-- What is the same behind the end of the header block. -/
def SameBut (headers : MapType) (d d' : ResponseState) : Prop :=
  d'.data = { d.data with headers := headers } ∧ d'.chunked = d.chunked ∧ d'.error = d.error

theorem run_writeContentLen (hlen : buffer.length < 2147483648) {n : ℕ}
    {rest : List UInt8} (hs : buffer.drop p = decimal n ++ 13 :: rest) (g' : Registers)
    (hmark : g'.mark = p) :
    runActs (responseScanner.act buffer) (p + (decimal n).length) [.writeContentLen] (g', d) =
      .ok (g', ResponseState.writeContentLen (decimal n ++ 13 :: rest) d) := by
  subst hmark
  exact Scanner.runActs_one (Scanner.act_pointer (r := .mark)
    (f := fun ptr _ => ResponseState.writeContentLen ptr) rfl hlen hs)

/-- The length of the body, if there is one, and the empty line; `close` is
whether `connection: close` has just been read. -/
theorem go_dumpLength (close : Bool) (hlen : buffer.length < 2147483648)
    {body rest : List UInt8} (hs : buffer.drop p = dumpLength body ++ rest) :
    ∃ g' d', responseScanner.go buffer p (if close then 43 else 20) (g, d) =
        .ok (p + (dumpLength body).length, 120, (g', d')) ∧
      SameBut (MapType.withLength body d.data.headers) d d' := by
  unfold dumpLength at hs ⊢
  unfold MapType.withLength
  by_cases hbody : body = []
  · simp only [if_pos hbody] at hs ⊢
    cases close with
    | false => exact ⟨_, _, go_done hs, rfl, rfl, rfl⟩
    | true => exact ⟨_, _, go_done_close hs, rfl, rfl, rfl⟩
  · simp only [if_neg hbody] at hs ⊢
    have hs' : buffer.drop p = bytes "content-length" ++ 58 :: ([32] ++
        (decimal body.length ++ 13 :: 10 :: (13 :: 10 :: rest))) := by
      rw [hs]
      simp [bytes, crlf]
    have hmid : ∀ d₁, ∀ g' : Registers, g'.mark =
        p + (bytes "content-length").length + 1 + [(32 : UInt8)].length → _ :=
      fun d₁ g' => run_writeContentLen (d := d₁) hlen (drop_add (drop_succ (drop_add hs'))) g'
    have hlength : (bytes "content-length: " ++ decimal body.length ++ crlf ++ crlf).length =
        (bytes "content-length").length + 1 + [(32 : UInt8)].length +
          (decimal body.length).length + 2 + 2 := by
      simp [bytes, crlf]
      omega
    rw [hlength]
    cases close with
    | false =>
        obtain ⟨g₁, hgo⟩ := Scanner.go_line (g := g) (d := d) (line_length body.length).1 hlen
          hs' rfl (hmid d)
        rw [if_neg Bool.false_ne_true, hgo, go_done (Scanner.drop_line hs')]
        exact ⟨_, _, rfl, rfl, rfl, rfl⟩
    | true =>
        have hpre : runActs (responseScanner.act buffer) p [.writeConnectionClose] (g, d) =
            .ok (g, { d with close := true }) := rfl
        obtain ⟨g₁, hgo⟩ := Scanner.go_line (line_length body.length).2 hlen hs' hpre (hmid _)
        rw [if_pos rfl, hgo, go_done (Scanner.drop_line hs')]
        exact ⟨_, _, rfl, rfl, rfl, rfl⟩

/-- The loop over the line for the connection. -/
theorem go_connection (close : Bool) (hlen : buffer.length < 2147483648) {rest : List UInt8}
    (hs : buffer.drop p =
      bytes "connection" ++ 58 :: ([32] ++ (connection close ++ 13 :: 10 :: rest))) :
    ∃ g', responseScanner.go buffer p 20 (g, d) =
      responseScanner.go buffer (p + ((bytes "connection").length + 1 + [(32 : UInt8)].length +
          (connection close).length + 2)) (if close then 43 else 20)
        (g', ResponseState.onResponseHttpFiled (bytes "connection") (connection close) d) := by
  cases close with
  | false => exact Scanner.go_plainLine line_keepAlive hlen hs
  | true => exact Scanner.go_plainLine line_close hlen hs

theorem filter_headers {r : HttpResponse} (hr : Writable r) :
    r.headers.filter (fun e => !strcasecmpEq e.1 (bytes "connection")) = r.headers := by
  refine List.filter_eq_self.mpr fun e he => ?_
  rw [Bool.not_eq_true']
  refine Bool.eq_false_iff.mpr fun h => (hr.name e he).2 ?_
  rw [strcasecmpEq_iff.mp h]
  decide

theorem head_eq {r : HttpResponse} (hr : Writable r) :
    r.head = dumpVersion r.version ++ 32 :: (decimal r.status.toNat ++ 32 ::
      (r.reasonText ++ 13 :: 10 :: (r.headers.flatMap (headerLine [58, 32]) ++
        (bytes "connection" ++ 58 :: ([32] ++ (connection r.close ++ 13 :: 10 ::
          dumpLength r.body)))))) := by
  have hstatus : r.status % 4294967296 = r.status :=
    Int.emod_eq_of_lt hr.status_nonneg (by have := hr.status_le; omega)
  unfold HttpResponse.head dumpHeaders
  rw [filter_headers hr, hstatus]
  simp [bytes, crlf, connection]

/-- **The header block of a dumped response.** The parser stops behind it, with
what was written. -/
theorem exec_head {r : HttpResponse} (hr : Writable r) {rest : List UInt8}
    (hlen : (r.head ++ rest).length < 2147483648) (g : Registers) :
    ∃ g' d', exec responseTable false responseScanner.breaks
        (responseScanner.act (r.head ++ rest)) (r.head ++ rest) 0 1
        (g, HttpResponseParser.new.state) = .ok (r.head.length, 120, (g', d')) ∧
      HeadRead r d' := by
  have hs : (r.head ++ rest).drop 0 = dumpVersion r.version ++ 32 ::
      (decimal r.status.toNat ++ 32 :: (r.reasonText ++ 13 :: 10 ::
        (r.headers.flatMap (headerLine [58, 32]) ++ (bytes "connection" ++ 58 :: ([32] ++
          (connection r.close ++ 13 :: 10 :: (dumpLength r.body ++ rest))))))) := by
    rw [List.drop_zero, head_eq hr]
    simp
  have hs₁ := drop_succ (drop_succ (drop_add (drop_succ (drop_add (drop_succ (drop_add hs))))))
  have hs₂ := drop_add hs₁
  have hs₃ := Scanner.drop_line hs₂
  obtain ⟨g₁, hgo₁⟩ := go_statusLine (g := g) (d := HttpResponseParser.new.state) hr hlen hs
  obtain ⟨g₂, hgo₂⟩ := Scanner.go_headers (F := fieldActs) (g := g₁) (q := 20)
    (d := { HttpResponseParser.new.state with
      data := { HttpResponse.new with version := r.version, status := r.status,
                                      reason := r.reasonText } })
    [32] hlen (fun e he => line_header (hr.name e he).1 (hr.name e he).2 (hr.value e he)) hs₁
  rw [foldl_callback] at hgo₂
  obtain ⟨g₃, hgo₃⟩ := go_connection (g := g₂)
    (d := { HttpResponseParser.new.state with
      data := { HttpResponse.new with version := r.version, status := r.status,
                                      reason := r.reasonText,
                                      headers := MapType.setAll r.headers [] } })
    r.close hlen hs₂
  obtain ⟨g₄, d', hgo₄, hsame⟩ := go_dumpLength (g := g₃)
    (d := { HttpResponseParser.new.state with
      data := { HttpResponse.new with version := r.version, status := r.status,
                                      reason := r.reasonText,
                                      headers := (MapType.setAll r.headers []).set
                                        (bytes "connection") (connection r.close) } })
    r.close hlen hs₃
  refine ⟨g₄, d', ?_, hsame⟩
  have hend : r.head.length = 0 + (dumpVersion r.version).length + 1 +
      (decimal r.status.toNat).length + 1 + r.reasonText.length + 2 +
      (r.headers.flatMap (headerLine [58, 32])).length +
      ((bytes "connection").length + 1 + [(32 : UInt8)].length + (connection r.close).length + 2) +
      (dumpLength r.body).length := by
    rw [head_eq hr]
    simp only [List.length_append, List.length_cons]
    omega
  rw [hend]
  exact hgo₁.trans (hgo₂.trans (hgo₃.trans hgo₄))

end Run

end ResponseText

end Http

end Skt
