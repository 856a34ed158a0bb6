import Skt.Http.Scanner

/-!
# A block handed over in pieces

`recvRequest` and `recvResponse` leave the unconsumed tail at the front of the
buffer and append new bytes behind it. A scanner that is fed a block in pieces
is compared here with one that gets the whole block in one call. The automaton
takes the same transitions in both; a position in a register is right as long
as the register was set in the current piece.
-/

namespace Skt

namespace Http

open Lib Lib.CString Lib.Ragel

/-- One call of `excute` for each piece: the parser after the last one and the
bytes it did not consume. -/
def feed {σ ε : Type}
    (excute : σ → List UInt8 → Except ε (σ × ℕ × List UInt8)) :
    σ → List UInt8 → List (List UInt8) → Except ε (σ × List UInt8)
  | s, tail, [] => .ok (s, tail)
  | s, tail, piece :: pieces =>
      match excute s (tail ++ piece) with
      | .error e => .error e
      | .ok (s', _, tail') => feed excute s' tail' pieces

/-- Where the pieces behind position `o` are cut. -/
def cuts : ℕ → List (List UInt8) → List ℕ
  | _, [] => []
  | _, [_] => []
  | o, piece :: pieces => (o + piece.length) :: cuts (o + piece.length) pieces

/-- No cut lies behind the first byte of a token and not behind its end. -/
def Uncut (tokens : List (ℕ × ℕ)) (cs : List ℕ) : Prop :=
  ∀ sp ∈ tokens, ∀ c ∈ cs, ¬(sp.1 < c ∧ c ≤ sp.2)

instance (tokens : List (ℕ × ℕ)) (cs : List ℕ) : Decidable (Uncut tokens cs) :=
  inferInstanceAs (Decidable (∀ _ ∈ _, ∀ _ ∈ _, _))

theorem cuts_cons {o : ℕ} {piece : List UInt8} {pieces : List (List UInt8)}
    (h : pieces ≠ []) :
    cuts o (piece :: pieces) =
      (o + piece.length) :: cuts (o + piece.length) pieces := by
  cases pieces with
  | nil => exact absurd rfl h
  | cons p ps => rfl

namespace Scanner

variable {A ρ M : Type} (P : Scanner A ρ)

/-! ## Tokens -/

/-- Where each register was last set, and the value of `field_len`. -/
structure Notes where
  since : Reg → ℕ
  fieldLen : ℕ

def Notes.set (n : Notes) (p : ℕ) (r : Reg) : Notes :=
  { n with since := fun x => if x = r then p else n.since x }

def note (p : ℕ) (a : A) (n : Notes) : Notes :=
  match P.instr a with
  | .set r => n.set p r
  | .setLen =>
      { n.set p .fieldLen with fieldLen := lenOf (n.since .fieldStart) p }
  | _ => n

/-- The tokens an action reads at position `p`: from where a register was set
up to `p`, and the name of a field as long as `field_len` says. -/
def tokenOf (p : ℕ) (a : A) (n : Notes) : List (ℕ × ℕ) :=
  match P.instr a with
  | .setLen => [(n.since .fieldStart, p)]
  | .element r _ => [(n.since r, p)]
  | .pointer r _ => [(n.since r, p)]
  | .field _ =>
      [(n.since .mark, p), (n.since .fieldStart, p), (n.since .fieldLen, p),
        (n.since .fieldStart, n.since .fieldStart + n.fieldLen - 1)]
  | _ => []

/-- The tokens of a block, in one run over the whole of it. -/
def tokens (cond : Bool) (block : List UInt8) : List (ℕ × ℕ) :=
  spans P.tokenOf P.note P.table cond P.breaks block 0 1 ⟨fun _ => 0, 0⟩

/-! ## What is known in a state -/

/-- Whether there is a digit at `mark`. -/
def record (row : Row A) (a : A) (digit : Bool) : Bool :=
  match P.instr a with
  | .set .mark => row.on = [(48, 57)]
  | _ => digit

/-- `stops` says when a callback that is handed a pointer looks no further than
the current byte. -/
def needs (stops : Row A → A → Bool → Bool) (row : Row A) (a : A)
    (digit : Bool) : Bool :=
  match P.instr a with
  | .pointer _ _ => stops row a digit
  | _ => true

def checkRow (stops : Row A → A → Bool → Bool) (digitIn : ℕ → Bool) (q : ℕ)
    (row : Row A) : Bool :=
  admits (P.record row) (P.needs stops row) row.acts (digitIn q) &&
    (!digitIn row.target || recordAll (P.record row) row.acts (digitIn q))

/-- What the comparison needs of a scanner: `msg` is the part of the parser that
is compared, and `digitIn` the states in which there is a digit at `mark`. -/
structure Lawful (msg : ρ → M) (stops : Row A → A → Bool → Bool)
    (digitIn : ℕ → Bool) : Prop where
  error_state : P.table.getD 0 [] = []
  start_state : digitIn 1 = false
  checked : P.table.checked (P.checkRow stops digitIn) = true
  set : ∀ {a : A} {r : Reg}, P.instr a = .set r → r ≠ .fieldLen
  element : ∀ {a : A} {r : Reg} {f : List UInt8 → ρ → ρ},
    P.instr a = .element r f → r ≠ .fieldLen ∧
      ∀ (x : List UInt8) {d d' : ρ}, msg d = msg d' → msg (f x d) = msg (f x d')
  pointer : ∀ {a : A} {r : Reg} {f : List UInt8 → ℕ → ρ → ρ},
    P.instr a = .pointer r f → r = .mark ∧
      ∀ {cond : Bool} {row : Row A} {k : Bool} {l : List UInt8} {c : UInt8}
        (m m' : List UInt8) {d d' : ρ},
        stops row a k = true → row.fits cond c = true →
        (k = true → ((l ++ [c]).head?.bind (digit 10)).isSome) →
        msg d = msg d' →
        msg (f (l ++ c :: m) l.length d) = msg (f (l ++ c :: m') l.length d')
  field : ∀ {a : A} {f : List UInt8 → List UInt8 → ρ → ρ},
    P.instr a = .field f → ∀ (x y : List UInt8) {d d' : ρ}, msg d = msg d' →
      msg (f x y d) = msg (f x y d')
  plain : ∀ {a : A} {f : ρ → ρ}, P.instr a = .plain f → ∀ d, msg (f d) = msg d
  finish : ∀ {a : A} {b : ρ → Bool} {f : ℕ → ρ → ρ},
    P.instr a = .finish b f → P.breaks a = true ∧ ∀ n d, msg (f n d) = msg d

/-! ## Two runs in step -/

/-- How far a register is moved in a piece that starts at `o`: `field_len` is
no position. -/
def shift (o : ℕ) (r : Reg) : ℕ := if r = .fieldLen then 0 else o

/-- The scanner `s` at position `p` of a piece that starts at position `o`, and
the scanner `S` at the same byte of the whole block: the same message so far,
and the same positions in the registers that were set in this piece. -/
structure InStep (msg : ρ → M) (o p : ℕ) (n : Notes) (S s : Registers × ρ) :
    Prop where
  msg_eq : msg S.2 = msg s.2
  mark_le : S.1.mark ≤ o + p
  fieldStart_le : S.1.fieldStart ≤ o + p
  since_le : ∀ r, n.since r ≤ o + p
  fieldStart_eq : n.since .fieldStart = S.1.fieldStart
  fieldLen_eq : n.fieldLen = S.1.fieldLen
  reg_eq : ∀ r, o ≤ n.since r → S.1.get r = shift o r + s.1.get r

/-- A part of the input that neither end of the piece falls into. -/
def Clear (pre piece post : List UInt8) (sp : ℕ × ℕ) : Prop :=
  ¬(sp.1 < pre.length ∧ pre.length ≤ sp.2) ∧
    (post ≠ [] → ¬(sp.1 < pre.length + piece.length ∧
      pre.length + piece.length ≤ sp.2))

section Resume

variable {P} {msg : ρ → M} {pre piece post : List UInt8} {p : ℕ} {n : Notes}
  {S s S' : Registers × ρ}

theorem Clear.le {start : ℕ}
    (h : Clear pre piece post (start, pre.length + p)) : pre.length ≤ start := by
  have := h.1
  dsimp only at this
  omega

/-- A callback leaves the registers in step. -/
theorem InStep.callback {o : ℕ} {d d' : ρ} (h : InStep msg o p n S s)
    (hmsg : msg d = msg d') : InStep msg o p n (S.1, d) (s.1, d') :=
  ⟨hmsg, h.mark_le, h.fieldStart_le, h.since_le, h.fieldStart_eq, h.fieldLen_eq,
    h.reg_eq⟩

theorem InStep.set {o : ℕ} (h : InStep msg o p n S s) {r : Reg}
    (hr : r ≠ .fieldLen) :
    InStep msg o p (n.set (o + p) r) (S.1.set (o + p) r, S.2)
      (s.1.set p r, s.2) := by
  refine ⟨h.msg_eq, ?_, ?_, fun x => ?_, ?_, ?_, fun x hx => ?_⟩
  · cases r with
    | mark => exact le_refl _
    | _ => exact h.mark_le
  · cases r with
    | fieldStart => exact le_refl _
    | _ => exact h.fieldStart_le
  · simp only [Notes.set]
    split_ifs
    · exact le_refl _
    · exact h.since_le x
  · cases r with
    | fieldStart => rfl
    | _ => exact h.fieldStart_eq
  · cases r with
    | fieldLen => exact absurd rfl hr
    | _ => exact h.fieldLen_eq
  · by_cases hxr : x = r
    · subst hxr
      simp only [Registers.get_set_self, shift, if_neg hr]
    · rw [Registers.get_set_of_ne _ _ hxr, Registers.get_set_of_ne _ _ hxr]
      simp only [Notes.set, if_neg hxr] at hx
      exact h.reg_eq x hx

/-- The bytes behind a position set in the piece. -/
theorem drop_whole {start : ℕ} (h : start ≤ piece.length) :
    (pre ++ piece ++ post).drop (pre.length + start) =
      piece.drop start ++ post := by
  rw [List.append_assoc, List.drop_append, List.drop_eq_nil_of_le (by omega),
    List.nil_append, Nat.add_sub_cancel_left, List.drop_append_of_le_length h]

/-- The bytes of the piece from a position up to the current byte and on. -/
theorem drop_split {c : UInt8} {start : ℕ} (hc : piece[p]? = some c)
    (h : start ≤ p) : ∃ l m, l.length = p - start ∧
      piece.drop start = l ++ c :: m := by
  obtain ⟨hp, hget⟩ := List.getElem?_eq_some_iff.mp hc
  refine ⟨(piece.drop start).take (p - start), piece.drop (p + 1), ?_, ?_⟩
  · rw [List.length_take, List.length_drop]
    omega
  · have hdrop : (piece.drop start).drop (p - start) =
        c :: piece.drop (p + 1) := by
      rw [List.drop_drop, Nat.add_sub_cancel' h, List.drop_eq_getElem_cons hp, hget]
    rw [← hdrop, List.take_append_drop]

/-- A callback that copies a string gets the same one in both runs. -/
theorem element_resume {r : Reg} {f : List UInt8 → ρ → ρ} (hr : r ≠ .fieldLen)
    (hf : ∀ (x : List UInt8) {d d' : ρ}, msg d = msg d' → msg (f x d) = msg (f x d'))
    (hp : p < piece.length)
    (hlen : (pre ++ piece ++ post).length ≤ 9223372036854775807)
    (hlive : pre.length ≤ n.since r) (h : InStep msg pre.length p n S s)
    (hrun : (Instr.element r f).run (pre ++ piece ++ post) (pre.length + p) S =
      .ok S') :
    ∃ s', (Instr.element r f).run piece p s = .ok s' ∧ S'.1 = S.1 ∧
      InStep msg pre.length p n S' s' := by
  have hreg := h.reg_eq r hlive
  rw [shift, if_neg hr] at hreg
  simp only [Instr.run, hreg, lenOf_add, stdString_lenOf _ hp.le hlen] at hrun ⊢
  cases hstr : stdString piece (s.1.get r) (lenOf (s.1.get r) p) with
  | error e => rw [hstr] at hrun; cases hrun
  | ok str =>
      rw [hstr] at hrun
      cases hrun
      exact ⟨_, rfl, rfl, h.callback (hf str h.msg_eq)⟩

theorem le_length_of_stdString {buffer str : List UInt8} {start length : ℕ}
    (h : stdString buffer start length = .ok str) :
    start + length ≤ buffer.length := by
  unfold stdString at h
  split_ifs at h
  omega

/-- The name of a field lies in the piece. -/
theorem name_le (hp : p < piece.length) (h : InStep msg pre.length p n S s)
    (hclear : Clear pre piece post
      (n.since .fieldStart, n.since .fieldStart + n.fieldLen - 1))
    (hwhole : S.1.fieldStart + S.1.fieldLen ≤ (pre ++ piece ++ post).length) :
    S.1.fieldStart + S.1.fieldLen ≤ pre.length + piece.length := by
  have hle := h.fieldStart_le
  by_cases hpost : post = []
  · subst hpost
    simpa using hwhole
  · have := hclear.2 hpost
    simp only [h.fieldStart_eq, h.fieldLen_eq] at this
    omega

/-- So does `http_field`. -/
theorem field_resume {f : List UInt8 → List UInt8 → ρ → ρ}
    (hf : ∀ (x y : List UInt8) {d d' : ρ}, msg d = msg d' →
      msg (f x y d) = msg (f x y d'))
    (hp : p < piece.length)
    (hlen : (pre ++ piece ++ post).length ≤ 9223372036854775807)
    (hmark : pre.length ≤ n.since .mark)
    (hstart : pre.length ≤ n.since .fieldStart)
    (hflen : pre.length ≤ n.since .fieldLen)
    (hclear : Clear pre piece post
      (n.since .fieldStart, n.since .fieldStart + n.fieldLen - 1))
    (h : InStep msg pre.length p n S s)
    (hrun : (Instr.field f).run (pre ++ piece ++ post) (pre.length + p) S =
      .ok S') :
    ∃ s', (Instr.field f).run piece p s = .ok s' ∧ S'.1 = S.1 ∧
      InStep msg pre.length p n S' s' := by
  have hmark : S.1.mark = pre.length + s.1.mark := h.reg_eq .mark hmark
  have hstart : S.1.fieldStart = pre.length + s.1.fieldStart :=
    h.reg_eq .fieldStart hstart
  have hflen : S.1.fieldLen = s.1.fieldLen := by
    have := h.reg_eq .fieldLen hflen
    rwa [shift, if_pos rfl, Nat.zero_add] at this
  simp only [Instr.run] at hrun ⊢
  rw [← hflen]
  split_ifs at hrun ⊢ with hzero
  · cases hrun
    exact ⟨s, rfl, rfl, h.callback h.msg_eq⟩
  · cases hk : stdString (pre ++ piece ++ post) S.1.fieldStart S.1.fieldLen with
    | error e => rw [hk] at hrun; cases hrun
    | ok key =>
        have hname := name_le hp h hclear (le_length_of_stdString hk)
        have hkey : stdString piece s.1.fieldStart S.1.fieldLen = .ok key := by
          rw [← hk, hstart, stdString_append]
          omega
        have hvalue : stdString piece s.1.mark (lenOf s.1.mark p) =
            stdString (pre ++ piece ++ post) S.1.mark
              (lenOf S.1.mark (pre.length + p)) := by
          rw [hmark, lenOf_add, stdString_lenOf _ hp.le hlen]
        rw [hkey, hvalue]
        cases hv : stdString (pre ++ piece ++ post) S.1.mark
            (lenOf S.1.mark (pre.length + p)) with
        | error e => rw [hk, hv] at hrun; cases hrun
        | ok v =>
            rw [hk, hv] at hrun
            cases hrun
            exact ⟨_, rfl, rfl, h.callback (hf key v h.msg_eq)⟩

/-- A callback that is handed a pointer sees other bytes behind the piece, but
does not look at them. -/
theorem pointer_resume {c : UInt8} {f : List UInt8 → ℕ → ρ → ρ}
    (hf : ∀ {l : List UInt8} (m m' : List UInt8) {d d' : ρ},
      (pre ++ piece ++ post)[S.1.mark]? = (l ++ [c]).head? → msg d = msg d' →
      msg (f (l ++ c :: m) l.length d) = msg (f (l ++ c :: m') l.length d'))
    (hlen : (pre ++ piece ++ post).length ≤ 9223372036854775807)
    (hc : piece[p]? = some c) (hlive : pre.length ≤ n.since .mark)
    (h : InStep msg pre.length p n S s) :
    InStep msg pre.length p n
      (S.1, f ((pre ++ piece ++ post).drop S.1.mark)
        (lenOf S.1.mark (pre.length + p)) S.2)
      (s.1, f (piece.drop s.1.mark) (lenOf s.1.mark p) s.2) := by
  have hmark : S.1.mark = pre.length + s.1.mark := h.reg_eq .mark hlive
  have hp : p < piece.length := (List.getElem?_eq_some_iff.mp hc).1
  have hle : s.1.mark ≤ p := by
    have := h.mark_le
    omega
  obtain ⟨l, m, hl, hsplit⟩ := drop_split hc hle
  simp only [List.length_append] at hlen
  have hlenOf : lenOf s.1.mark p = l.length := by
    rw [lenOf_of_le hle (by omega), hl]
  refine h.callback ?_
  have hhead : (pre ++ piece ++ post)[S.1.mark]? = (l ++ [c]).head? := by
    rw [← List.head?_drop, hmark, drop_whole (by omega), hsplit]
    cases l <;> rfl
  have hkey := hf (m ++ post) m hhead h.msg_eq
  rw [hmark, lenOf_add, drop_whole (by omega), hsplit, hlenOf, List.append_assoc]
  exact hkey

theorem setLen_resume (hlive : pre.length ≤ n.since .fieldStart)
    (h : InStep msg pre.length p n S s) :
    InStep msg pre.length p
      { n.set (pre.length + p) .fieldLen with
        fieldLen := lenOf (n.since .fieldStart) (pre.length + p) }
      ({ S.1 with fieldLen := lenOf S.1.fieldStart (pre.length + p) }, S.2)
      ({ s.1 with fieldLen := lenOf s.1.fieldStart p }, s.2) := by
  have hstart : S.1.fieldStart = pre.length + s.1.fieldStart :=
    h.reg_eq .fieldStart hlive
  refine ⟨h.msg_eq, h.mark_le, h.fieldStart_le, fun r => ?_, h.fieldStart_eq, ?_,
    fun r hr => ?_⟩
  · simp only [Notes.set]
    split_ifs
    · exact le_refl _
    · exact h.since_le r
  · rw [h.fieldStart_eq]
  · cases r with
    | fieldLen =>
        show lenOf S.1.fieldStart (pre.length + p) =
          shift pre.length .fieldLen + lenOf s.1.fieldStart p
        rw [hstart, lenOf_add, shift, if_pos rfl, Nat.zero_add]
    | mark => exact h.reg_eq .mark hr
    | fieldStart => exact h.reg_eq .fieldStart hr
    | queryStart => exact h.reg_eq .queryStart hr

/-! ## One transition -/

variable {stops : Row A → A → Bool → Bool} {digitIn : ℕ → Bool}

/-- What is known about `mark` in the whole block. -/
def Known (block : List UInt8) (isDigit : Bool) (g : Registers) : Prop :=
  isDigit = true → (block[g.mark]?.bind (digit 10)).isSome

/-- Two runs in step, with what is known about `mark`. -/
def InSync (msg : ρ → M) (block : List UInt8) (o p : ℕ) (isDigit : Bool)
    (n : Notes) (S s : Registers × ρ) : Prop :=
  InStep msg o p n S s ∧ Known block isDigit S.1

theorem digit_of_fits {cond : Bool} {row : Row A} {c : UInt8}
    (hon : row.on = [(48, 57)]) (hfits : row.fits cond c = true) :
    (digit 10 c).isSome := by
  simp only [Row.fits, hon, List.any_cons, List.any_nil, Bool.or_false,
    Bool.and_eq_true, decide_eq_true_eq] at hfits
  simp only [digit, hfits.2, and_self, if_true]
  rw [if_pos (by omega)]
  rfl

theorem set_known {c : UInt8} {cond isDigit : Bool} {row : Row A} {r : Reg}
    (hc : piece[p]? = some c) (hfits : row.fits cond c = true)
    (hknown : Known (pre ++ piece ++ post) isDigit S.1) :
    Known (pre ++ piece ++ post)
      (match r with | .mark => decide (row.on = [(48, 57)]) | _ => isDigit)
      (S.1.set (pre.length + p) r) := by
  have hp : p < piece.length := (List.getElem?_eq_some_iff.mp hc).1
  cases r with
  | mark =>
      intro hd
      have hbyte : (pre ++ piece ++ post)[pre.length + p]? = some c := by
        rw [List.append_assoc, List.getElem?_append_right (by omega),
          Nat.add_sub_cancel_left, List.getElem?_append_left hp, hc]
      show ((pre ++ piece ++ post)[pre.length + p]?.bind (digit 10)).isSome
      rw [hbyte]
      exact digit_of_fits (by simpa using hd) hfits
  | fieldStart => exact hknown
  | fieldLen => exact hknown
  | queryStart => exact hknown

theorem act_resume {c : UInt8} {cond isDigit : Bool} {row : Row A} {a : A}
    (hP : P.Lawful msg stops digitIn)
    (hlen : (pre ++ piece ++ post).length ≤ 9223372036854775807)
    (hc : piece[p]? = some c) (hfits : row.fits cond c = true)
    (hneeds : P.needs stops row a isDigit = true)
    (hclear : ∀ sp ∈ P.tokenOf (pre.length + p) a n, Clear pre piece post sp)
    (h : InSync msg (pre ++ piece ++ post) pre.length p isDigit n S s)
    (hact : P.act (pre ++ piece ++ post) (pre.length + p) a S = .ok S') :
    ∃ s', P.act piece p a s = .ok s' ∧
      InSync msg (pre ++ piece ++ post) pre.length p (P.record row a isDigit)
        (P.note (pre.length + p) a n) S' s' := by
  have hp : p < piece.length := (List.getElem?_eq_some_iff.mp hc).1
  obtain ⟨hstep, hknown⟩ := h
  have hlive : ∀ r, (n.since r, pre.length + p) ∈ P.tokenOf (pre.length + p) a n →
      pre.length ≤ n.since r := fun r hr => (hclear _ hr).le
  simp only [act_eq_ok] at hact ⊢
  unfold tokenOf at hclear hlive
  unfold needs at hneeds
  unfold InSync note record
  cases hi : P.instr a with
  | set r =>
      rw [hi] at hact
      cases hact
      refine ⟨_, rfl, hstep.set (hP.set hi), ?_⟩
      have hset := set_known (r := r) hc hfits hknown
      cases r <;> exact hset
  | setLen =>
      rw [hi] at hact hlive
      cases hact
      exact ⟨_, rfl, setLen_resume (hlive _ (by simp)) hstep, hknown⟩
  | element r g =>
      rw [hi] at hact hlive
      obtain ⟨hr, hg⟩ := hP.element hi
      obtain ⟨s', hs, hregs, hstep'⟩ := element_resume hr hg hp hlen
        (hlive _ (by simp)) hstep hact
      refine ⟨s', hs, hstep', ?_⟩
      rw [hregs]
      exact hknown
  | pointer r g =>
      rw [hi] at hact hlive hneeds
      cases hact
      obtain ⟨rfl, hg⟩ := hP.pointer hi
      refine ⟨_, rfl, pointer_resume ?_ hlen hc (hlive _ (by simp)) hstep, hknown⟩
      intro l m m' d d' hhead hmsg
      refine hg m m' hneeds hfits (fun hd => ?_) hmsg
      rw [← hhead]
      exact hknown hd
  | field g =>
      rw [hi] at hact hlive hclear
      obtain ⟨s', hs, hregs, hstep'⟩ := field_resume (hP.field hi) hp hlen
        (hlive _ (by simp)) (hlive _ (by simp)) (hlive _ (by simp))
        (hclear _ (by simp)) hstep hact
      refine ⟨s', hs, hstep', ?_⟩
      rw [hregs]
      exact hknown
  | plain g =>
      rw [hi] at hact
      cases hact
      refine ⟨_, rfl, hstep.callback ?_, hknown⟩
      rw [hP.plain hi, hP.plain hi, hstep.msg_eq]
  | finish b g =>
      rw [hi] at hact
      cases hact
      have hmsg : msg (g (lenOf S.1.mark (pre.length + p)) S.2) =
          msg (g (lenOf s.1.mark p) s.2) := by
        rw [(hP.finish hi).2, (hP.finish hi).2, hstep.msg_eq]
      refine ⟨_, rfl, ⟨hmsg, hstep.mark_le, hstep.fieldStart_le, hstep.since_le,
        hstep.fieldStart_eq, hstep.fieldLen_eq, fun r hr => ?_⟩, hknown⟩
      have := hstep.reg_eq r hr
      cases r <;> exact this

theorem bodyStart_of_act {buffer : List UInt8} {a : A}
    (hP : P.Lawful msg stops digitIn) (ha : P.breaks a = false)
    (hact : P.act buffer p a s = .ok S') : S'.1.bodyStart = s.1.bodyStart := by
  rw [act_eq_ok] at hact
  cases hi : P.instr a with
  | set r => rw [hi] at hact; cases hact; exact Registers.bodyStart_set _ _ _
  | setLen => rw [hi] at hact; cases hact; rfl
  | element r g =>
      rw [hi] at hact
      obtain ⟨str, rfl⟩ := of_element hact
      rfl
  | pointer r g => rw [hi] at hact; cases hact; rfl
  | field g =>
      rw [hi] at hact
      obtain rfl | ⟨key, v, rfl⟩ := of_field hact
      · rfl
      · rfl
  | plain g => rw [hi] at hact; cases hact; rfl
  | finish b g =>
      rw [(hP.finish hi).1] at ha
      cases ha

/-- In step in front of the byte at `p`: the notes are all behind it. -/
def Ready (msg : ρ → M) (o p : ℕ) (n : Notes) (S s : Registers × ρ) : Prop :=
  InStep msg o p n S s ∧ ∀ r, n.since r < max 1 (o + p)

/-- At a cut every register is lost and the message stays. -/
theorem Ready.cut {o : ℕ} (h : Ready msg o p n S s) (hp : 0 < p) :
    Ready msg (o + p) 0 n S (s.1.reset, s.2) := by
  obtain ⟨hstep, hsince⟩ := h
  refine ⟨⟨hstep.msg_eq, hstep.mark_le, hstep.fieldStart_le, hstep.since_le,
    hstep.fieldStart_eq, hstep.fieldLen_eq, fun r hr => ?_⟩, hsince⟩
  have := hsince r
  omega

/-- What holds in state `cs` of the automaton, until it breaks. -/
def Pending (digitIn : ℕ → Bool) (block : List UInt8) (cs _ : ℕ)
    (S s : Registers × ρ) : Prop :=
  s.1.bodyStart = 0 ∧ Known block (digitIn cs) S.1

/-- One transition in a piece and in the whole block. -/
theorem row_resume {cs : ℕ} {c : UInt8} {cond : Bool} {row : Row A}
    (hP : P.Lawful msg stops digitIn)
    (hlen : (pre ++ piece ++ post).length ≤ 9223372036854775807)
    (hc : piece[p]? = some c) (hnext : P.table.next cond cs c = some row)
    (hpend : Pending digitIn (pre ++ piece ++ post) cs p S s)
    (h : Ready msg pre.length p n S s)
    (hclear : ∀ sp ∈ actSpans P.tokenOf P.note (pre.length + p) row.acts n,
      Clear pre piece post sp)
    (hrun : runActs (P.act (pre ++ piece ++ post)) (pre.length + p) row.acts S =
      .ok S') :
    ∃ s', runActs (P.act piece) p row.acts s = .ok s' ∧
      Ready msg pre.length (p + 1) (noteAll P.note (pre.length + p) row.acts n)
        S' s' ∧
      (row.acts.any P.breaks = false →
        Pending digitIn (pre ++ piece ++ post) row.target (p + 1) S' s') := by
  have hcheck := checked_next hP.checked hnext
  simp only [checkRow, Bool.and_eq_true, Bool.or_eq_true, Bool.not_eq_true']
    at hcheck
  obtain ⟨hadm, hdigit⟩ := hcheck
  obtain ⟨s', hs, hstep, hknown⟩ := runActs_resume (P.record row)
    (P.needs stops row) (InSync msg (pre ++ piece ++ post) pre.length p)
    (Clear pre piece post)
    (fun hneeds hcl hsync hact =>
      act_resume hP hlen hc (next_fits hnext) hneeds hcl hsync hact)
    row.acts hadm ⟨h.1, hpend.2⟩ hclear hrun
  refine ⟨s', hs, ⟨⟨hstep.msg_eq, hstep.mark_le.trans (by omega),
    hstep.fieldStart_le.trans (by omega),
    fun r => (hstep.since_le r).trans (by omega), hstep.fieldStart_eq,
    hstep.fieldLen_eq, hstep.reg_eq⟩, fun r => ?_⟩, fun hbreak => ⟨?_, fun htd => ?_⟩⟩
  · have := hstep.since_le r
    omega
  · refine runActs_invariant (I := fun s => s.1.bodyStart = 0) row.acts ?_
      hpend.1 hs
    intro a ha s₁ s₂ h₁ hact
    have hab : P.breaks a = false := by
      simpa using List.any_eq_false.mp hbreak a ha
    rw [bodyStart_of_act hP hab hact, h₁]
  · rcases hdigit with hdigit | hdigit
    · rw [hdigit] at htd
      cases htd
    · exact hknown hdigit

end Resume

/-! ## All pieces -/

/-- Where a parser object keeps the state of its scanner. -/
structure View (σ ρ : Type) where
  cs : σ → ℕ
  regs : σ → Registers
  state : σ → ρ
  cond : σ → Bool

/-- A call on a buffer that can be scanned does just that. -/
def Drives {σ ε : Type} (V : View σ ρ)
    (excute : σ → List UInt8 → Except ε (σ × ℕ × List UInt8)) : Prop :=
  ∀ {s : σ} {buffer : List UInt8} {p cs : ℕ} {s' : Registers × ρ},
    buffer ≠ [] → buffer.length < 2147483648 → V.cs s ≠ 0 →
    (V.regs s).bodyStart ≤ buffer.length →
    exec P.table (V.cond s) P.breaks (P.act buffer) buffer 0 (V.cs s)
      ((V.regs s).reset, V.state s) = .ok (p, cs, s') →
    ∃ s₁, excute s buffer = .ok (s₁, p, buffer.drop p) ∧ V.cs s₁ = cs ∧
      V.regs s₁ = s'.1 ∧ V.state s₁ = s'.2 ∧ V.cond s₁ = V.cond s

section Feed

variable {P} {σ ε : Type} {msg : ρ → M} {stops : Row A → A → Bool → Bool}
  {digitIn : ℕ → Bool} {V : View σ ρ}
  {excute : σ → List UInt8 → Except ε (σ × ℕ × List UInt8)}

/-- The parser fed piece by piece, and the run over the whole block that has
come to the same place. -/
theorem feed_resume (hP : P.Lawful msg stops digitIn) (hV : P.Drives V excute) :
    ∀ (pieces : List (List UInt8)) (pre : List UInt8) {cs' : ℕ} {n : Notes}
      {S S' : Registers × ρ} {s : σ},
      (∀ q ∈ pieces, q ≠ []) →
      (pre ++ pieces.flatten).length < 2147483648 →
      (pieces ≠ [] → (V.regs s).bodyStart = 0 ∧
        Known (pre ++ pieces.flatten) (digitIn (V.cs s)) S.1) →
      Ready msg pre.length 0 n S ((V.regs s).reset, V.state s) →
      (∀ sp ∈ spans P.tokenOf P.note P.table (V.cond s) P.breaks
        pieces.flatten pre.length (V.cs s) n,
          ∀ c ∈ pre.length :: cuts pre.length pieces, ¬(sp.1 < c ∧ c ≤ sp.2)) →
      exec P.table (V.cond s) P.breaks (P.act (pre ++ pieces.flatten))
        pieces.flatten pre.length (V.cs s) S =
          .ok (pre.length + pieces.flatten.length, cs', S') →
      ∃ s', feed excute s [] pieces = .ok (s', []) ∧
        msg (V.state s') = msg S'.2 ∧ V.cs s' = cs'
  | [], pre, cs', n, S, S', s, _, _, _, hready, _, hex => by
      simp only [List.flatten_nil, exec, Except.ok.injEq, Prod.mk.injEq] at hex
      obtain ⟨-, rfl, rfl⟩ := hex
      exact ⟨s, rfl, hready.1.msg_eq.symm, rfl⟩
  | piece :: rest, pre, cs', n, S, S', s, hne, hlen, hpend, hready, hcut, hex => by
      have hpiece : piece ≠ [] := hne piece List.mem_cons_self
      have hpos : 0 < piece.length := List.length_pos_iff.mpr hpiece
      have hrest : ∀ q ∈ rest, q ≠ [] :=
        fun q hq => hne q (List.mem_cons_of_mem _ hq)
      have hflat : rest.flatten ≠ [] ↔ rest ≠ [] := by
        constructor
        · rintro h rfl
          exact h rfl
        · intro h
          obtain ⟨q, qs, rfl⟩ := List.exists_cons_of_ne_nil h
          simp [hrest q List.mem_cons_self]
      have hpend := hpend (List.cons_ne_nil _ _)
      simp only [List.flatten_cons] at hlen hcut hex hpend
      rw [← List.append_assoc] at hlen hex hpend
      have hsize : piece.length < 2147483648 := by
        simp only [List.length_append] at hlen
        omega
      have hcs : V.cs s ≠ 0 := by
        intro h0
        rw [h0, exec_error_state hP.error_state (by simp [hpiece])] at hex
        simp only [Except.ok.injEq, Prod.mk.injEq, List.length_append] at hex
        omega
      -- A token that no cut falls into is clear of both ends of the piece.
      have hclear : ∀ sp ∈ spans P.tokenOf P.note P.table (V.cond s) P.breaks
          (piece ++ rest.flatten) pre.length (V.cs s) n,
          Clear pre piece rest.flatten sp := by
        intro sp hsp
        refine ⟨hcut sp hsp _ List.mem_cons_self, fun hr => ?_⟩
        apply hcut sp hsp
        rw [cuts_cons (hflat.mp hr)]
        exact List.mem_cons_of_mem _ List.mem_cons_self
      obtain ⟨cs₁, n₁, S₁, s₁, hrun, hpend₁, hready₁, hex₁, hsub⟩ :=
        exec_resume (Pending digitIn (pre ++ piece ++ rest.flatten))
          (Ready msg pre.length) (Clear pre piece rest.flatten)
          (fun hc hnext hp hst hcl hrun =>
            row_resume hP (by omega) hc hnext hp hst hcl hrun)
          piece rest.flatten (p := 0) (s := ((V.regs s).reset, V.state s))
          (fun i => by rw [Nat.zero_add]) hpend hready hclear hex
      rw [Nat.add_zero] at hex₁ hsub
      rw [Nat.zero_add] at hrun hpend₁ hready₁
      obtain ⟨s₂, hcall, hcs₂, hregs₂, hstate₂, hcond₂⟩ :=
        hV hpiece hsize hcs (by omega) hrun
      have hready₂ : Ready msg (pre ++ piece).length 0 n₁ S₁
          ((V.regs s₂).reset, V.state s₂) := by
        rw [List.length_append, hregs₂, hstate₂]
        exact hready₁.cut hpos
      have hpend₂ : rest ≠ [] → (V.regs s₂).bodyStart = 0 ∧
          Known (pre ++ piece ++ rest.flatten) (digitIn (V.cs s₂)) S₁.1 := by
        intro hr
        rw [hregs₂, hcs₂]
        exact hpend₁ (hflat.mpr hr)
      have hcut₂ : ∀ sp ∈ spans P.tokenOf P.note P.table (V.cond s) P.breaks
          rest.flatten (pre.length + piece.length) cs₁ n₁,
          ∀ c ∈ (pre.length + piece.length) ::
            cuts (pre.length + piece.length) rest, ¬(sp.1 < c ∧ c ≤ sp.2) := by
        intro sp hsp c hc
        have hr : rest ≠ [] := by
          rintro rfl
          simp [spans] at hsp
        apply hcut sp (hsub sp hsp) c
        rw [cuts_cons hr]
        exact List.mem_cons_of_mem _ hc
      rw [← hcs₂, ← hcond₂, ← List.length_append] at hcut₂ hex₁
      obtain ⟨s', hfeed, hmsg, hcs'⟩ := feed_resume hP hV rest (pre ++ piece)
        hrest hlen hpend₂ hready₂ hcut₂ hex₁
      refine ⟨s', ?_, hmsg, hcs'⟩
      simp only [feed, List.nil_append, hcall, List.drop_length]
      exact hfeed

/-- **Pieces that cut no token.** A block that is scanned to its end in one call
leaves the same message and the same state when it is fed in pieces. -/
theorem feed_eq (hP : P.Lawful msg stops digitIn) (hV : P.Drives V excute)
    {pieces : List (List UInt8)} (hne : ∀ q ∈ pieces, q ≠ []) {cs' : ℕ}
    {S' : Registers × ρ} {s : σ} (hlen : pieces.flatten.length < 2147483648)
    (hcs : V.cs s = 1) (hbody : (V.regs s).bodyStart = 0)
    (hcut : Uncut (P.tokens (V.cond s) pieces.flatten) (cuts 0 pieces))
    (hex : exec P.table (V.cond s) P.breaks (P.act pieces.flatten)
      pieces.flatten 0 (V.cs s) ((V.regs s).reset, V.state s) =
        .ok (pieces.flatten.length, cs', S')) :
    ∃ s', feed excute s [] pieces = .ok (s', []) ∧
      msg (V.state s') = msg S'.2 ∧ V.cs s' = cs' := by
  refine feed_resume hP hV pieces [] (n := ⟨fun _ => 0, 0⟩)
    (S := ((V.regs s).reset, V.state s)) hne (by simpa using hlen) ?_ ?_ ?_
    (by simpa using hex)
  · intro _
    refine ⟨hbody, fun hd => ?_⟩
    rw [hcs, hP.start_state] at hd
    cases hd
  · refine ⟨⟨rfl, le_refl 0, le_refl 0, fun _ => le_refl 0, rfl, rfl, fun r _ => ?_⟩,
      fun _ => Nat.one_pos⟩
    unfold shift
    split_ifs <;> simp
  · intro sp hsp c hc
    rw [hcs] at hsp
    rcases List.mem_cons.mp hc with rfl | hc
    · exact fun h => absurd h.1 (Nat.not_lt_zero _)
    · exact hcut sp hsp c hc

end Feed

end Scanner

end Http

end Skt
