import Skt.Http.Message
import Skt.Lib.Ragel

/-!
# The scanners of the two parsers

`http11_parser.rl` and `httpclient_parser.rl` share their registers, the macros
`MARK`, `LEN` and `PTR_TO`, and the way an action hands a piece of the buffer to
a callback. `Instr` lists these ways; a parser names one for each action of its
automaton.
-/

namespace Skt

namespace Http

open Lib Lib.CString Lib.Ragel

/-- The fields of `http_parser` and `httpclient_parser` that hold a position or
a length in the buffer. Only the request parser has a `query_start`. -/
structure Registers where
  mark : ℕ
  fieldStart : ℕ
  fieldLen : ℕ
  queryStart : ℕ
  bodyStart : ℕ
  deriving DecidableEq, Repr

inductive Reg
  | mark
  | fieldStart
  | fieldLen
  | queryStart
  deriving DecidableEq, Repr

namespace Registers

def get (g : Registers) : Reg → ℕ
  | .mark => g.mark
  | .fieldStart => g.fieldStart
  | .fieldLen => g.fieldLen
  | .queryStart => g.queryStart

def set (g : Registers) (v : ℕ) : Reg → Registers
  | .mark => { g with mark := v }
  | .fieldStart => { g with fieldStart := v }
  | .fieldLen => { g with fieldLen := v }
  | .queryStart => { g with queryStart := v }

/-- What a call does to the registers before it looks at the input:
`query_start` and `body_start` are kept. -/
def reset (g : Registers) : Registers :=
  { g with mark := 0, fieldStart := 0, fieldLen := 0 }

@[simp] theorem get_set_self (g : Registers) (v : ℕ) (r : Reg) :
    (g.set v r).get r = v := by
  cases r <;> rfl

theorem get_set_of_ne (g : Registers) (v : ℕ) {r r' : Reg} (h : r' ≠ r) :
    (g.set v r).get r' = g.get r' := by
  cases r <;> cases r' <;> first | rfl | exact absurd rfl h

@[simp] theorem bodyStart_set (g : Registers) (v : ℕ) (r : Reg) :
    (g.set v r).bodyStart = g.bodyStart := by
  cases r <;> rfl

end Registers

/-- What an action does, at position `p`, to the registers and to the rest `ρ`
of the parser. -/
inductive Instr (ρ : Type)
  /-- `MARK(r, fpc)` -/
  | set (r : Reg)
  /-- `field_len = LEN(field_start, fpc)` -/
  | setLen
  /-- a callback that copies the string at `PTR_TO(r)` of length `LEN(r, fpc)` -/
  | element (r : Reg) (callback : List UInt8 → ρ → ρ)
  /-- a callback that is handed `PTR_TO(r)` and `LEN(r, fpc)` -/
  | pointer (r : Reg) (callback : List UInt8 → ℕ → ρ → ρ)
  /-- `http_field`: the name and the value; a field without a name is dropped -/
  | field (callback : List UInt8 → List UInt8 → ρ → ρ)
  /-- code that looks at nothing in the buffer -/
  | plain (callback : ρ → ρ)
  /-- `body_start` is the position behind this one, or `mark` -/
  | finish (fromMark : ρ → Bool) (callback : ℕ → ρ → ρ)

def Instr.run {ρ : Type} (buffer : List UInt8) (p : ℕ) (i : Instr ρ)
    (s : Registers × ρ) : Except Fault (Registers × ρ) :=
  let g := s.1
  match i with
  | .set r => .ok (g.set p r, s.2)
  | .setLen => .ok ({ g with fieldLen := lenOf g.fieldStart p }, s.2)
  | .element r callback =>
      (stdString buffer (g.get r) (lenOf (g.get r) p)).map fun str =>
        (g, callback str s.2)
  | .pointer r callback =>
      .ok (g, callback (buffer.drop (g.get r)) (lenOf (g.get r) p) s.2)
  | .field callback =>
      if g.fieldLen = 0 then .ok s
      else do
        let key ← stdString buffer g.fieldStart g.fieldLen
        let v ← stdString buffer g.mark (lenOf g.mark p)
        return (g, callback key v s.2)
  | .plain callback => .ok (g, callback s.2)
  | .finish fromMark callback =>
      .ok ({ g with bodyStart := if fromMark s.2 then g.mark else p + 1 },
        callback (lenOf g.mark p) s.2)

/-- The callback keeps `I`. -/
def Instr.Keeps {ρ : Type} (I : ρ → Prop) : Instr ρ → Prop
  | .set _ | .setLen => True
  | .element _ callback => ∀ str d, I d → I (callback str d)
  | .pointer _ callback => ∀ ptr len d, I d → I (callback ptr len d)
  | .field callback => ∀ key v d, I d → I (callback key v d)
  | .plain callback => ∀ d, I d → I (callback d)
  | .finish _ callback => ∀ len d, I d → I (callback len d)

/-- What ended a call, and the message and the flags as they were by then. -/
structure Thrown (ρ : Type) where
  fault : Fault
  state : ρ
  deriving DecidableEq, Repr

/-- An automaton with its actions. -/
structure Scanner (A ρ : Type) where
  table : Table A
  breaks : A → Bool
  instr : A → Instr ρ

namespace Scanner

variable {A ρ : Type} (P : Scanner A ρ)

def act (buffer : List UInt8) (p : ℕ) (a : A) (s : Registers × ρ) :
    Except (Thrown ρ) (Registers × ρ) :=
  match (P.instr a).run buffer p s with
  | .error e => .error ⟨e, s.2⟩
  | .ok s' => .ok s'

theorem act_eq_ok {buffer : List UInt8} {p : ℕ} {a : A} {s s' : Registers × ρ} :
    P.act buffer p a s = .ok s' ↔ (P.instr a).run buffer p s = .ok s' := by
  unfold act
  cases (P.instr a).run buffer p s with
  | error e => simp
  | ok s₁ => simp

/-- The generated loop over a buffer. There is no `case 0`: resumed in the error
state with bytes to read, the code behind the switch sets `cs = 2`. -/
def scan (cond : Bool) (buffer : List UInt8) (cs : ℕ) (s : Registers × ρ) :
    Except (Thrown ρ) (ℕ × ℕ × (Registers × ρ)) :=
  if buffer.length ≠ 0 ∧ cs = 0 then .ok (0, 2, s)
  else exec P.table cond P.breaks (P.act buffer) buffer 0 cs s

/-! ## Bounds -/

/-- The registers stay inside a buffer of `n` bytes. -/
structure Bounded (n p : ℕ) (g : Registers) : Prop where
  mark_le : g.mark ≤ p
  mark_lt : g.mark < n
  fieldStart_le : g.fieldStart ≤ p
  fieldStart_lt : g.fieldStart < n
  fieldLen_le : g.fieldLen ≤ n
  bodyStart_le : g.bodyStart ≤ n

/-- A callback leaves the registers alone. -/
theorem of_element {buffer : List UInt8} {p : ℕ} {r : Reg}
    {f : List UInt8 → ρ → ρ} {s s' : Registers × ρ}
    (h : (Instr.element r f).run buffer p s = .ok s') : ∃ str, s' = (s.1, f str s.2) := by
  simp only [Instr.run] at h
  cases hstr : stdString buffer (s.1.get r) (lenOf (s.1.get r) p) with
  | error e => rw [hstr] at h; cases h
  | ok str =>
      rw [hstr] at h
      cases h
      exact ⟨str, rfl⟩

theorem of_field {buffer : List UInt8} {p : ℕ}
    {f : List UInt8 → List UInt8 → ρ → ρ} {s s' : Registers × ρ}
    (h : (Instr.field f).run buffer p s = .ok s') :
    s' = s ∨ ∃ key v, s' = (s.1, f key v s.2) := by
  simp only [Instr.run] at h
  split_ifs at h
  · cases h
    exact Or.inl rfl
  · cases hkey : stdString buffer s.1.fieldStart s.1.fieldLen with
    | error e => rw [hkey] at h; cases h
    | ok key =>
        cases hv : stdString buffer s.1.mark (lenOf s.1.mark p) with
        | error e => rw [hkey, hv] at h; cases h
        | ok v =>
            rw [hkey, hv] at h
            cases h
            exact Or.inr ⟨key, v, rfl⟩

theorem Bounded.run {n p : ℕ} {buffer : List UInt8} {i : Instr ρ}
    {s s' : Registers × ρ} (hn : n < 18446744073709551616) (hp : p < n)
    (h : Bounded n p s.1) (hrun : i.run buffer p s = .ok s') :
    Bounded n p s'.1 := by
  have hsame := h
  obtain ⟨h1, h2, h3, h4, h5, h6⟩ := h
  cases i with
  | set r =>
      cases hrun
      cases r with
      | mark => exact ⟨le_refl p, hp, h3, h4, h5, h6⟩
      | fieldStart => exact ⟨h1, h2, le_refl p, hp, h5, h6⟩
      | fieldLen => exact ⟨h1, h2, h3, h4, hp.le, h6⟩
      | queryStart => exact ⟨h1, h2, h3, h4, h5, h6⟩
  | setLen =>
      cases hrun
      refine ⟨h1, h2, h3, h4, ?_, h6⟩
      show lenOf s.1.fieldStart p ≤ n
      rw [lenOf_of_le h3 (by omega)]
      omega
  | element r f =>
      obtain ⟨str, rfl⟩ := of_element hrun
      exact hsame
  | pointer r f => cases hrun; exact hsame
  | field f =>
      obtain rfl | ⟨key, v, rfl⟩ := of_field hrun
      · exact hsame
      · exact hsame
  | plain f => cases hrun; exact hsame
  | finish m f =>
      cases hrun
      refine ⟨h1, h2, h3, h4, h5, ?_⟩
      show (if m s.2 then s.1.mark else p + 1) ≤ n
      split_ifs
      · exact h2.le
      · exact hp

theorem Bounded.succ {n p : ℕ} {g : Registers} (h : Bounded n p g) :
    Bounded n (p + 1) g :=
  ⟨by have := h.mark_le; omega, h.mark_lt, by have := h.fieldStart_le; omega,
    h.fieldStart_lt, h.fieldLen_le, h.bodyStart_le⟩

/-- The registers where the scan of a buffer stops. -/
theorem exec_bounded {cond : Bool} {buffer : List UInt8} {cs p cs' : ℕ}
    {g : Registers} {d : ρ} {s' : Registers × ρ} (hne : buffer ≠ [])
    (hlen : buffer.length < 2147483648) (hbody : g.bodyStart ≤ buffer.length)
    (hexec : exec P.table cond P.breaks (P.act buffer) buffer 0 cs (g.reset, d) =
      .ok (p, cs', s')) :
    Bounded buffer.length p s'.1 ∧ p ≤ buffer.length := by
  have hpos : 0 < buffer.length := List.length_pos_iff.mpr hne
  obtain ⟨hb, hp⟩ := exec_invariant
    (I := fun p (s : Registers × ρ) => Bounded buffer.length p s.1)
    (fun hp h hact => Bounded.run (by omega) hp h (P.act_eq_ok.mp hact)) (fun h => h.succ) buffer
    (by omega) ⟨le_refl 0, hpos, le_refl 0, hpos, Nat.zero_le _, hbody⟩ hexec
  exact ⟨hb, by omega⟩

/-! ## What no callback changes -/

theorem keeps_run {I : ρ → Prop} {buffer : List UInt8} {p : ℕ} {i : Instr ρ}
    {s s' : Registers × ρ} (hi : i.Keeps I) (h : I s.2) (hrun : i.run buffer p s = .ok s') :
    I s'.2 := by
  cases i with
  | set r | setLen => cases hrun; exact h
  | element r f =>
      obtain ⟨str, rfl⟩ := of_element hrun
      exact hi str s.2 h
  | pointer r f => cases hrun; exact hi _ _ s.2 h
  | field f =>
      obtain rfl | ⟨key, v, rfl⟩ := of_field hrun
      · exact h
      · exact hi key v s.2 h
  | plain f => cases hrun; exact hi s.2 h
  | finish m f => cases hrun; exact hi _ s.2 h

theorem keeps_scan {I : ρ → Prop} (hI : ∀ a, (P.instr a).Keeps I) {cond : Bool}
    {buffer : List UInt8} {cs p cs' : ℕ} {s s' : Registers × ρ} (h : I s.2)
    (hscan : P.scan cond buffer cs s = .ok (p, cs', s')) : I s'.2 := by
  unfold scan at hscan
  split_ifs at hscan
  · cases hscan
    exact h
  · exact (exec_invariant (I := fun _ (s : Registers × ρ) => I s.2) (n := buffer.length)
      (fun _ h hact => keeps_run (hI _) h (P.act_eq_ok.mp hact)) (fun h => h) buffer
      (by omega) h hscan).1

end Scanner

end Http

end Skt
