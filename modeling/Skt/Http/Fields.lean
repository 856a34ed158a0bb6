import Skt.Http.Dump
import Skt.Http.Scanner
import Skt.Lib.Follow

/-!
# Following a header block

What the actions of the two parsers do at the end of a piece of the buffer that
starts at a register, and the loop over one header: its name is kept by position
and length, the value by position, and both are copied at the CR behind them.
-/

namespace Skt

namespace Http

open Lib Lib.CString Lib.Ragel

theorem lt_length_of_drop {buffer w rest : List UInt8} {c : UInt8} {m : ℕ}
    (hs : buffer.drop m = w ++ c :: rest) : m + w.length < buffer.length := by
  have hlen := congrArg List.length hs
  rw [List.length_drop, List.length_append, List.length_cons] at hlen
  omega

/-- The piece between two positions. -/
theorem stdString_drop {buffer w rest : List UInt8} {c : UInt8} {m : ℕ}
    (hlen : buffer.length < 2147483648) (hs : buffer.drop m = w ++ c :: rest) :
    stdString buffer m (lenOf m (m + w.length)) = .ok w := by
  have hlt := lt_length_of_drop hs
  rw [stdString, lenOf_of_le (by omega) (by omega), Nat.add_sub_cancel_left,
    if_neg (by omega), if_neg (by omega), hs, List.take_left]

/-! ## Names -/

def tokenBytes : List (ℕ × ℕ) :=
  [(33, 33), (35, 39), (42, 43), (45, 46), (48, 57), (65, 90), (94, 122), (124, 124),
    (126, 126)]

/-- A token of HTTP. -/
def IsToken (name : List UInt8) : Prop :=
  name ≠ [] ∧ ∀ c ∈ name, within tokenBytes c.toNat = true

instance : DecidablePred IsToken := fun name =>
  inferInstanceAs (Decidable (name ≠ [] ∧ ∀ c ∈ name, _))

theorem folded_of_token {name : List UInt8} (h : IsToken name) :
    folded name = name.map toLower := by
  have hne : ∀ c ∈ name, decide (c ≠ 0) = true := by
    intro c hc
    have hw := h.2 c hc
    rw [decide_eq_true_eq]
    rintro rfl
    exact absurd hw (by decide)
  rw [folded, List.takeWhile_eq_self_iff.mpr hne]

namespace Scanner

variable {A ρ : Type} (P : Scanner A ρ)

/-- The loop over a buffer, from position `p` on. -/
def go (buffer : List UInt8) (p q : ℕ) (s : Registers × ρ) :
    Except (Thrown ρ) (ℕ × ℕ × (Registers × ρ)) :=
  execFrom P.table false P.breaks (P.act buffer) buffer p q s

variable {P} {buffer : List UInt8}

/-- A text whose trace does not break out of the loop. -/
theorem go_trace {w rest : List UInt8} {p q q' : ℕ} {as : List (List A)}
    {s s' : Registers × ρ} (htrace : P.table.trace q w = some (as, q'))
    (hs : buffer.drop p = w ++ rest) (hbreaks : ∀ a ∈ as, a.any P.breaks = false)
    (hrun : runTrace (P.act buffer) p as s = .ok s') :
    P.go buffer p q s = P.go buffer (p + w.length) q' s' :=
  execFrom_trace htrace hs hbreaks hrun

/-- A byte without actions. -/
theorem go_byte {c : UInt8} {rest : List UInt8} {p q q' : ℕ}
    (htrace : P.table.trace q [c] = some ([[]], q')) (hs : buffer.drop p = c :: rest)
    (s : Registers × ρ) : P.go buffer p q s = P.go buffer (p + 1) q' s :=
  go_trace (w := [c]) htrace hs (by simp) rfl

/-! ## Single actions -/

section

variable {a : A} {g : Registers} {d : ρ} {p : ℕ}

theorem runActs_cons {as : List A} {s s' : Registers × ρ}
    (h : P.act buffer p a s = .ok s') :
    runActs (P.act buffer) p (a :: as) s = runActs (P.act buffer) p as s' := by
  simp only [runActs, h]

theorem runActs_one {s s' : Registers × ρ} (h : P.act buffer p a s = .ok s') :
    runActs (P.act buffer) p [a] s = .ok s' :=
  runActs_cons h

theorem runTrace_cons {as : List A} {rest : List (List A)} {s s' : Registers × ρ}
    (h : runActs (P.act buffer) p as s = .ok s') :
    runTrace (P.act buffer) p (as :: rest) s = runTrace (P.act buffer) (p + 1) rest s' := by
  simp only [runTrace, h]

theorem act_set {r : Reg} (ha : P.instr a = .set r) :
    P.act buffer p a (g, d) = .ok (g.set p r, d) :=
  P.act_eq_ok.mpr (by rw [ha]; rfl)

/-- A callback that gets the piece behind a register. -/
theorem act_element {r : Reg} {f : List UInt8 → ρ → ρ} (ha : P.instr a = .element r f)
    (hlen : buffer.length < 2147483648) {w rest : List UInt8} {c : UInt8}
    (hs : buffer.drop (g.get r) = w ++ c :: rest) :
    P.act buffer (g.get r + w.length) a (g, d) = .ok (g, f w d) := by
  refine P.act_eq_ok.mpr ?_
  rw [ha]
  simp only [Instr.run, stdString_drop hlen hs]
  rfl

/-- A callback that gets a pointer to the register and the distance. -/
theorem act_pointer {r : Reg} {f : List UInt8 → ℕ → ρ → ρ} (ha : P.instr a = .pointer r f)
    (hlen : buffer.length < 2147483648) {w rest : List UInt8} {c : UInt8}
    (hs : buffer.drop (g.get r) = w ++ c :: rest) :
    P.act buffer (g.get r + w.length) a (g, d) =
      .ok (g, f (w ++ c :: rest) w.length d) := by
  have hlt := lt_length_of_drop hs
  refine P.act_eq_ok.mpr ?_
  rw [ha]
  simp only [Instr.run, hs]
  rw [lenOf_of_le (by omega) (by omega), Nat.add_sub_cancel_left]

/-- The name and the value of a header. -/
theorem act_field {f : List UInt8 → List UInt8 → ρ → ρ} (ha : P.instr a = .field f)
    (hlen : buffer.length < 2147483648) {name w rest rest' : List UInt8} {c c' : UInt8}
    (hname : name ≠ []) (hkey : buffer.drop g.fieldStart = name ++ c' :: rest')
    (hfieldLen : g.fieldLen = name.length) (hs : buffer.drop g.mark = w ++ c :: rest) :
    P.act buffer (g.mark + w.length) a (g, d) = .ok (g, f name w d) := by
  have hlt := lt_length_of_drop hkey
  have hpos : 0 < name.length := List.length_pos_iff.mpr hname
  have hk : stdString buffer g.fieldStart g.fieldLen = .ok name := by
    have := stdString_drop hlen hkey
    rwa [lenOf_of_le (by omega) (by omega), Nat.add_sub_cancel_left, ← hfieldLen] at this
  refine P.act_eq_ok.mpr ?_
  rw [ha]
  simp only [Instr.run]
  rw [if_neg (by omega), hk, stdString_drop hlen hs]
  rfl

end

/-! ## One header -/

variable (P)

/-- The actions of a scanner for headers. -/
structure FieldActs where
  mark : A
  startField : A
  writeField : A
  writeValue : A
  callback : List UInt8 → List UInt8 → ρ → ρ
  instr_mark : P.instr mark = .set .mark
  instr_startField : P.instr startField = .set .fieldStart
  instr_writeField : P.instr writeField = .setLen
  instr_writeValue : P.instr writeValue = .field callback
  runs_on : ∀ a ∈ [mark, startField, writeField, writeValue], P.breaks a = false

variable {P}

/-- The trace over a piece and the byte behind it: `mark` is run on the first of
these bytes, and `last` on the last. -/
def valueTrace (mark : A) (last : List A) : List UInt8 → List (List A)
  | [] => [mark :: last]
  | _ :: w => [mark] :: List.replicate w.length [] ++ [last]

/-- The trace over a piece that is not empty, from the classes of its bytes. -/
theorem trace_piece [DecidableEq A] {t : Table A} {mark : A} {last : List A} {q q' : ℕ}
    {V : List ℕ} {first on : List (ℕ × ℕ)} {e x : UInt8} {w : List UInt8}
    (hfirst : t.goes [q] first [mark] V = true) (hon : t.goes V on [] V = true)
    (hend : t.goes V [(e.toNat, e.toNat)] last [q'] = true)
    (hx : within first x.toNat = true) (hw : ∀ c ∈ w, within on c.toNat = true) :
    t.trace q (x :: w ++ [e]) = some (valueTrace mark last (x :: w), q') := by
  obtain ⟨q₁, hq₁, h₁⟩ := trace_of_goes hfirst List.mem_cons_self hx
  obtain ⟨q₂, hq₂, h₂⟩ := trace_stretch hon hq₁ hw
  obtain ⟨q₃, hq₃, h₃⟩ := trace_of_goes hend hq₂ (c := e) (by simp [within])
  obtain rfl := List.mem_singleton.mp hq₃
  exact trace_append (trace_append h₁ h₂) h₃

theorem runs_on_valueTrace {mark : A} {last : List A} (hmark : P.breaks mark = false)
    (hlast : last.any P.breaks = false) (w : List UInt8) :
    ∀ a ∈ valueTrace mark last w, a.any P.breaks = false := by
  intro a ha
  cases w with
  | nil =>
      rw [List.mem_singleton.mp ha, List.any_cons, hmark, hlast]
      rfl
  | cons c w =>
      simp only [valueTrace, List.cons_append, List.mem_cons, List.mem_append,
        List.mem_replicate, List.not_mem_nil, or_false] at ha
      rcases ha with rfl | ⟨-, rfl⟩ | rfl
      · simp [hmark]
      · rfl
      · exact hlast

theorem runTrace_valueTrace {mark : A} {r : Reg} (hmark : P.instr mark = .set r)
    (last : List A) (w : List UInt8) (p : ℕ) (g : Registers) (d : ρ) :
    runTrace (P.act buffer) p (valueTrace mark last w) (g, d) =
      runActs (P.act buffer) (p + w.length) last (g.set p r, d) := by
  have hset : P.act buffer p mark (g, d) = .ok (g.set p r, d) := act_set hmark
  cases w with
  | nil =>
      simp only [valueTrace, runTrace, runActs_cons hset]
      cases runActs (P.act buffer) p last (g.set p r, d) <;> rfl
  | cons c w =>
      have hfirst : runTrace (P.act buffer) p ([mark] :: List.replicate w.length []) (g, d) =
          .ok (g.set p r, d) := by
        rw [runTrace_cons (runActs_one hset)]
        exact runTrace_replicate _ _ _ _
      rw [valueTrace, runTrace_append hfirst, List.length_cons, List.length_replicate,
        List.length_cons]
      simp only [runTrace]
      cases runActs (P.act buffer) (p + (w.length + 1)) last (g.set p r, d) <;> rfl

/-- A piece of text and the byte behind it, on which `last` is run with the
register at the start of the piece. -/
theorem go_piece {mark : A} {r : Reg} (hmark : P.instr mark = .set r) {last : List A}
    {w rest : List UInt8} {c : UInt8} {p q q' : ℕ} {g g' : Registers} {d d' : ρ}
    (htrace : P.table.trace q (w ++ [c]) = some (valueTrace mark last w, q'))
    (hs : buffer.drop p = w ++ c :: rest) (hbreak : P.breaks mark = false)
    (hlast : last.any P.breaks = false)
    (hrun : runActs (P.act buffer) (p + w.length) last (g.set p r, d) = .ok (g', d')) :
    P.go buffer p q (g, d) = P.go buffer (p + w.length + 1) q' (g', d') := by
  have hgo := go_trace (w := w ++ [c]) htrace (by simpa using hs)
    (runs_on_valueTrace hbreak hlast w) (by rw [runTrace_valueTrace hmark, hrun])
  rw [hgo, List.length_append]
  rfl

/-- A piece that is handed over as a pointer and a length. -/
theorem go_pointer {mark a : A} (hmark : P.instr mark = .set .mark)
    {f : List UInt8 → ℕ → ρ → ρ} (ha : P.instr a = .pointer .mark f)
    {w rest : List UInt8} {c : UInt8} {p q q' : ℕ} {g : Registers} {d : ρ}
    (htrace : P.table.trace q (w ++ [c]) = some (valueTrace mark [a] w, q'))
    (hlen : buffer.length < 2147483648) (hs : buffer.drop p = w ++ c :: rest)
    (hbreak : P.breaks mark = false) (hbreak' : P.breaks a = false) :
    P.go buffer p q (g, d) = P.go buffer (p + w.length + 1) q'
      ({ g with mark := p }, f (w ++ c :: rest) w.length d) :=
  go_piece hmark htrace hs hbreak (by simp [hbreak'])
    (runActs_one (act_pointer (r := .mark) (g := { g with mark := p }) ha hlen hs))

/-- A piece that is copied. -/
theorem go_element {mark a : A} (hmark : P.instr mark = .set .mark)
    {f : List UInt8 → ρ → ρ} (ha : P.instr a = .element .mark f)
    {w rest : List UInt8} {c : UInt8} {p q q' : ℕ} {g : Registers} {d : ρ}
    (htrace : P.table.trace q (w ++ [c]) = some (valueTrace mark [a] w, q'))
    (hlen : buffer.length < 2147483648) (hs : buffer.drop p = w ++ c :: rest)
    (hbreak : P.breaks mark = false) (hbreak' : P.breaks a = false) :
    P.go buffer p q (g, d) =
      P.go buffer (p + w.length + 1) q' ({ g with mark := p }, f w d) :=
  go_piece hmark htrace hs hbreak (by simp [hbreak'])
    (runActs_one (act_element (r := .mark) (g := { g with mark := p }) ha hlen hs))

theorem runTrace_marks {mark : A} (hmark : P.instr mark = .set .mark) (d : ρ) :
    ∀ (n p : ℕ) (g : Registers), ∃ m, runTrace (P.act buffer) p
      (List.replicate n [mark]) (g, d) = .ok ({ g with mark := m }, d)
  | 0, p, g => ⟨g.mark, rfl⟩
  | n + 1, p, g => by
      have hset : P.act buffer p mark (g, d) = .ok ({ g with mark := p }, d) := act_set hmark
      obtain ⟨m, hm⟩ := runTrace_marks hmark d n (p + 1) { g with mark := p }
      exact ⟨m, by rw [List.replicate_succ, runTrace_cons (runActs_one hset), hm]⟩

/-- The trace over a whole header line; `pre` and `mid` are what a line runs
besides the actions for headers. -/
structure Line (F : P.FieldActs) (q q' : ℕ) (pre mid : List A)
    (name pad value : List UInt8) : Prop where
  name_ne : name ≠ []
  reads : ∃ q₁ q₂ q₃, P.table.trace q name =
        some ((pre ++ [F.startField]) :: List.replicate (name.length - 1) [], q₁) ∧
      P.table.trace q₁ (58 :: pad) =
        some ([F.writeField] :: List.replicate pad.length [F.mark], q₂) ∧
      P.table.trace q₂ (value ++ [13]) =
        some (valueTrace F.mark (mid ++ [F.writeValue]) value, q₃) ∧
      P.table.trace q₃ [10] = some ([[]], q')
  runs_on : ∀ a ∈ pre ++ mid, P.breaks a = false

theorem any_breaks_append {as bs : List A} (ha : as.any P.breaks = false)
    (hb : bs.any P.breaks = false) : (as ++ bs).any P.breaks = false := by
  rw [List.any_append, ha, hb]
  rfl

theorem any_breaks_of_forall {as : List A} (h : ∀ a ∈ as, P.breaks a = false) :
    as.any P.breaks = false :=
  List.any_eq_false.mpr fun a ha => by simp [h a ha]

section Line

variable {F : P.FieldActs} {q q' p : ℕ} {g : Registers} {d d₁ d₂ : ρ}

theorem FieldActs.breaks_eq (F : P.FieldActs) : P.breaks F.mark = false ∧
    P.breaks F.startField = false ∧ P.breaks F.writeField = false ∧
    P.breaks F.writeValue = false := by
  simpa using F.runs_on

/-- The name: `field_start` is the position of its first byte. -/
theorem go_name {pre : List A} {name rest : List UInt8} {n : ℕ}
    (htrace : P.table.trace q name =
      some ((pre ++ [F.startField]) :: List.replicate n [], q'))
    (hs : buffer.drop p = name ++ rest) (hruns : ∀ a ∈ pre, P.breaks a = false)
    (hpre : runActs (P.act buffer) p pre (g, d) = .ok (g, d₁)) :
    P.go buffer p q (g, d) =
      P.go buffer (p + name.length) q' ({ g with fieldStart := p }, d₁) := by
  have hset : P.act buffer p F.startField (g, d₁) = .ok ({ g with fieldStart := p }, d₁) :=
    act_set F.instr_startField
  have hfirst : runActs (P.act buffer) p (pre ++ [F.startField]) (g, d) =
      .ok ({ g with fieldStart := p }, d₁) := by
    rw [runActs_append, hpre]
    exact runActs_one hset
  refine go_trace htrace hs ?_ (by rw [runTrace_cons hfirst, runTrace_replicate])
  intro a ha
  rcases List.mem_cons.mp ha with rfl | ha
  · exact any_breaks_append (any_breaks_of_forall hruns) (by simp [F.breaks_eq])
  · rw [(List.mem_replicate.mp ha).2]
    rfl

/-- The colon: `field_len` is the length of the name. -/
theorem go_colon {pad rest : List UInt8} {n : ℕ}
    (htrace : P.table.trace q (58 :: pad) =
      some ([F.writeField] :: List.replicate pad.length [F.mark], q'))
    (hs : buffer.drop (p + n) = 58 :: (pad ++ rest)) (hp : p + n < 18446744073709551616)
    (hstart : g.fieldStart = p) :
    ∃ m, P.go buffer (p + n) q (g, d) =
      P.go buffer (p + n + 1 + pad.length) q' ({ g with fieldLen := n, mark := m }, d) := by
  have hset : P.act buffer (p + n) F.writeField (g, d) = .ok ({ g with fieldLen := n }, d) := by
    refine P.act_eq_ok.mpr ?_
    rw [F.instr_writeField]
    simp only [Instr.run, hstart, lenOf_of_le (Nat.le_add_right p n) hp,
      Nat.add_sub_cancel_left]
  obtain ⟨m, hmarks⟩ := runTrace_marks F.instr_mark d pad.length (p + n + 1)
    { g with fieldLen := n }
  refine ⟨m, ?_⟩
  have hlen : p + n + 1 + pad.length = p + n + (58 :: pad).length := by
    rw [List.length_cons]
    omega
  rw [hlen]
  refine go_trace htrace (by simpa using hs) ?_
    (by rw [runTrace_cons (runActs_one hset), hmarks])
  intro a ha
  rcases List.mem_cons.mp ha with rfl | ha
  · simp [F.breaks_eq]
  · rw [(List.mem_replicate.mp ha).2]
    simp [F.breaks_eq]

/-- The value, which is copied at the CR together with the name. -/
theorem go_value {mid : List A} {name value rest rest' : List UInt8} {c' : UInt8} {q₁ : ℕ}
    (htrace : P.table.trace q (value ++ [13]) =
      some (valueTrace F.mark (mid ++ [F.writeValue]) value, q₁))
    (hlf : P.table.trace q₁ [10] = some ([[]], q'))
    (hlen : buffer.length < 2147483648) (hs : buffer.drop p = value ++ 13 :: 10 :: rest)
    (hname : name ≠ []) (hkey : buffer.drop g.fieldStart = name ++ c' :: rest')
    (hfieldLen : g.fieldLen = name.length) (hruns : ∀ a ∈ mid, P.breaks a = false)
    (hmid : ∀ g' : Registers, g'.mark = p →
      runActs (P.act buffer) (p + value.length) mid (g', d) = .ok (g', d₁)) :
    P.go buffer p q (g, d) =
      P.go buffer (p + value.length + 2) q'
        ({ g with mark := p }, F.callback name value d₁) := by
  have hrun : runActs (P.act buffer) (p + value.length) (mid ++ [F.writeValue])
      ({ g with mark := p }, d) =
        .ok ({ g with mark := p }, F.callback name value d₁) := by
    rw [runActs_append, hmid _ rfl]
    exact runActs_one
      (act_field (g := { g with mark := p }) F.instr_writeValue hlen hname hkey hfieldLen hs)
  have hgo := go_piece F.instr_mark htrace hs F.breaks_eq.1
    (any_breaks_append (any_breaks_of_forall hruns) (by simp [F.breaks_eq])) hrun
  rw [hgo, go_byte hlf (drop_succ (drop_add hs))]

theorem drop_line {name pad value rest : List UInt8}
    (hs : buffer.drop p = name ++ 58 :: (pad ++ (value ++ 13 :: 10 :: rest))) :
    buffer.drop (p + (name.length + 1 + pad.length + value.length + 2)) = rest := by
  have h := drop_succ (drop_succ (drop_add (drop_add (drop_succ (drop_add hs)))))
  rw [← h]
  congr 1
  omega

/-- The loop over a header line. -/
theorem go_line {pre mid : List A} {name pad value rest : List UInt8}
    (hline : Line F q q' pre mid name pad value) (hlen : buffer.length < 2147483648)
    (hs : buffer.drop p = name ++ 58 :: (pad ++ (value ++ 13 :: 10 :: rest)))
    (hpre : runActs (P.act buffer) p pre (g, d) = .ok (g, d₁))
    (hmid : ∀ g' : Registers, g'.mark = p + name.length + 1 + pad.length →
      runActs (P.act buffer) (p + name.length + 1 + pad.length + value.length) mid (g', d₁) =
        .ok (g', d₂)) :
    ∃ g', P.go buffer p q (g, d) =
      P.go buffer (p + (name.length + 1 + pad.length + value.length + 2)) q'
        (g', F.callback name value d₂) := by
  obtain ⟨hne, ⟨q₁, q₂, q₃, hname, hcolon, hvalue, hlf⟩, hruns⟩ := hline
  have hlt := lt_length_of_drop hs
  have hs₁ := drop_add hs
  have hs₂ : buffer.drop (p + name.length + 1 + pad.length) = value ++ 13 :: 10 :: rest :=
    drop_add (drop_succ hs₁)
  have hgo₁ := go_name hname hs (fun a ha => hruns a (List.mem_append_left _ ha)) hpre
  obtain ⟨m, hgo₂⟩ := go_colon (g := { g with fieldStart := p }) (d := d₁) hcolon hs₁ (by omega) rfl
  have hgo₃ := go_value
    (g := { g with fieldStart := p, fieldLen := name.length, mark := m }) hvalue hlf hlen hs₂
    hne hs rfl (fun a ha => hruns a (List.mem_append_right _ ha)) hmid
  refine ⟨{ g with fieldStart := p, fieldLen := name.length,
                   mark := p + name.length + 1 + pad.length }, ?_⟩
  rw [hgo₁, hgo₂, hgo₃]
  congr 1
  omega

/-- A line that runs nothing but the actions for headers. -/
theorem go_plainLine {name pad value rest : List UInt8}
    (hline : Line F q q' [] [] name pad value) (hlen : buffer.length < 2147483648)
    (hs : buffer.drop p = name ++ 58 :: (pad ++ (value ++ 13 :: 10 :: rest))) :
    ∃ g', P.go buffer p q (g, d) =
      P.go buffer (p + (name.length + 1 + pad.length + value.length + 2)) q'
        (g', F.callback name value d) :=
  go_line hline hlen hs rfl fun _ _ => rfl

theorem length_headerLine (pad : List UInt8) (e : List UInt8 × List UInt8) :
    (headerLine (58 :: pad) e).length = e.1.length + 1 + pad.length + e.2.length + 2 := by
  simp [headerLine, crlf]
  omega

/-- The loop over the lines of some headers. -/
theorem go_headers (pad : List UInt8) (hlen : buffer.length < 2147483648) :
    ∀ {headers : MapType} {p : ℕ} {g : Registers} {d : ρ} {rest : List UInt8},
      (∀ e ∈ headers, Line F q q [] [] e.1 pad e.2) →
      buffer.drop p = headers.flatMap (headerLine (58 :: pad)) ++ rest →
      ∃ g', P.go buffer p q (g, d) =
        P.go buffer (p + (headers.flatMap (headerLine (58 :: pad))).length) q
          (g', headers.foldl (fun d e => F.callback e.1 e.2 d) d)
  | [], p, g, d, rest, _, _ => ⟨g, rfl⟩
  | e :: headers, p, g, d, rest, hlines, hs => by
      rw [List.flatMap_cons, List.append_assoc] at hs
      have hs₁ := drop_add hs
      have hs' : buffer.drop p = e.1 ++ 58 :: (pad ++ (e.2 ++ 13 :: 10 ::
          (headers.flatMap (headerLine (58 :: pad)) ++ rest))) := by
        rw [hs, headerLine]
        simp [crlf]
      obtain ⟨g₁, hgo⟩ := go_plainLine (g := g) (d := d) (hlines e List.mem_cons_self) hlen hs'
      rw [← length_headerLine] at hgo
      obtain ⟨g₂, hgo'⟩ := go_headers pad hlen
        (fun e' h => hlines e' (List.mem_cons_of_mem _ h)) hs₁
      refine ⟨g₂, ?_⟩
      rw [hgo, hgo', List.flatMap_cons, List.length_append, Nat.add_assoc, List.foldl_cons]

end Line

end Scanner

end Http

end Skt
