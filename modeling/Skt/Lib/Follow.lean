import Skt.Lib.Segment

/-!
# Following a known text

The transitions of a table automaton over a text, as the actions of each byte.
They do not depend on what the actions do, so a trace is put together from the
traces of the parts of the text and then run once. For a class of bytes that a
set of states handles alike, one look at the table gives the trace of every
string over the class.
-/

namespace Lib

namespace Ragel

variable {A σ ε : Type} {t : Table A}

/-! ## Traces -/

/-- The actions of each byte of a text, and the state behind it. -/
def Table.trace (t : Table A) (q : ℕ) : List UInt8 → Option (List (List A) × ℕ)
  | [] => some ([], q)
  | c :: w =>
      match t.next false q c with
      | none => none
      | some r => (t.trace r.target w).map fun e => (r.acts :: e.1, e.2)

/-- The actions of a trace, from position `p` on. -/
def runTrace (act : ℕ → A → σ → Except ε σ) (p : ℕ) :
    List (List A) → σ → Except ε σ
  | [], x => .ok x
  | as :: rest, x =>
      match runActs act p as x with
      | .error e => .error e
      | .ok x' => runTrace act (p + 1) rest x'

theorem trace_append {u v : List UInt8} {q q₁ q₂ : ℕ} {as bs : List (List A)}
    (hu : t.trace q u = some (as, q₁)) (hv : t.trace q₁ v = some (bs, q₂)) :
    t.trace q (u ++ v) = some (as ++ bs, q₂) := by
  induction u generalizing q as with
  | nil =>
      obtain ⟨rfl, rfl⟩ : as = [] ∧ q = q₁ := by
        simpa [Table.trace, eq_comm] using hu
      exact hv
  | cons c u ih =>
      simp only [Table.trace, List.cons_append] at hu ⊢
      cases hnext : t.next false q c with
      | none => simp [hnext] at hu
      | some r =>
          simp only [hnext, Option.map_eq_some_iff] at hu ⊢
          obtain ⟨⟨as', q'⟩, hu', heq⟩ := hu
          obtain ⟨rfl, rfl⟩ := Prod.mk.inj heq
          exact ⟨_, ih hu', rfl⟩

theorem runTrace_append {act : ℕ → A → σ → Except ε σ} :
    ∀ {as bs : List (List A)} {p : ℕ} {x x' : σ}, runTrace act p as x = .ok x' →
      runTrace act p (as ++ bs) x = runTrace act (p + as.length) bs x'
  | [], bs, p, x, x', h => by
      obtain rfl : x = x' := by simpa [runTrace] using h
      rfl
  | a :: as, bs, p, x, x', h => by
      simp only [runTrace, List.cons_append] at h ⊢
      cases ha : runActs act p a x with
      | error e => simp [ha] at h
      | ok x₁ =>
          simp only [ha] at h ⊢
          rw [runTrace_append h, List.length_cons, Nat.add_right_comm, Nat.add_assoc]

/-- Bytes without actions. -/
theorem runTrace_replicate (act : ℕ → A → σ → Except ε σ) (x : σ) :
    ∀ (n p : ℕ), runTrace act p (List.replicate n []) x = .ok x
  | 0, _ => rfl
  | n + 1, p => runTrace_replicate act x n (p + 1)

/-- The loop over a text whose trace does not break out of it. -/
theorem execFrom_trace {breaks : A → Bool} {act : ℕ → A → σ → Except ε σ}
    {s rest : List UInt8} :
    ∀ {w : List UInt8} {p q q' : ℕ} {as : List (List A)} {x x' : σ},
      t.trace q w = some (as, q') → s.drop p = w ++ rest →
      (∀ a ∈ as, a.any breaks = false) → runTrace act p as x = .ok x' →
      execFrom t false breaks act s p q x =
        execFrom t false breaks act s (p + w.length) q' x'
  | [], p, q, q', as, x, x', htrace, _, _, hrun => by
      obtain ⟨rfl, rfl⟩ : as = [] ∧ q = q' := by simpa [Table.trace, eq_comm] using htrace
      obtain rfl : x = x' := by simpa [runTrace] using hrun
      rfl
  | c :: w, p, q, q', as, x, x', htrace, hs, hbreaks, hrun => by
      simp only [Table.trace] at htrace
      cases hnext : t.next false q c with
      | none => simp [hnext] at htrace
      | some r =>
          simp only [hnext, Option.map_eq_some_iff] at htrace
          obtain ⟨⟨as', q₁⟩, htrace, heq⟩ := htrace
          obtain ⟨rfl, rfl⟩ := Prod.mk.inj heq
          simp only [runTrace] at hrun
          cases hacts : runActs act p r.acts x with
          | error e => simp [hacts] at hrun
          | ok x₁ =>
              simp only [hacts] at hrun
              rw [execFrom_step hs hnext hacts (hbreaks _ List.mem_cons_self),
                execFrom_trace htrace (drop_succ hs)
                  (fun a ha => hbreaks a (List.mem_cons_of_mem _ ha)) hrun,
                List.length_cons, Nat.add_right_comm, Nat.add_assoc]

/-- The byte behind which the loop is left. -/
theorem execFrom_break {breaks : A → Bool} {act : ℕ → A → σ → Except ε σ}
    {s rest : List UInt8} {c : UInt8} {p q : ℕ} {r : Row A} {x x' : σ}
    (hs : s.drop p = c :: rest) (hnext : t.next false q c = some r)
    (hacts : runActs act p r.acts x = .ok x') (hbreak : r.acts.any breaks = true) :
    execFrom t false breaks act s p q x = .ok (p + 1, r.target, x') := by
  unfold execFrom
  rw [hs]
  simp [exec, hnext, hacts, hbreak]

/-- A byte that the state does not take. -/
theorem execFrom_stuck {breaks : A → Bool} {act : ℕ → A → σ → Except ε σ}
    {s rest : List UInt8} {c : UInt8} {p q : ℕ} (x : σ)
    (hs : s.drop p = c :: rest) (hnext : t.next false q c = none) :
    execFrom t false breaks act s p q x = .ok (p, 0, x) := by
  unfold execFrom
  rw [hs]
  simp [exec, hnext]

/-! ## Classes of bytes -/

/-- The bytes of some ranges. -/
def expand (on : List (ℕ × ℕ)) : List ℕ :=
  on.flatMap fun b => (List.range (b.2 + 1 - b.1)).map (b.1 + ·)

theorem mem_expand {on : List (ℕ × ℕ)} {c : ℕ} (h : within on c = true) : c ∈ expand on := by
  simp only [within, List.any_eq_true, Bool.and_eq_true, decide_eq_true_eq] at h
  obtain ⟨b, hb, hlo, hhi⟩ := h
  exact List.mem_flatMap.mpr ⟨b, hb, List.mem_map.mpr ⟨c - b.1, by simp; omega, by omega⟩⟩

/-- Every state of `R` takes every byte of `on`, with the actions `acts`, to a
state of `T`. -/
def Table.goes [DecidableEq A] (t : Table A) (R : List ℕ) (on : List (ℕ × ℕ))
    (acts : List A) (T : List ℕ) : Bool :=
  R.all fun q => (expand on).all fun c =>
    (rowAt (t.getD q []) c).any fun r => decide (r.acts = acts) && T.contains r.target

variable [DecidableEq A] {R T : List ℕ} {on : List (ℕ × ℕ)} {acts : List A}

theorem next_of_goes (h : t.goes R on acts T = true) {q : ℕ} (hq : q ∈ R) {c : UInt8}
    (hc : within on c.toNat = true) :
    ∃ r, t.next false q c = some r ∧ r.acts = acts ∧ r.target ∈ T := by
  have hrow := List.all_eq_true.mp (List.all_eq_true.mp h q hq) _ (mem_expand hc)
  rw [← Table.next_eq_rowAt] at hrow
  cases hnext : t.next false q c with
  | none => simp [hnext] at hrow
  | some r =>
      simp only [hnext, Option.any_some, Bool.and_eq_true, decide_eq_true_eq,
        List.contains_iff_mem] at hrow
      exact ⟨r, rfl, hrow⟩

/-- One byte of a class. -/
theorem trace_of_goes (h : t.goes R on acts T = true) {q : ℕ} (hq : q ∈ R) {c : UInt8}
    (hc : within on c.toNat = true) : ∃ q' ∈ T, t.trace q [c] = some ([acts], q') := by
  obtain ⟨r, hnext, hacts, htarget⟩ := next_of_goes h hq hc
  exact ⟨r.target, htarget, by simp [Table.trace, hnext, hacts]⟩

/-- A string over a class that leads from each state of a set to one of them. -/
theorem trace_stretch (h : t.goes R on acts R = true) :
    ∀ {w : List UInt8} {q : ℕ}, q ∈ R → (∀ c ∈ w, within on c.toNat = true) →
      ∃ q' ∈ R, t.trace q w = some (List.replicate w.length acts, q')
  | [], q, hq, _ => ⟨q, hq, rfl⟩
  | c :: w, q, hq, hw => by
      obtain ⟨q₁, hq₁, hone⟩ := trace_of_goes h hq (hw c List.mem_cons_self)
      obtain ⟨q', hq', hrest⟩ := trace_stretch h hq₁ fun d hd =>
        hw d (List.mem_cons_of_mem _ hd)
      exact ⟨q', hq', trace_append hone hrest⟩

/-! ## What has been read -/

/-- Each labelled state is only entered, from a state of `R`, on the last byte
of its label and from a state whose label is the rest; `fold` is what is done to
a byte before it is compared. -/
def Table.spells (t : Table A) (fold : UInt8 → UInt8) (R : List ℕ)
    (label : List (ℕ × List UInt8)) : Bool :=
  R.all fun q => (t.getD q []).all fun r => label.all fun e =>
    !decide (r.target = e.1) ||
      (label.contains (q, e.2.dropLast) &&
        (expand r.on).all fun c => decide (e.2 = e.2.dropLast ++ [fold (UInt8.ofNat c)]))

omit [DecidableEq A] in
/-- A run that ends in a labelled state has read its label. -/
theorem run_spells {fold : UInt8 → UInt8} {label : List (ℕ × List UInt8)}
    (h : t.spells fold R label = true)
    (hR : ∀ q ∈ R, ∀ c : UInt8, ∀ r, within on c.toNat = true → t.next false q c = some r →
      r.target ∈ R) :
    ∀ {w u : List UInt8} {q q' : ℕ}, q ∈ R → (∀ c ∈ w, within on c.toNat = true) →
      (∀ e ∈ label, e.1 = q → u.map fold = e.2) → t.run q w = some q' →
      q' ∈ R ∧ ∀ e ∈ label, e.1 = q' → (u ++ w).map fold = e.2
  | [], u, q, q', hq, _, hlabel, hrun => by
      obtain rfl : q = q' := by simpa [Table.run] using hrun
      exact ⟨hq, by simpa using hlabel⟩
  | c :: w, u, q, q', hq, hw, hlabel, hrun => by
      simp only [Table.run] at hrun
      cases hnext : t.next false q c with
      | none => simp [hnext] at hrun
      | some r =>
          simp only [hnext] at hrun
          have hmem : r ∈ t.getD q [] := List.mem_of_find?_eq_some hnext
          have hrows := List.all_eq_true.mp (List.all_eq_true.mp h q hq) r hmem
          have hlabel' : ∀ e ∈ label, e.1 = r.target → (u ++ [c]).map fold = e.2 := by
            intro e he htarget
            have hrow := List.all_eq_true.mp hrows e he
            rw [htarget, decide_eq_true rfl, Bool.not_true, Bool.false_or, Bool.and_eq_true,
              List.contains_iff_mem] at hrow
            have hbyte := List.all_eq_true.mp hrow.2 _ (mem_expand (within_of_next hnext))
            rw [decide_eq_true_eq, UInt8.ofNat_toNat] at hbyte
            rw [hbyte, List.map_append, hlabel _ hrow.1 rfl]
            rfl
          have hrest := run_spells h hR (hR q hq c r (hw c List.mem_cons_self) hnext)
            (fun d hd => hw d (List.mem_cons_of_mem _ hd)) hlabel' hrun
          rwa [List.append_assoc] at hrest

omit [DecidableEq A] in
theorem run_of_trace : ∀ {w : List UInt8} {q q' : ℕ} {as : List (List A)},
    t.trace q w = some (as, q') → t.run q w = some q'
  | [], q, q', as, h => by
      obtain ⟨-, rfl⟩ : as = [] ∧ q = q' := by simpa [Table.trace, eq_comm] using h
      rfl
  | c :: w, q, q', as, h => by
      simp only [Table.trace, Table.run] at h ⊢
      cases hnext : t.next false q c with
      | none => simp [hnext] at h
      | some r =>
          simp only [hnext, Option.map_eq_some_iff] at h ⊢
          obtain ⟨⟨as', q₁⟩, h', heq⟩ := h
          obtain ⟨rfl, rfl⟩ := Prod.mk.inj heq
          exact run_of_trace h'

omit [DecidableEq A] in
/-- Where a run gets stuck. -/
theorem exists_of_run_none : ∀ {w : List UInt8} {q : ℕ}, t.run q w = none →
    ∃ u c v q', w = u ++ c :: v ∧ t.run q u = some q' ∧ t.next false q' c = none
  | [], q, h => by simp [Table.run] at h
  | c :: w, q, h => by
      simp only [Table.run] at h
      cases hnext : t.next false q c with
      | none => exact ⟨[], c, w, q, rfl, rfl, hnext⟩
      | some r =>
          simp only [hnext] at h
          obtain ⟨u, d, v, q', rfl, hrun, hstuck⟩ := exists_of_run_none h
          exact ⟨c :: u, d, v, q', rfl, by simpa [Table.run, hnext] using hrun, hstuck⟩

/-- A part of a table in whose states `R` nothing is done. -/
def Table.quiet (t : Table A) (R : List (ℕ × ℕ)) : Bool :=
  t.rows R [(0, 255)] fun _ r => decide (r.acts = []) && within R r.target

omit [DecidableEq A] in
theorem within_byte (c : UInt8) : within [(0, 255)] c.toNat = true := by
  have := c.toNat_lt
  simp [within]
  omega

omit [DecidableEq A] in
/-- A run through such a part, as a trace of the whole table. -/
theorem trace_quiet {u : Table A} {R : List (ℕ × ℕ)} (hR : u.quiet R = true)
    (hsub : ∀ {q : ℕ} {c : UInt8} {r : Row A}, u.next false q c = some r →
      t.next false q c = some r) :
    ∀ {w : List UInt8} {q q' : ℕ}, within R q = true → u.run q w = some q' →
      t.trace q w = some (List.replicate w.length [], q') ∧ within R q' = true
  | [], q, q', hq, hrun => by
      obtain rfl : q = q' := by simpa [Table.run] using hrun
      exact ⟨rfl, hq⟩
  | c :: w, q, q', hq, hrun => by
      simp only [Table.run] at hrun
      cases hnext : u.next false q c with
      | none => simp [hnext] at hrun
      | some r =>
          simp only [hnext] at hrun
          have hr := rows_next hR hq (within_byte c) hnext
          rw [Bool.and_eq_true, decide_eq_true_eq] at hr
          obtain ⟨htrace, hq'⟩ := trace_quiet hR hsub hr.2 hrun
          exact ⟨by simp [Table.trace, hsub hnext, htrace, hr.1, List.replicate_succ], hq'⟩

/-! ## Conditions -/

/-- The rows that are there under a condition. -/
def Table.under (t : Table A) (cond : Bool) : Table A :=
  t.map fun rows => (rows.filter fun r => cond || !r.guarded).map fun r =>
    { r with guarded := false }

omit [DecidableEq A] in
theorem next_under (t : Table A) (cond : Bool) (q : ℕ) (c : UInt8) :
    (t.under cond).next false q c =
      (t.next cond q c).map fun r => { r with guarded := false } := by
  have hget : (t.under cond).getD q [] = ((t.getD q []).filter fun r => cond || !r.guarded).map
      fun r => { r with guarded := false } := by
    simp only [List.getD_eq_getElem?_getD, Table.under, List.getElem?_map]
    cases t[q]? <;> rfl
  rw [Table.next, Table.next, hget, List.find?_map, List.find?_filter]
  congr 2
  funext r
  simp only [Function.comp_apply, Row.fits, Bool.not_false, Bool.or_true, Bool.true_and,
    Bool.decide_and, Bool.decide_eq_true]

omit [DecidableEq A] in
theorem exec_under (t : Table A) (cond : Bool) (breaks : A → Bool)
    (act : ℕ → A → σ → Except ε σ) :
    ∀ (w : List UInt8) (p q : ℕ) (x : σ),
      exec t cond breaks act w p q x = exec (t.under cond) false breaks act w p q x
  | [], p, q, x => rfl
  | c :: w, p, q, x => by
      simp only [exec, next_under]
      cases t.next cond q c with
      | none => rfl
      | some r =>
          simp only [Option.map_some]
          cases runActs act p r.acts x with
          | error e => rfl
          | ok x' => simp only [exec_under t cond breaks act w]

end Ragel

end Lib
