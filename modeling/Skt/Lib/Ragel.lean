import Mathlib

/-!
# Table automata with actions

A scanner generated from a regular grammar is a table of transitions; each
transition carries the actions to run on the byte it consumes. `exec` is the
generated loop: it stops at the end of the input, at a byte without a
transition (state `0`, the byte is not consumed), and behind a byte whose
actions break out of the loop.

The second half of the file is about handing the input over in several
buffers. Each action depends on parts of the input, as far back as the
registers it reads were set; where no end of a buffer falls into such a part,
the run over the buffers stays in step with one run over the whole input.
-/

namespace Lib

namespace Ragel

variable {A σ ε : Type}

/-- The transitions of one state that share their actions and target: `on` is
a list of byte ranges, and a `guarded` row is only there when the condition of
the grammar holds. -/
structure Row (A : Type) where
  on : List (ℕ × ℕ)
  guarded : Bool
  acts : List A
  target : ℕ
  deriving DecidableEq

/-- A row without a condition, and mostly without actions. -/
def row (on : List (ℕ × ℕ)) (target : ℕ) (acts : List A := []) : Row A :=
  ⟨on, false, acts, target⟩

/-- The row that leads from the byte `c` alone to `target`. -/
def one (c target : ℕ) (acts : List A := []) : Row A := row [(c, c)] target acts

/-- The rows of each state, by number; state `0` is the error state. -/
abbrev Table (A : Type) := List (List (Row A))

def Row.fits (cond : Bool) (c : UInt8) (r : Row A) : Bool :=
  (cond || !r.guarded) &&
    r.on.any fun b => decide (b.1 ≤ c.toNat) && decide (c.toNat ≤ b.2)

/-- The row taken in state `cs` on the byte `c`. -/
def Table.next (t : Table A) (cond : Bool) (cs : ℕ) (c : UInt8) :
    Option (Row A) :=
  (t.getD cs []).find? (Row.fits cond c)

/-- The actions of one transition, in order, at position `p`. -/
def runActs (act : ℕ → A → σ → Except ε σ) (p : ℕ) :
    List A → σ → Except ε σ
  | [], s => .ok s
  | a :: as, s =>
      match act p a s with
      | .error e => .error e
      | .ok s' => runActs act p as s'

/-- The loop over the bytes from position `p` on, in state `cs`: where it
stops, in which state, and what the actions left. -/
def exec (t : Table A) (cond : Bool) (breaks : A → Bool)
    (act : ℕ → A → σ → Except ε σ) :
    List UInt8 → ℕ → ℕ → σ → Except ε (ℕ × ℕ × σ)
  | [], p, cs, s => .ok (p, cs, s)
  | c :: rest, p, cs, s =>
      match t.next cond cs c with
      | none => .ok (p, 0, s)
      | some r =>
          match runActs act p r.acts s with
          | .error e => .error e
          | .ok s' =>
              if r.acts.any breaks then .ok (p + 1, r.target, s')
              else exec t cond breaks act rest (p + 1) r.target s'

theorem next_fits {t : Table A} {cond : Bool} {cs : ℕ} {c : UInt8} {r : Row A}
    (h : t.next cond cs c = some r) : r.fits cond c = true :=
  List.find?_some h

/-- Every row of every state passes a check. -/
def Table.checked (t : Table A) (check : ℕ → Row A → Bool) : Bool :=
  (List.range t.length).all fun q => (t.getD q []).all (check q)

theorem checked_next {t : Table A} {check : ℕ → Row A → Bool}
    (hall : t.checked check = true) {cond : Bool} {cs : ℕ} {c : UInt8}
    {r : Row A} (h : t.next cond cs c = some r) : check cs r = true := by
  have hmem : r ∈ t.getD cs [] := List.mem_of_find?_eq_some h
  have hcs : cs < t.length := by
    by_contra hn
    rw [List.getD_eq_default _ _ (by omega)] at hmem
    exact absurd hmem List.not_mem_nil
  have hrows := List.all_eq_true.mp hall cs (List.mem_range.mpr hcs)
  exact List.all_eq_true.mp hrows r hmem

/-- The error state has no way out. -/
theorem exec_error_state {t : Table A} {cond : Bool} {breaks : A → Bool}
    {act : ℕ → A → σ → Except ε σ} (ht : t.getD 0 [] = []) {xs : List UInt8}
    (hne : xs ≠ []) (p : ℕ) (s : σ) :
    exec t cond breaks act xs p 0 s = .ok (p, 0, s) := by
  cases xs with
  | nil => exact absurd rfl hne
  | cons c xs => simp only [exec, Table.next, ht, List.find?_nil]

/-- A run that does not end in the error state consumes a byte. -/
theorem exec_progress {t : Table A} {cond : Bool} {breaks : A → Bool}
    {act : ℕ → A → σ → Except ε σ} :
    ∀ (xs : List UInt8) {p cs p' cs' : ℕ} {s s' : σ},
      exec t cond breaks act xs p cs s = .ok (p', cs', s') →
      p ≤ p' ∧ (xs ≠ [] → cs' = 0 ∨ p < p')
  | [], p, cs, p', cs', s, s', h => by
      simp only [exec, Except.ok.injEq, Prod.mk.injEq] at h
      exact ⟨le_of_eq h.1, fun hne => absurd rfl hne⟩
  | c :: xs, p, cs, p', cs', s, s', h => by
      simp only [exec] at h
      cases hnext : t.next cond cs c with
      | none =>
          simp only [hnext, Except.ok.injEq, Prod.mk.injEq] at h
          exact ⟨le_of_eq h.1, fun _ => Or.inl h.2.1.symm⟩
      | some r =>
          simp only [hnext] at h
          cases hrun : runActs act p r.acts s with
          | error e => simp [hrun] at h
          | ok s₁ =>
              simp only [hrun] at h
              have hlt : p < p' := by
                split_ifs at h
                · simp only [Except.ok.injEq, Prod.mk.injEq] at h
                  exact h.1 ▸ Nat.lt_succ_self p
                · exact (exec_progress xs h).1
              exact ⟨hlt.le, fun _ => Or.inr hlt⟩

/-- Where a run can stop: at the end of the input, in the error state, or in a
state that a breaking transition leads to. -/
theorem exec_stop {t : Table A} {cond : Bool} {breaks : A → Bool}
    {act : ℕ → A → σ → Except ε σ} (final : ℕ → Bool)
    (ht : t.checked (fun _ r => !r.acts.any breaks || final r.target) = true) :
    ∀ (xs : List UInt8) {p cs p' cs' : ℕ} {s s' : σ},
      exec t cond breaks act xs p cs s = .ok (p', cs', s') →
      p' = p + xs.length ∨ cs' = 0 ∨ final cs' = true
  | [], p, cs, p', cs', s, s', h => by
      simp only [exec, Except.ok.injEq, Prod.mk.injEq] at h
      exact Or.inl h.1.symm
  | c :: xs, p, cs, p', cs', s, s', h => by
      simp only [exec] at h
      cases hnext : t.next cond cs c with
      | none =>
          simp only [hnext, Except.ok.injEq, Prod.mk.injEq] at h
          exact Or.inr (Or.inl h.2.1.symm)
      | some r =>
          simp only [hnext] at h
          cases hrun : runActs act p r.acts s with
          | error e => simp [hrun] at h
          | ok s₁ =>
              simp only [hrun] at h
              by_cases hb : r.acts.any breaks = true
              · have hfinal := checked_next ht hnext
                rw [if_pos hb] at h
                simp only [Except.ok.injEq, Prod.mk.injEq] at h
                rw [hb, h.2.1] at hfinal
                exact Or.inr (Or.inr hfinal)
              · rw [if_neg hb] at h
                rcases exec_stop final ht xs h with hp | hcs
                · left
                  rw [hp, List.length_cons]
                  omega
                · exact Or.inr hcs

/-! ## Invariants of a run -/

theorem runActs_invariant {act : ℕ → A → σ → Except ε σ} {I : σ → Prop} {p : ℕ} :
    ∀ (as : List A) {s s' : σ},
      (∀ a ∈ as, ∀ {s s' : σ}, I s → act p a s = .ok s' → I s') → I s →
      runActs act p as s = .ok s' → I s'
  | [], s, s', _, hi, h => by
      obtain rfl : s = s' := by simpa [runActs] using h
      exact hi
  | a :: as, s, s', hact, hi, h => by
      simp only [runActs] at h
      cases ha : act p a s with
      | error e => simp [ha] at h
      | ok s₁ =>
          simp only [ha] at h
          exact runActs_invariant as
            (fun b hb => hact b (List.mem_cons_of_mem _ hb))
            (hact a List.mem_cons_self hi ha) h

/-- A property that every action keeps holds where the run stops. -/
theorem exec_invariant {t : Table A} {cond : Bool} {breaks : A → Bool}
    {act : ℕ → A → σ → Except ε σ} {I : ℕ → σ → Prop} {n : ℕ}
    (hact : ∀ {p : ℕ} {a : A} {s s' : σ}, p < n → I p s →
      act p a s = .ok s' → I p s')
    (hmono : ∀ {p : ℕ} {s : σ}, I p s → I (p + 1) s) :
    ∀ (xs : List UInt8) {p cs p' cs' : ℕ} {s s' : σ}, p + xs.length ≤ n →
      I p s → exec t cond breaks act xs p cs s = .ok (p', cs', s') →
      I p' s' ∧ p' ≤ p + xs.length
  | [], p, cs, p', cs', s, s', _, hi, hex => by
      simp only [exec, Except.ok.injEq, Prod.mk.injEq] at hex
      obtain ⟨rfl, rfl, rfl⟩ := hex
      exact ⟨hi, le_refl _⟩
  | c :: xs, p, cs, p', cs', s, s', hn, hi, hex => by
      rw [List.length_cons] at hn ⊢
      simp only [exec] at hex
      cases hnext : t.next cond cs c with
      | none =>
          simp only [hnext, Except.ok.injEq, Prod.mk.injEq] at hex
          obtain ⟨rfl, rfl, rfl⟩ := hex
          exact ⟨hi, by omega⟩
      | some r =>
          simp only [hnext] at hex
          cases hrun : runActs act p r.acts s with
          | error e => simp [hrun] at hex
          | ok s₁ =>
              simp only [hrun] at hex
              have hi₁ := hmono
                (runActs_invariant r.acts (fun _ _ => hact (by omega)) hi hrun)
              split_ifs at hex
              · simp only [Except.ok.injEq, Prod.mk.injEq] at hex
                obtain ⟨rfl, rfl, rfl⟩ := hex
                exact ⟨hi₁, by omega⟩
              · obtain ⟨hi', hp'⟩ := exec_invariant hact hmono xs (by omega) hi₁ hex
                exact ⟨hi', by omega⟩

/-! ## Facts about the registers -/

/-- What is known after a list of actions. -/
def recordAll {F : Type} (record : A → F → F) : List A → F → F
  | [], f => f
  | a :: as, f => recordAll record as (record a f)

/-- Each action of a list finds what it needs. -/
def admits {F : Type} (record : A → F → F) (needs : A → F → Bool) :
    List A → F → Bool
  | [], _ => true
  | a :: as, f => needs a f && admits record needs as (record a f)

/-! ## Spans of the input -/

section Spans

variable {G : Type} (spanOf : ℕ → A → G → List (ℕ × ℕ)) (note : ℕ → A → G → G)

/-- The notes after the actions of one transition. -/
def noteAll (p : ℕ) : List A → G → G
  | [], g => g
  | a :: as, g => noteAll p as (note p a g)

/-- The parts of the input that the actions of one transition depend on.
`spanOf` reads them off the notes taken so far. -/
def actSpans (p : ℕ) : List A → G → List (ℕ × ℕ)
  | [], _ => []
  | a :: as, g => spanOf p a g ++ actSpans p as (note p a g)

/-- The parts of the input that the actions of a whole run depend on. -/
def spans (t : Table A) (cond : Bool) (breaks : A → Bool) :
    List UInt8 → ℕ → ℕ → G → List (ℕ × ℕ)
  | [], _, _, _ => []
  | c :: rest, p, cs, g =>
      match t.next cond cs c with
      | none => []
      | some r =>
          if r.acts.any breaks then actSpans spanOf note p r.acts g
          else actSpans spanOf note p r.acts g ++
            spans t cond breaks rest (p + 1) r.target (noteAll note p r.acts g)

/-! ## One buffer of several -/

variable {spanOf note} {t : Table A} {cond : Bool} {breaks : A → Bool}
  {whole part : ℕ → A → σ → Except ε σ}

/-- Actions that each keep the two runs in step do so one after the other.
`record` says how an action changes what is known about the registers, and
`needs` what an action requires. -/
theorem runActs_resume {F : Type} (record : A → F → F) (needs : A → F → Bool)
    (InSync : F → G → σ → σ → Prop) (Clear : ℕ × ℕ → Prop) {o p : ℕ}
    (hact : ∀ {a : A} {f : F} {g : G} {S s S' : σ}, needs a f = true →
      (∀ sp ∈ spanOf (o + p) a g, Clear sp) → InSync f g S s →
      whole (o + p) a S = .ok S' →
      ∃ s', part p a s = .ok s' ∧
        InSync (record a f) (note (o + p) a g) S' s') :
    ∀ (as : List A) {f : F} {g : G} {S s S' : σ},
      admits record needs as f = true → InSync f g S s →
      (∀ sp ∈ actSpans spanOf note (o + p) as g, Clear sp) →
      runActs whole (o + p) as S = .ok S' →
      ∃ s', runActs part p as s = .ok s' ∧
        InSync (recordAll record as f) (noteAll note (o + p) as g) S' s'
  | [], f, g, S, s, S', _, hsync, _, hrun => by
      obtain rfl : S = S' := by simpa [runActs] using hrun
      exact ⟨s, rfl, hsync⟩
  | a :: as, f, g, S, s, S', hadm, hsync, hclear, hrun => by
      simp only [admits, Bool.and_eq_true] at hadm
      simp only [runActs, actSpans, List.mem_append] at hrun hclear ⊢
      cases ha : whole (o + p) a S with
      | error e => simp [ha] at hrun
      | ok S₁ =>
          simp only [ha] at hrun
          obtain ⟨s₁, hpart, hsync₁⟩ := hact hadm.1
            (fun sp h => hclear sp (Or.inl h)) hsync ha
          simp only [hpart]
          exact runActs_resume record needs InSync Clear hact as hadm.2 hsync₁
            (fun sp h => hclear sp (Or.inr h)) hrun

/-- **Resuming in a new buffer.** `whole` runs the actions against the whole
input and `part` against a buffer that starts at position `o` of it. If every
transition keeps the two in step as long as the parts of the input it depends
on are `Clear`, then the run over the buffer `xs` consumes it, and the run over
the whole input goes on behind it from a state in step with the one the buffer
left. `Inv` holds until an action breaks. -/
theorem exec_resume (Inv : ℕ → ℕ → σ → σ → Prop) (Sync : ℕ → G → σ → σ → Prop)
    (Clear : ℕ × ℕ → Prop) {o : ℕ} {piece : List UInt8}
    (hrow : ∀ {cs p : ℕ} {c : UInt8} {r : Row A} {g : G} {S s S' : σ},
      piece[p]? = some c → t.next cond cs c = some r → Inv cs p S s →
      Sync p g S s → (∀ sp ∈ actSpans spanOf note (o + p) r.acts g, Clear sp) →
      runActs whole (o + p) r.acts S = .ok S' →
      ∃ s', runActs part p r.acts s = .ok s' ∧
        Sync (p + 1) (noteAll note (o + p) r.acts g) S' s' ∧
        (r.acts.any breaks = false → Inv r.target (p + 1) S' s')) :
    ∀ (xs rest : List UInt8) {p cs cs' : ℕ} {g : G} {S s S' : σ},
      (∀ i, xs[i]? = piece[p + i]?) → Inv cs p S s → Sync p g S s →
      (∀ sp ∈ spans spanOf note t cond breaks (xs ++ rest) (o + p) cs g,
        Clear sp) →
      exec t cond breaks whole (xs ++ rest) (o + p) cs S =
        .ok (o + p + (xs ++ rest).length, cs', S') →
      ∃ cs₁ g₁ S₁ s₁,
        exec t cond breaks part xs p cs s = .ok (p + xs.length, cs₁, s₁) ∧
        (rest ≠ [] → Inv cs₁ (p + xs.length) S₁ s₁) ∧
        Sync (p + xs.length) g₁ S₁ s₁ ∧
        exec t cond breaks whole rest (o + p + xs.length) cs₁ S₁ =
          .ok (o + p + xs.length + rest.length, cs', S') ∧
        ∀ sp ∈ spans spanOf note t cond breaks rest (o + p + xs.length) cs₁ g₁,
          sp ∈ spans spanOf note t cond breaks (xs ++ rest) (o + p) cs g
  | [], rest, p, cs, cs', g, S, s, S', _, hinv, hsync, _, hex => by
      refine ⟨cs, g, S, s, rfl, fun _ => hinv, hsync, ?_, fun sp h => h⟩
      simpa using hex
  | c :: xs, rest, p, cs, cs', g, S, s, S', hbuf, hinv, hsync, hclear, hex => by
      have hc : piece[p]? = some c := by simpa using (hbuf 0).symm
      have hbuf' : ∀ i, xs[i]? = piece[p + 1 + i]? := by
        intro i
        have := hbuf (i + 1)
        rw [List.getElem?_cons_succ] at this
        rw [this]
        congr 1
        omega
      simp only [List.cons_append, exec, spans, List.length_cons,
        List.length_append] at hex hclear ⊢
      cases hnext : t.next cond cs c with
      | none =>
          rw [hnext] at hex
          simp only [Except.ok.injEq, Prod.mk.injEq] at hex
          omega
      | some r =>
          simp only [hnext] at hex hclear ⊢
          cases hacts : runActs whole (o + p) r.acts S with
          | error e => simp [hacts] at hex
          | ok S₂ =>
              simp only [hacts] at hex
              have hclear₁ : ∀ sp ∈ actSpans spanOf note (o + p) r.acts g,
                  Clear sp := by
                intro sp h
                apply hclear
                split_ifs
                · exact h
                · exact List.mem_append_left _ h
              obtain ⟨s₂, hpart, hsync', hinv'⟩ :=
                hrow hc hnext hinv hsync hclear₁ hacts
              simp only [hpart]
              by_cases hb : r.acts.any breaks = true
              · -- A break in front of the end would leave bytes unread.
                simp only [hb, if_true, Except.ok.injEq, Prod.mk.injEq] at hex ⊢
                obtain ⟨hp, rfl, rfl⟩ := hex
                obtain rfl : xs = [] := List.length_eq_zero_iff.mp (by omega)
                obtain rfl : rest = [] := List.length_eq_zero_iff.mp (by omega)
                refine ⟨r.target, _, S₂, s₂, by simp, by simp, hsync', ?_, ?_⟩
                · simp [exec]
                · simp [spans]
              · simp only [hb, if_false, Bool.false_eq_true] at hex hclear ⊢
                obtain ⟨cs₁, g₁, S₁, s₁, hrun, hinv₁, hsync₁, hrest, hsub⟩ :=
                  exec_resume Inv Sync Clear hrow xs rest hbuf'
                    (hinv' (by simpa using hb)) hsync'
                    (fun sp h => hclear sp (List.mem_append_right _ h))
                    (by rw [Nat.add_assoc o p 1] at hex
                        rw [hex]
                        simp only [List.length_append]
                        congr 2
                        omega)
                have hpos : o + (p + 1) + xs.length = o + p + (xs.length + 1) := by
                  omega
                have hpos' : p + 1 + xs.length = p + (xs.length + 1) := by omega
                rw [hpos] at hrest hsub
                rw [hpos'] at hrun hinv₁ hsync₁
                refine ⟨cs₁, g₁, S₁, s₁, hrun, hinv₁, hsync₁, hrest, ?_⟩
                intro sp h
                exact List.mem_append_right _ (hsub sp h)

end Spans

end Ragel

end Lib
