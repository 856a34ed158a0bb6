import Skt.Lib.Recognize

/-!
# A run taken apart

The loop of a table automaton over a buffer, from a position on. One transition
moves it by a byte; over a stretch of bytes that no state of a region leaves or
acts on, it moves to the end of the stretch with what the actions left as it
was. Which regions are such is read off the table.
-/

namespace Lib

/-- Two lists of ranges have a byte in common. -/
def meets (on on' : List (ℕ × ℕ)) : Bool :=
  on.any fun b => on'.any fun b' => decide (b.1 ≤ b'.2) && decide (b'.1 ≤ b.2)

theorem meets_of_within {on on' : List (ℕ × ℕ)} {c : ℕ} (h : within on c = true)
    (h' : within on' c = true) : meets on on' = true := by
  simp only [within, meets, List.any_eq_true, Bool.and_eq_true, decide_eq_true_eq] at *
  obtain ⟨b, hb, hlo, hhi⟩ := h
  obtain ⟨b', hb', hlo', hhi'⟩ := h'
  exact ⟨b, hb, b', hb', hlo.trans hhi', hlo'.trans hhi⟩

@[simp] theorem within_nil (c : ℕ) : within [] c = false := rfl

theorem within_cons {b : ℕ × ℕ} {on : List (ℕ × ℕ)} {c : ℕ} :
    within (b :: on) c = true ↔ (b.1 ≤ c ∧ c ≤ b.2) ∨ within on c = true := by
  simp [within]

namespace Ragel

variable {A σ ε : Type} {t : Table A} {cond : Bool} {breaks : A → Bool}
  {act : ℕ → A → σ → Except ε σ} {s : List UInt8}

theorem within_of_next {q : ℕ} {c : UInt8} {r : Row A} (h : t.next cond q c = some r) :
    within r.on c.toNat = true := by
  have hfits := next_fits h
  rw [Row.fits, Bool.and_eq_true] at hfits
  exact hfits.2

theorem lt_length_of_next {q : ℕ} {c : UInt8} {r : Row A} (h : t.next cond q c = some r) :
    q < t.length := by
  by_contra hq
  have hmem : r ∈ t.getD q [] := List.mem_of_find?_eq_some h
  rw [List.getD_eq_default _ _ (by omega)] at hmem
  exact absurd hmem List.not_mem_nil

/-- Every row of the states `R` that meets the bytes `on` passes a check. -/
def Table.rows (t : Table A) (R on : List (ℕ × ℕ)) (check : ℕ → Row A → Bool) : Bool :=
  t.zipIdx.all fun e => !within R e.2 || e.1.all fun r => !meets r.on on || check e.2 r

theorem rows_next {R on : List (ℕ × ℕ)} {check : ℕ → Row A → Bool}
    (hall : t.rows R on check = true) {q : ℕ} {c : UInt8} {r : Row A}
    (hq : within R q = true) (hc : within on c.toNat = true)
    (h : t.next cond q c = some r) : check q r = true := by
  have hmem : r ∈ t.getD q [] := List.mem_of_find?_eq_some h
  cases hget : t[q]? with
  | none =>
      rw [List.getD_eq_getElem?_getD, hget] at hmem
      exact absurd hmem List.not_mem_nil
  | some rows =>
      rw [List.getD_eq_getElem?_getD, hget] at hmem
      have hrows := List.all_eq_true.mp hall (rows, q)
        (List.mk_mem_zipIdx_iff_getElem?.mpr hget)
      simp only [hq, Bool.not_true, Bool.false_or] at hrows
      have hr := List.all_eq_true.mp hrows r hmem
      rw [meets_of_within (within_of_next h) hc] at hr
      simpa using hr

/-- The region `R` is not left on bytes of `on`, and no action is run. -/
def Table.stays [DecidableEq A] (t : Table A) (R on : List (ℕ × ℕ)) : Bool :=
  t.rows R on fun _ r => decide (r.acts = []) && within R r.target

theorem runActs_append (act : ℕ → A → σ → Except ε σ) (p : ℕ) :
    ∀ (as bs : List A) (x : σ), runActs act p (as ++ bs) x =
      (runActs act p as x).bind (runActs act p bs)
  | [], bs, x => rfl
  | a :: as, bs, x => by
      simp only [List.cons_append, runActs]
      cases act p a x with
      | error e => rfl
      | ok x' => exact runActs_append act p as bs x'

/-! ## The loop from a position on -/

/-- The loop over what is left of the buffer `s` at position `p`. -/
def execFrom (t : Table A) (cond : Bool) (breaks : A → Bool)
    (act : ℕ → A → σ → Except ε σ) (s : List UInt8) (p q : ℕ) (x : σ) :
    Except ε (ℕ × ℕ × σ) :=
  exec t cond breaks act (s.drop p) p q x

theorem drop_add {p : ℕ} {w rest : List UInt8} (h : s.drop p = w ++ rest) :
    s.drop (p + w.length) = rest := by
  rw [← List.drop_drop, h, List.drop_left]

theorem drop_succ {p : ℕ} {c : UInt8} {rest : List UInt8} (h : s.drop p = c :: rest) :
    s.drop (p + 1) = rest :=
  drop_add (w := [c]) h

theorem execFrom_step {p q : ℕ} {c : UInt8} {rest : List UInt8} {r : Row A} {x x' : σ}
    (hs : s.drop p = c :: rest) (hnext : t.next cond q c = some r)
    (hacts : runActs act p r.acts x = .ok x') (hbreak : r.acts.any breaks = false) :
    execFrom t cond breaks act s p q x =
      execFrom t cond breaks act s (p + 1) r.target x' := by
  unfold execFrom
  rw [hs, drop_succ hs]
  simp [exec, hnext, hacts, hbreak]

/-- A stretch of bytes on which a region stays. -/
theorem execFrom_stays [DecidableEq A] {R on : List (ℕ × ℕ)} (hstays : t.stays R on = true) :
    ∀ (w : List UInt8) {p q q' : ℕ} {rest : List UInt8} (x : σ),
      s.drop p = w ++ rest → within R q = true → (∀ c ∈ w, within on c.toNat = true) →
      t.run q w = some q' →
      execFrom t false breaks act s p q x =
          execFrom t false breaks act s (p + w.length) q' x ∧ within R q' = true
  | [], p, q, q', rest, x, _, hq, _, hrun => by
      obtain rfl : q = q' := by simpa [Table.run] using hrun
      exact ⟨rfl, hq⟩
  | c :: w, p, q, q', rest, x, hs, hq, hw, hrun => by
      simp only [Table.run] at hrun
      cases hnext : t.next false q c with
      | none => simp [hnext] at hrun
      | some r =>
          simp only [hnext] at hrun
          have hr := rows_next hstays hq (hw c List.mem_cons_self) hnext
          rw [Bool.and_eq_true, decide_eq_true_eq] at hr
          obtain ⟨hacts, htarget⟩ := hr
          have hstep : execFrom t false breaks act s p q x =
              execFrom t false breaks act s (p + 1) r.target x :=
            execFrom_step hs hnext (by rw [hacts]; rfl) (by rw [hacts]; rfl)
          obtain ⟨hrest, hq'⟩ := execFrom_stays hstays w x (drop_succ hs) htarget
            (fun d hd => hw d (List.mem_cons_of_mem _ hd)) hrun
          refine ⟨?_, hq'⟩
          rw [hstep, hrest, List.length_cons, Nat.add_right_comm, Nat.add_assoc]

/-! ## Runs from one state -/

/-- A property of the bytes read and the state, kept by every transition. -/
theorem run_invariant {J : List UInt8 → ℕ → Prop}
    (hstep : ∀ {u : List UInt8} {q : ℕ} {c : UInt8} {r : Row A}, J u q →
      t.next false q c = some r → J (u ++ [c]) r.target) :
    ∀ (w : List UInt8) {u : List UInt8} {q q' : ℕ}, J u q → t.run q w = some q' →
      J (u ++ w) q'
  | [], u, q, q', hJ, hrun => by
      obtain rfl : q = q' := by simpa [Table.run] using hrun
      simpa using hJ
  | c :: w, u, q, q', hJ, hrun => by
      simp only [Table.run] at hrun
      cases hnext : t.next false q c with
      | none => simp [hnext] at hrun
      | some r =>
          simp only [hnext] at hrun
          simpa using run_invariant hstep w (hstep hJ hnext) hrun

theorem run_closed {R : List (ℕ × ℕ)}
    (hR : t.rows R [(0, 255)] (fun _ r => within R r.target) = true) {w : List UInt8}
    {q q' : ℕ} (hq : within R q = true) (hrun : t.run q w = some q') :
    within R q' = true := by
  refine run_invariant (J := fun _ q => within R q = true) ?_ w (u := []) hq hrun
  intro u q c r hq hnext
  refine rows_next hR hq ?_ hnext
  have := c.toNat_lt
  simp [within]
  omega

/-- Where a run without breaks ends: in the error state, or behind the input
with an invariant of the transitions. -/
theorem exec_ok_at {I : ℕ → ℕ → σ → Prop}
    (hstep : ∀ {q p : ℕ} {x x' : σ} {c : UInt8} {r : Row A}, I q p x →
      t.next false q c = some r → runActs act p r.acts x = .ok x' → I r.target (p + 1) x') :
    ∀ (w : List UInt8) {p q p' q' : ℕ} {x x' : σ}, I q p x →
      exec t false (fun _ => false) act w p q x = .ok (p', q', x') →
      q' = 0 ∨ (t.run q w = some q' ∧ p' = p + w.length ∧ I q' p' x')
  | [], p, q, p', q', x, x', hI, h => by
      simp only [exec, Except.ok.injEq, Prod.mk.injEq] at h
      obtain ⟨rfl, rfl, rfl⟩ := h
      exact Or.inr ⟨rfl, rfl, hI⟩
  | c :: w, p, q, p', q', x, x', hI, h => by
      simp only [exec] at h
      cases hnext : t.next false q c with
      | none =>
          simp only [hnext, Except.ok.injEq, Prod.mk.injEq] at h
          exact Or.inl h.2.1.symm
      | some r =>
          simp only [hnext] at h
          cases hacts : runActs act p r.acts x with
          | error e => simp [hacts] at h
          | ok x₁ =>
              have hany : r.acts.any (fun _ => false) = false :=
                List.any_eq_false.mpr fun _ _ => by simp
              simp only [hacts, hany, Bool.false_eq_true, if_false] at h
              rcases exec_ok_at hstep w (hstep hI hnext hacts) h with h | ⟨hrun, hp, hI'⟩
              · exact Or.inl h
              · right
                refine ⟨by simpa [Table.run, hnext] using hrun, ?_, hI'⟩
                rw [hp, List.length_cons]
                omega

/-- Where a run fails, with such an invariant. -/
theorem exec_error_at {I : ℕ → ℕ → σ → Prop}
    (hstep : ∀ {q p : ℕ} {x x' : σ} {c : UInt8} {r : Row A}, I q p x →
      t.next false q c = some r → runActs act p r.acts x = .ok x' → I r.target (p + 1) x') :
    ∀ (w : List UInt8) {p q : ℕ} {x : σ} {e : ε}, I q p x →
      exec t false (fun _ => false) act w p q x = .error e →
      ∃ u c v q' x' r, w = u ++ c :: v ∧ t.run q u = some q' ∧ I q' (p + u.length) x' ∧
        t.next false q' c = some r ∧ runActs act (p + u.length) r.acts x' = .error e
  | [], p, q, x, e, hI, h => by simp [exec] at h
  | c :: w, p, q, x, e, hI, h => by
      simp only [exec] at h
      cases hnext : t.next false q c with
      | none => simp [hnext] at h
      | some r =>
          simp only [hnext] at h
          cases hacts : runActs act p r.acts x with
          | error e' =>
              simp only [hacts, Except.error.injEq] at h
              subst h
              exact ⟨[], c, w, q, x, r, rfl, rfl, hI, hnext, hacts⟩
          | ok x₁ =>
              have hany : r.acts.any (fun _ => false) = false :=
                List.any_eq_false.mpr fun _ _ => by simp
              simp only [hacts, hany, Bool.false_eq_true, if_false] at h
              obtain ⟨u, d, v, q', x', r', rfl, hrun, hI', hnext', hfail⟩ :=
                exec_error_at hstep w (hstep hI hnext hacts) h
              have hlen : p + (c :: u).length = p + 1 + u.length := by
                rw [List.length_cons]
                omega
              refine ⟨c :: u, d, v, q', x', r', rfl, ?_, ?_, hnext', ?_⟩
              · simpa [Table.run, hnext] using hrun
              · rw [hlen]
                exact hI'
              · rw [hlen]
                exact hfail

end Ragel

end Lib
