import Skt.Lib.Ragel

/-!
# Two runs of a table automaton

Two runs over the same input, from contents that are alike in what is known to have been
written, one with the condition of the grammar and one without. They stay alike up to a byte
for which only the guarded rows have a transition: there the one run stops and the other one
goes on.
-/

namespace Lib

namespace Ragel

variable {A F σ ε : Type}

/-- The same exception, or results in a relation. -/
def Agree {α β : Type} (R : α → β → Prop) : Except ε α → Except ε β → Prop
  | .ok x, .ok y => R x y
  | .error e, .error e' => e = e'
  | _, _ => False

theorem Agree.cases {α β : Type} {R : α → β → Prop} {x : Except ε α} {y : Except ε β}
    (h : Agree R x y) :
    (∃ e, x = .error e ∧ y = .error e) ∨ ∃ a b, x = .ok a ∧ y = .ok b ∧ R a b := by
  cases x with
  | error e =>
      cases y with
      | error e' =>
          obtain rfl : e = e' := h
          exact Or.inl ⟨e, rfl, rfl⟩
      | ok b => exact h.elim
  | ok a =>
      cases y with
      | error e' => exact h.elim
      | ok b => exact Or.inr ⟨a, b, rfl, rfl, h⟩

/-! ## Guarded rows -/

/-- In every state the guarded rows come last. -/
def Table.GuardedLast (t : Table A) : Prop :=
  ∀ rows ∈ t, rows.Pairwise fun r r' => r.guarded = true → r'.guarded = true

instance (t : Table A) : Decidable t.GuardedLast :=
  inferInstanceAs (Decidable (∀ rows ∈ t, _))

theorem find?_of_unguarded {c : UInt8} {r : Row A} : ∀ {rows : List (Row A)},
    rows.Pairwise (fun r r' => r.guarded = true → r'.guarded = true) →
      rows.find? (Row.fits false c) = some r → rows.find? (Row.fits true c) = some r
  | [], _, h => by cases h
  | r' :: rows, hlast, h => by
      rw [List.pairwise_cons] at hlast
      rw [List.find?_cons] at h ⊢
      cases hguard : r'.guarded with
      | true =>
          -- Only guarded rows follow, and none of them is there.
          have hnone : ∀ x ∈ r' :: rows, Row.fits false c x = false := by
            intro x hx
            have hx' : x.guarded = true := by
              rcases List.mem_cons.mp hx with rfl | hx
              · exact hguard
              · exact hlast.1 x hx hguard
            simp [Row.fits, hx']
          rw [hnone r' List.mem_cons_self] at h
          have hmem := List.mem_of_find?_eq_some h
          have hfits := List.find?_some h
          rw [hnone r (List.mem_cons_of_mem _ hmem)] at hfits
          cases hfits
      | false =>
          have hsame : Row.fits true c r' = Row.fits false c r' := by
            simp [Row.fits, hguard]
          rw [hsame]
          cases hfits : Row.fits false c r' with
          | true =>
              rw [hfits] at h
              exact h
          | false =>
              rw [hfits] at h
              exact find?_of_unguarded hlast.2 h

/-- A transition that is there without the condition is there with it. -/
theorem next_of_unguarded {t : Table A} (hlast : t.GuardedLast) {cs : ℕ} {c : UInt8} {r : Row A}
    (h : t.next false cs c = some r) : t.next true cs c = some r := by
  refine find?_of_unguarded ?_ h
  have hmem : r ∈ t.getD cs [] := List.mem_of_find?_eq_some h
  have hcs : cs < t.length := by
    by_contra hn
    rw [List.getD_eq_default _ _ (Nat.not_lt.mp hn)] at hmem
    exact absurd hmem List.not_mem_nil
  rw [List.getD_eq_getElem _ _ hcs]
  exact hlast _ (List.getElem_mem hcs)

/-- Without the condition, the run from state `cs` comes to a byte that only a guarded row
takes. -/
def Table.meets (t : Table A) (breaks : A → Bool) : List UInt8 → ℕ → Bool
  | [], _ => false
  | c :: rest, cs =>
      match t.next false cs c with
      | none => (t.next true cs c).isSome
      | some r => !r.acts.any breaks && t.meets breaks rest r.target

/-! ## Actions and runs -/

section Runs

variable (record : A → F → F) (needs : A → F → Bool) (known : ℕ → F) (R : F → σ → σ → Prop)

/-- What is known in a state, `known`, is enough for the actions of each of its rows, and what
these leave known is what the next state counts on. `R f` relates contents that are alike in
what is known by `f`; in the error state nothing is asked. -/
structure Tracks (t : Table A) (act : ℕ → A → σ → Except ε σ) : Prop where
  row : ∀ {cond : Bool} {cs : ℕ} {c : UInt8} {r : Row A}, t.next cond cs c = some r →
    admits record needs r.acts (known cs) = true ∧
      ∀ {s s' : σ}, R (recordAll record r.acts (known cs)) s s' → R (known r.target) s s'
  forget : ∀ {f : F} {s s' : σ}, R f s s' → R (known 0) s s'
  act : ∀ {p : ℕ} {a : A} {f : F} {s s' : σ}, needs a f = true → R f s s' →
    Agree (R (record a f)) (act p a s) (act p a s')

variable {record needs known R} {t : Table A} {act : ℕ → A → σ → Except ε σ}
  {breaks : A → Bool}

theorem Tracks.runActs (h : Tracks record needs known R t act) {p : ℕ} :
    ∀ (as : List A) {f : F} {s s' : σ}, admits record needs as f = true → R f s s' →
      Agree (R (recordAll record as f)) (runActs act p as s) (runActs act p as s')
  | [], _, _, _, _, hR => hR
  | a :: as, f, s, s', hadm, hR => by
      simp only [admits, Bool.and_eq_true] at hadm
      simp only [Ragel.runActs]
      rcases (h.act (p := p) hadm.1 hR).cases with ⟨e, hs, hs'⟩ | ⟨s₁, s₁', hs, hs', hR'⟩
      · rw [hs, hs']
        exact rfl
      · rw [hs, hs']
        exact h.runActs as hadm.2 hR'

/-- The outcomes of two runs: the same position and state, and related contents. -/
def Alike (known : ℕ → F) (R : F → σ → σ → Prop) (x y : ℕ × ℕ × σ) : Prop :=
  x.1 = y.1 ∧ x.2.1 = y.2.1 ∧ R (known x.2.1) x.2.2 y.2.2

/-- As long as no guarded row is needed, the condition makes no difference. -/
theorem Tracks.exec_alike (h : Tracks record needs known R t act) (hlast : t.GuardedLast)
    (cond : Bool) : ∀ (xs : List UInt8) {p cs : ℕ} {s s' : σ},
      (cond = true → t.meets breaks xs cs = false) → R (known cs) s s' →
      Agree (Alike known R) (exec t false breaks act xs p cs s) (exec t cond breaks act xs p cs s')
  | [], _, _, _, _, _, hR => ⟨rfl, rfl, hR⟩
  | c :: xs, p, cs, s, s', hmeets, hR => by
      simp only [Table.meets] at hmeets
      simp only [exec]
      cases hnext : t.next false cs c with
      | none =>
          rw [hnext] at hmeets
          have hnone : t.next cond cs c = none := by
            cases cond with
            | false => exact hnext
            | true => simpa using hmeets rfl
          rw [hnone]
          exact ⟨rfl, rfl, h.forget hR⟩
      | some r =>
          rw [hnext] at hmeets
          have hsome : t.next cond cs c = some r := by
            cases cond with
            | false => exact hnext
            | true => exact next_of_unguarded hlast hnext
          rw [hsome]
          obtain ⟨hadm, hleft⟩ := h.row hnext
          dsimp only
          rcases (h.runActs (p := p) r.acts hadm hR).cases with
            ⟨e, hs, hs'⟩ | ⟨s₁, s₁', hs, hs', hR'⟩
          · rw [hs, hs']
            exact rfl
          rw [hs, hs']
          dsimp only
          by_cases hb : r.acts.any breaks = true
          · rw [if_pos hb, if_pos hb]
            exact ⟨rfl, rfl, hleft hR'⟩
          · rw [if_neg hb, if_neg hb]
            have hrest : cond = true → t.meets breaks xs r.target = false := by
              simpa [hb] using hmeets
            exact h.exec_alike hlast cond xs hrest (hleft hR')

/-- Where a guarded row is needed, the run with the condition goes further; an exception comes
before that. -/
theorem Tracks.exec_meets (h : Tracks record needs known R t act) (hlast : t.GuardedLast) :
    ∀ (xs : List UInt8) {p cs : ℕ} {s s' : σ}, t.meets breaks xs cs = true → R (known cs) s s' →
      (∀ e, exec t false breaks act xs p cs s = .error e →
        exec t true breaks act xs p cs s' = .error e) ∧
      (∀ x y, exec t false breaks act xs p cs s = .ok x →
        exec t true breaks act xs p cs s' = .ok y → x.1 < y.1)
  | [], _, _, _, _, hmeets, _ => by cases hmeets
  | c :: xs, p, cs, s, s', hmeets, hR => by
      simp only [Table.meets] at hmeets
      simp only [exec]
      cases hnext : t.next false cs c with
      | none =>
          rw [hnext] at hmeets
          obtain ⟨r, hsome⟩ := Option.isSome_iff_exists.mp hmeets
          rw [hsome]
          refine ⟨fun e he => (by cases he), fun x y hx hy => ?_⟩
          obtain rfl := Except.ok.inj hx
          dsimp only at hy ⊢
          cases hs' : Ragel.runActs act p r.acts s' with
          | error e' =>
              rw [hs'] at hy
              cases hy
          | ok s₁' =>
              rw [hs'] at hy
              dsimp only at hy
              split at hy
              · obtain rfl := Except.ok.inj hy
                exact Nat.lt_succ_self p
              · exact (exec_progress xs hy).1
      | some r =>
          rw [hnext, Bool.and_eq_true] at hmeets
          have hb : ¬r.acts.any breaks = true := by simpa using hmeets.1
          rw [next_of_unguarded hlast hnext]
          obtain ⟨hadm, hleft⟩ := h.row hnext
          dsimp only
          rcases (h.runActs (p := p) r.acts hadm hR).cases with
            ⟨e, hs, hs'⟩ | ⟨s₁, s₁', hs, hs', hR'⟩
          · rw [hs, hs']
            exact ⟨fun _ he => he, fun x y hx => (by cases hx)⟩
          · rw [hs, hs']
            dsimp only
            rw [if_neg hb, if_neg hb]
            exact h.exec_meets hlast xs hmeets.2 (hleft hR')

end Runs

end Ragel

end Lib
