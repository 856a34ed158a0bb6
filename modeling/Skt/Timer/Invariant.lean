import Skt.Timer.Model

/-!
# `m_timers` stays ordered

A timer's `m_next` is what the set is ordered by, and it changes. Every operation
takes the timer out before it changes `m_next` and puts it back afterwards, so the set
is ordered by the current values whenever it is looked at; and it holds the timers
that have a callback.
-/

namespace Skt

open Lib

namespace Timer

theorem before_iff {next : ℕ → ℕ} {p q : ℕ} :
    Before next p q ↔ next p < next q ∨ next p = next q ∧ p < q := by
  simp only [Before, comparator]
  split_ifs with h₁ h₂
  · exact iff_of_true rfl (Or.inl h₁)
  · exact iff_of_false not_false (by omega)
  · rw [decide_eq_true_iff]
    omega

instance (next : ℕ → ℕ) : IsStrictTotalOrder ℕ (Before next) where
  irrefl p := by
    rw [before_iff]
    omega
  trans p q r := by
    simp only [before_iff]
    omega
  trichotomous p q := by
    simp only [before_iff]
    omega

/-- The order does not depend on timers that are not in the set. -/
theorem ordered_congr {next next' : ℕ → ℕ} {l : List ℕ}
    (h : l.Pairwise (Before next)) (heq : ∀ p ∈ l, next' p = next p) :
    l.Pairwise (Before next') := by
  apply h.imp_of_mem
  intro p q hp hq hpq
  rw [before_iff] at hpq ⊢
  rw [heq p hp, heq q hq]
  exact hpq

end Timer

namespace TimerManager

open Timer

theorem next_setTimer_of_ne {m : TimerManager} {p q : ℕ} {t : Timer} (h : q ≠ p) :
    (m.setTimer p t).next q = m.next q := by
  simp only [next, setTimer, Function.update_of_ne h]

theorem next_setTimer_self {m : TimerManager} {p : ℕ} {t : Timer} :
    (m.setTimer p t).next p = t.next := by
  simp only [next, setTimer, Function.update_self]

/-- The timer exists and has a callback. -/
def Live (m : TimerManager) (p : ℕ) : Prop := ∃ t, m.heap p = some t ∧ t.cb.isSome = true

/-- The set is ordered by the current values, and holds just the timers of `P`. -/
structure Holds (m : TimerManager) (P : ℕ → Prop) : Prop where
  ordered : m.timers.Pairwise (Before m.next)
  mem : ∀ p, p ∈ m.timers ↔ P p

namespace Holds

variable {m : TimerManager} {P Q : ℕ → Prop} {p : ℕ}

theorem congr (h : m.Holds P) (hPQ : ∀ p, P p ↔ Q p) : m.Holds Q :=
  ⟨h.ordered, fun p => (h.mem p).trans (hPQ p)⟩

theorem find (h : m.Holds P) (hp : P p) : m.find p = some p :=
  OrderedSet.find_of_mem h.ordered ((h.mem p).mpr hp)

theorem erase (h : m.Holds P) (hp : P p) : (m.erase p).Holds fun q => P q ∧ q ≠ p := by
  have hmem := (h.mem p).mpr hp
  refine ⟨h.ordered.sublist (OrderedSet.erase_sublist h.ordered hmem), ?_⟩
  intro q
  rw [← h.mem q]
  exact OrderedSet.mem_erase h.ordered hmem

theorem insert (h : m.Holds P) : (m.insert p).Holds fun q => q = p ∨ P q := by
  refine ⟨OrderedSet.insert_ordered h.ordered, ?_⟩
  intro q
  rw [← h.mem q]
  exact OrderedSet.mem_insert

/-- A timer outside the set changes. -/
theorem setTimer (h : m.Holds P) (t : Timer) (hp : ¬P p) : (m.setTimer p t).Holds P := by
  refine ⟨ordered_congr h.ordered ?_, h.mem⟩
  intro q hq
  apply next_setTimer_of_ne
  rintro rfl
  exact hp ((h.mem q).mp hq)

/-- A timer changes, but not its `m_next`. -/
theorem setCb {t t' : Timer} (h : m.Holds P) (ht : m.heap p = some t)
    (hnext : t'.next = t.next) : (m.setTimer p t').Holds P := by
  refine ⟨ordered_congr h.ordered ?_, h.mem⟩
  intro q _
  by_cases hq : q = p
  · subst hq
    rw [next_setTimer_self, hnext, next, ht]
  · exact next_setTimer_of_ne hq

theorem addTimer (h : m.Holds P) : (m.addTimer p).1.Holds fun q => q = p ∨ P q :=
  ⟨h.insert.ordered, h.insert.mem⟩

end Holds

/-- The set also holds every timer that has a callback, and no timer that is gone. -/
structure Sound (m : TimerManager) (P : ℕ → Prop) : Prop extends m.Holds P where
  live : ∀ p, m.Live p → P p
  heap : ∀ p, P p → m.heap p ≠ none

theorem live_setTimer {m : TimerManager} {p : ℕ} {t : Timer} {q : ℕ} :
    (m.setTimer p t).Live q ↔ (q = p ∧ t.cb.isSome = true) ∨ (q ≠ p ∧ m.Live q) := by
  by_cases hq : q = p
  · subst hq
    simp [Live, TimerManager.setTimer]
  · simp [Live, TimerManager.setTimer, hq]

theorem heap_setTimer {m : TimerManager} {p : ℕ} {t : Timer} {q : ℕ} :
    (m.setTimer p t).heap q ≠ none ↔ q = p ∨ m.heap q ≠ none := by
  by_cases hq : q = p
  · subst hq
    simp [TimerManager.setTimer]
  · simp [TimerManager.setTimer, hq]

theorem not_live_of_free {m : TimerManager} {p : ℕ} (h : m.heap p = none) : ¬m.Live p := by
  rintro ⟨t, ht, -⟩
  rw [h] at ht
  cases ht

/-- What an operation does to a sound set. If there is a timer without a callback in
the set afterwards, it was there before. -/
structure Kept (m : TimerManager) (P : ℕ → Prop) (m' : TimerManager) (P' : ℕ → Prop) :
    Prop where
  sound : m'.Sound P'
  dead : ∀ p, P' p → ¬m'.Live p → P p ∧ ¬m.Live p

theorem Kept.refl {m : TimerManager} {P : ℕ → Prop} (h : m.Sound P) : Kept m P m P :=
  ⟨h, fun _ hp hdead => ⟨hp, hdead⟩⟩

/-- Timer `p` has become `t` and is in the set. -/
theorem Sound.put {m m' : TimerManager} {P : ℕ → Prop} {p : ℕ} {t : Timer}
    (h : m.Sound P) (hheap : m'.heap = (m.setTimer p t).heap)
    (hholds : m'.Holds fun q => q = p ∨ (P q ∧ q ≠ p)) :
    m'.Sound fun q => q = p ∨ (P q ∧ q ≠ p) := by
  have hlive : m'.Live = (m.setTimer p t).Live := by
    unfold Live
    rw [hheap]
  refine ⟨hholds, ?_, ?_⟩
  · intro q hq
    rw [hlive, live_setTimer] at hq
    rcases hq with ⟨hq, -⟩ | ⟨hq, hlive⟩
    · exact Or.inl hq
    · exact Or.inr ⟨h.live q hlive, hq⟩
  · intro q hq
    rw [hheap, heap_setTimer]
    exact hq.imp_right fun hq => h.heap q hq.1

/-! ## The operations -/

theorem newTimer_sound {m : TimerManager} {P : ℕ → Prop} (h : m.Sound P) {p : ℕ}
    (hp : m.heap p = none) (ms : ℕ) (cb : Option Callback) (recurring : Bool) (now : ℕ) :
    (m.newTimer p ms cb recurring now).1.Sound fun q => q = p ∨ (P q ∧ q ≠ p) := by
  have hnot : ¬P p := fun hP => h.heap p hP hp
  have hput := (h.setTimer (Timer.make ms cb recurring now) hnot).addTimer (p := p)
  refine h.put rfl (hput.congr ?_)
  intro q
  by_cases hq : q = p
  · exact iff_of_true (Or.inl hq) (Or.inl hq)
  · tauto

/-- A timer with a callback has been put in. -/
theorem Kept.of_put {m m' : TimerManager} {P : ℕ → Prop} {p : ℕ} {t : Timer}
    (h : m'.Sound fun q => q = p ∨ (P q ∧ q ≠ p))
    (hheap : m'.heap = (m.setTimer p t).heap) (ht : t.cb.isSome = true) :
    Kept m P m' fun q => q = p ∨ (P q ∧ q ≠ p) := by
  have hlive : m'.Live = (m.setTimer p t).Live := by
    unfold Live
    rw [hheap]
  refine ⟨h, ?_⟩
  intro q hq hdead
  rw [hlive, live_setTimer] at hdead
  rcases hq with rfl | ⟨hq, hne⟩
  · exact absurd (Or.inl ⟨rfl, ht⟩) hdead
  · exact ⟨hq, fun hlive => hdead (Or.inr ⟨hne, hlive⟩)⟩

theorem cancel_eq {m : TimerManager} {P : ℕ → Prop} (h : m.Sound P) {p : ℕ} {t : Timer}
    {cb : Callback} (ht : m.heap p = some t) (hcb : t.cb = some cb) :
    m.cancel p t = some ((m.setTimer p { t with cb := none }).erase p, true) := by
  have hp : P p := h.live p ⟨t, ht, by rw [hcb]; rfl⟩
  have hset : (m.setTimer p { t with cb := none }).Holds P := h.setCb ht rfl
  simp only [cancel, hcb, hset.find hp]

theorem cancel_kept {m : TimerManager} {P : ℕ → Prop} (h : m.Sound P) {p : ℕ} {t : Timer}
    (ht : m.heap p = some t) :
    ∃ m' P', m.cancel p t = some (m', t.cb.isSome) ∧ Kept m P m' P' := by
  cases hcb : t.cb with
  | none =>
      refine ⟨m, P, ?_, .refl h⟩
      simp only [cancel, hcb]
      rfl
  | some cb =>
      have hp : P p := h.live p ⟨t, ht, by rw [hcb]; rfl⟩
      have hset : (m.setTimer p { t with cb := none }).Holds P := h.setCb ht rfl
      have hlive : ∀ q, ((m.setTimer p { t with cb := none }).erase p).Live q ↔
          q ≠ p ∧ m.Live q := by
        intro q
        change (m.setTimer p { t with cb := none }).Live q ↔ _
        rw [live_setTimer]
        simp
      refine ⟨_, _, cancel_eq h ht hcb, ⟨hset.erase hp, ?_, ?_⟩, ?_⟩
      · intro q hq
        rw [hlive] at hq
        exact ⟨h.live q hq.2, hq.1⟩
      · exact fun q hq => heap_setTimer.mpr (Or.inr (h.heap q hq.1))
      · intro q hq hdead
        rw [hlive] at hdead
        exact ⟨hq.1, fun hlive => hdead ⟨hq.2, hlive⟩⟩

/-- A timer is taken out and changed. -/
theorem Sound.takeOut {m : TimerManager} {P : ℕ → Prop} (h : m.Sound P) {p : ℕ}
    (hp : P p) (t : Timer) :
    ((m.erase p).setTimer p t).Holds fun q => P q ∧ q ≠ p := by
  refine (h.erase hp).setTimer t ?_
  rintro ⟨-, hne⟩
  exact hne rfl

theorem refresh_eq {m : TimerManager} {P : ℕ → Prop} (h : m.Sound P) {p : ℕ} {t : Timer}
    {cb : Callback} (ht : m.heap p = some t) (hcb : t.cb = some cb) (now : ℕ) :
    m.refresh p t now =
      (((m.erase p).setTimer p { t with next := u64 (now + t.ms) }).insert p, true) := by
  have hp : P p := h.live p ⟨t, ht, by rw [hcb]; rfl⟩
  simp only [refresh, hcb, h.find hp]

theorem refresh_kept {m : TimerManager} {P : ℕ → Prop} (h : m.Sound P) {p : ℕ} {t : Timer}
    (ht : m.heap p = some t) (now : ℕ) :
    (∃ P', Kept m P (m.refresh p t now).1 P') ∧ (m.refresh p t now).2 = t.cb.isSome := by
  cases hcb : t.cb with
  | none =>
      simp only [refresh, hcb]
      exact ⟨⟨P, .refl h⟩, rfl⟩
  | some cb =>
      have hlive : m.Live p := ⟨t, ht, by rw [hcb]; rfl⟩
      rw [refresh_eq h ht hcb]
      have hholds := (h.takeOut (h.live p hlive) { t with next := u64 (now + t.ms) }).insert
        (p := p)
      have hsome : ({ t with next := u64 (now + t.ms) } : Timer).cb.isSome = true := by
        rw [hcb]
        rfl
      exact ⟨⟨_, .of_put (h.put rfl hholds) rfl hsome⟩, rfl⟩

/-- The new `m_next` of a timer that is reset. -/
def resetNext (t : Timer) (ms : ℕ) (fromNow : Bool) (now : ℕ) : ℕ :=
  u64 ((if fromNow then now else u64 (t.next + 2 ^ 64 - t.ms)) + ms)

theorem resetLocked_eq {m : TimerManager} {P : ℕ → Prop} (h : m.Sound P) {p : ℕ}
    {t : Timer} {cb : Callback} (ht : m.heap p = some t) (hcb : t.cb = some cb) (ms : ℕ)
    (fromNow : Bool) (now : ℕ) :
    m.resetLocked p t ms fromNow now =
      ((((m.erase p).setTimer p { t with ms, next := resetNext t ms fromNow now }).addTimer
        p).1, true,
       (((m.erase p).setTimer p { t with ms, next := resetNext t ms fromNow now }).addTimer
        p).2) := by
  have hp : P p := h.live p ⟨t, ht, by rw [hcb]; rfl⟩
  simp only [resetLocked, hcb, h.find hp, resetNext]

theorem resetLocked_kept {m : TimerManager} {P : ℕ → Prop} (h : m.Sound P) {p : ℕ}
    {t : Timer} (ht : m.heap p = some t) (ms : ℕ) (fromNow : Bool) (now : ℕ) :
    (∃ P', Kept m P (m.resetLocked p t ms fromNow now).1 P') ∧
      (m.resetLocked p t ms fromNow now).2.1 = t.cb.isSome := by
  cases hcb : t.cb with
  | none =>
      simp only [resetLocked, hcb]
      exact ⟨⟨P, .refl h⟩, rfl⟩
  | some cb =>
      have hlive : m.Live p := ⟨t, ht, by rw [hcb]; rfl⟩
      rw [resetLocked_eq h ht hcb]
      have hholds := (h.takeOut (h.live p hlive)
        { t with ms, next := resetNext t ms fromNow now }).addTimer (p := p)
      have hsome : ({ t with ms, next := resetNext t ms fromNow now } : Timer).cb.isSome =
          true := by
        rw [hcb]
        rfl
      exact ⟨⟨_, .of_put (h.put rfl hholds) rfl hsome⟩, rfl⟩

theorem split_append (m : TimerManager) (now q : ℕ) (rollover : Bool) :
    (m.split now q rollover).1 ++ (m.split now q rollover).2 = m.timers := by
  unfold split
  split
  · exact List.append_nil _
  · simp only [List.append_assoc, List.takeWhile_append_dropWhile]
    exact OrderedSet.below_append_lowerBound _ _

/-- The loop puts back what is recurring and takes the callback from the rest. The set
holds what is in `P` and has not to be dealt with any more. -/
theorem expire_kept (now : ℕ) : ∀ (expired : List ℕ) {m : TimerManager} {P : ℕ → Prop},
    (m.Holds fun q => P q ∧ q ∉ expired) → (∀ q, m.Live q → P q) →
      (∀ q, P q → m.heap q ≠ none) → expired.Nodup → (∀ q ∈ expired, P q) →
      ∃ P', Kept m P (expire now m expired).1 P'
  | [], m, P, h, hlive, hheap, _, _ =>
      ⟨P, .refl ⟨h.congr fun _ => and_iff_left List.not_mem_nil, hlive, hheap⟩⟩
  | p :: expired, m, P, h, hlive, hheap, hnodup, hP => by
      obtain ⟨hp, hnodup⟩ := List.nodup_cons.mp hnodup
      have hPp := hP p List.mem_cons_self
      obtain ⟨t, ht⟩ := Option.ne_none_iff_exists'.mp (hheap p hPp)
      have hout : ¬(P p ∧ p ∉ p :: expired) := fun h => h.2 List.mem_cons_self
      simp only [expire, ht]
      split
      · -- The timer is put back.
        set m' := (m.setTimer p { t with next := u64 (now + t.ms) }).insert p with hm'
        have hlive' : ∀ q, m'.Live q ↔ m.Live q := by
          intro q
          change (m.setTimer p { t with next := u64 (now + t.ms) }).Live q ↔ _
          rw [live_setTimer]
          by_cases hq : q = p
          · subst hq
            simp [Live, ht]
          · tauto
        have hholds : m'.Holds fun q => P q ∧ q ∉ expired := by
          refine (Holds.insert (h.setTimer { t with next := u64 (now + t.ms) } hout)).congr
            fun q => ?_
          by_cases hq : q = p
          · subst hq
            exact iff_of_true (Or.inl rfl) ⟨hPp, hp⟩
          · simp only [hq, false_or, List.mem_cons]
        obtain ⟨P', hsound, hdead⟩ := expire_kept now expired hholds
          (fun q hq => hlive q ((hlive' q).mp hq))
          (fun q hq => heap_setTimer.mpr (Or.inr (hheap q hq))) hnodup
          (fun q hq => hP q (List.mem_cons_of_mem _ hq))
        exact ⟨P', hsound, fun q hq hd => (hdead q hq hd).imp_right (hlive' q).not.mp⟩
      · -- The timer is dropped.
        set m' := m.setTimer p { t with cb := none } with hm'
        have hlive' : ∀ q, m'.Live q ↔ q ≠ p ∧ m.Live q := by
          intro q
          rw [hm', live_setTimer]
          simp
        have hholds : m'.Holds fun q => (P q ∧ q ≠ p) ∧ q ∉ expired := by
          refine (h.setTimer { t with cb := none } hout).congr fun q => ?_
          rw [List.mem_cons]
          tauto
        obtain ⟨P', hsound, hdead⟩ := expire_kept now expired hholds
          (fun q hq => ⟨hlive q ((hlive' q).mp hq).2, ((hlive' q).mp hq).1⟩)
          (fun q hq => heap_setTimer.mpr (Or.inr (hheap q hq.1))) hnodup
          (fun q hq => ⟨hP q (List.mem_cons_of_mem _ hq), fun hqp => hp (hqp ▸ hq)⟩)
        refine ⟨P', hsound, fun q hq hd => ?_⟩
        obtain ⟨⟨hPq, hne⟩, hd⟩ := hdead q hq hd
        exact ⟨hPq, fun hl => hd ((hlive' q).mpr ⟨hne, hl⟩)⟩

theorem expire_split_kept {m : TimerManager} {P : ℕ → Prop} (h : m.Sound P) (now q : ℕ)
    (rollover : Bool) :
    ∃ P', Kept m P (expire now { m with timers := (m.split now q rollover).2 }
      (m.split now q rollover).1).1 P' := by
  obtain ⟨⟨hordered, hmem⟩, hlive, hheap⟩ := h
  rw [← m.split_append now q rollover] at hordered hmem
  have hnodup := hordered.nodup
  have hholds : ({ m with timers := (m.split now q rollover).2 } : TimerManager).Holds
      fun p => P p ∧ p ∉ (m.split now q rollover).1 := by
    refine ⟨hordered.sublist (List.sublist_append_right _ _), ?_⟩
    intro p
    rw [← hmem p, List.mem_append]
    have hdisjoint := List.disjoint_of_nodup_append hnodup
    constructor
    · exact fun hp => ⟨Or.inr hp, fun hp' => hdisjoint hp' hp⟩
    · exact fun hp => hp.1.resolve_left hp.2
  obtain ⟨P', hsound, hdead⟩ := expire_kept now _ hholds hlive hheap hnodup.of_append_left
    fun p hp => (hmem p).mp (List.mem_append_left _ hp)
  exact ⟨P', hsound, hdead⟩

theorem listExpiredCb_kept {m : TimerManager} {P : ℕ → Prop} (h : m.Sound P) (now q : ℕ) :
    ∃ P', Kept m P (m.listExpiredCb now q).1 P' := by
  have hrolled : (m.detectClockRollover now).1.Sound P :=
    ⟨⟨h.ordered, h.mem⟩, h.live, h.heap⟩
  have hlive : (m.detectClockRollover now).1.Live = m.Live := rfl
  unfold listExpiredCb
  split
  · exact ⟨P, .refl h⟩
  · rcases hroll : m.detectClockRollover now with ⟨m', rollover⟩
    rw [hroll] at hrolled hlive
    dsimp only
    split_ifs
    · exact ⟨P, hrolled, fun p hp hd => ⟨hp, hlive ▸ hd⟩⟩
    · obtain ⟨P', hsound, hdead⟩ := expire_split_kept hrolled now q rollover
      exact ⟨P', hsound, fun p hp hd => hlive ▸ hdead p hp hd⟩

theorem release_sound {m : TimerManager} {P : ℕ → Prop} (h : m.Sound P) {p : ℕ}
    (hp : p ∉ m.timers) :
    Kept m P { m with heap := Function.update m.heap p none } P := by
  have hne : ∀ q, P q → q ≠ p := by
    rintro q hq rfl
    exact hp ((h.mem q).mpr hq)
  refine ⟨⟨⟨ordered_congr h.ordered ?_, h.mem⟩, ?_, ?_⟩, ?_⟩
  · intro q hq
    simp only [next, Function.update_of_ne (hne q ((h.mem q).mp hq))]
  · intro q hq
    by_cases hqp : q = p
    · subst hqp
      exact absurd hq (not_live_of_free (Function.update_self q none m.heap))
    · simp only [Live, Function.update_of_ne hqp] at hq
      exact h.live q hq
  · intro q hq
    simp only [Function.update_of_ne (hne q hq)]
    exact h.heap q hq
  · intro q hq hd
    simp only [Live, Function.update_of_ne (hne q hq)] at hd
    exact ⟨hq, hd⟩

/-! ## Runs -/

/-- `addTimer` is given a callback. -/
def NonEmpty (_ : Option TimerManager) : Label → Prop
  | .addTimer _ _ cb _ _ => cb ≠ none
  | _ => True

instance (m : Option TimerManager) (l : Label) : Decidable (NonEmpty m l) := by
  cases l <;> unfold NonEmpty <;> infer_instance

/-- The set holds just the timers that have a callback. -/
def Valid (m : TimerManager) : Prop := m.Sound m.Live

theorem Kept.valid {m m' : TimerManager} {P : ℕ → Prop} (h : Kept m m.Live m' P) :
    m'.Valid := by
  have hP : ∀ p, P p ↔ m'.Live p := by
    intro p
    refine ⟨fun hp => ?_, h.sound.live p⟩
    by_contra hd
    exact (h.dead p hp hd).2 (h.dead p hp hd).1
  refine ⟨h.sound.congr hP, fun _ hp => hp, ?_⟩
  exact fun p hp => h.sound.heap p ((hP p).mpr hp)

theorem newTimer_valid {m : TimerManager} (h : m.Valid) {p : ℕ} (hp : m.heap p = none)
    (ms : ℕ) (cb : Callback) (recurring : Bool) (now : ℕ) :
    (m.newTimer p ms (some cb) recurring now).1.Valid :=
  (Kept.of_put (newTimer_sound h hp ms (some cb) recurring now) rfl rfl).valid

theorem call_valid {m : TimerManager} (h : m.Valid) {l : Label} {s : Option TimerManager}
    (hok : NonEmpty (some m) l) (hcall : m.call l = some s) : ∃ m', s = some m' ∧ m'.Valid := by
  cases l with
  | addTimer p ms cb recurring now =>
      simp only [call] at hcall
      split at hcall
      case isTrue hp =>
        cases hcall
        obtain ⟨cb, rfl⟩ := Option.ne_none_iff_exists'.mp hok
        exact ⟨_, rfl, newTimer_valid h hp ms cb recurring now⟩
      · cases hcall
  | addConditionTimer p ms cond c recurring now =>
      simp only [call] at hcall
      split at hcall
      case isTrue hp =>
        cases hcall
        exact ⟨_, rfl, newTimer_valid h hp ms _ recurring now⟩
      · cases hcall
  | cancel p =>
      obtain ⟨t, ht, hs⟩ := Option.map_eq_some_iff.mp hcall
      obtain ⟨m', P', hm', hkept⟩ := cancel_kept h ht
      rw [hm'] at hs
      exact ⟨m', hs.symm, hkept.valid⟩
  | refresh p now =>
      obtain ⟨t, ht, hs⟩ := Option.map_eq_some_iff.mp hcall
      obtain ⟨⟨P', hkept⟩, -⟩ := refresh_kept h ht now
      exact ⟨_, hs.symm, hkept.valid⟩
  | reset p ms fromNow now =>
      obtain ⟨t, ht, hs⟩ := Option.map_eq_some_iff.mp hcall
      obtain ⟨⟨P', hkept⟩, -⟩ := resetLocked_kept h ht ms fromNow now
      exact ⟨_, hs.symm, hkept.valid⟩
  | getNextTimer now =>
      cases hcall
      exact ⟨_, rfl, ⟨h.ordered, h.mem⟩, h.live, h.heap⟩
  | listExpiredCb now q =>
      simp only [call] at hcall
      split at hcall
      · cases hcall
        obtain ⟨P', hkept⟩ := listExpiredCb_kept h now q
        exact ⟨_, rfl, hkept.valid⟩
      · cases hcall
  | release p =>
      simp only [call] at hcall
      split at hcall
      · cases hcall
      case isFalse hp =>
        cases hcall
        exact ⟨_, rfl, (release_sound h hp).valid⟩

/-- **The timers are in order.** In every run, whatever the clock says: `m_timers` is
ordered by the current `m_next`, has every timer at most once, and has a timer just if
it has a callback; `cancel` finds what it erases, and `refresh` and `reset` find every
timer with a callback. -/
theorem reachable_valid {now : ℕ} {s : Option TimerManager}
    (h : (machine now).Reachable NonEmpty s) :
    ∃ m, s = some m ∧ m.timers.Pairwise (Before m.next) ∧ m.timers.Nodup ∧
      (∀ p, p ∈ m.timers ↔ ∃ t, m.heap p = some t ∧ t.cb.isSome = true) ∧
      ∀ p t, m.heap p = some t → t.cb.isSome = true →
        m.find p = some p ∧ (∃ m', m.cancel p t = some (m', true)) ∧
        ∀ now, (m.refresh p t now).2 = true ∧
          ∀ ms fromNow, (m.reset p t ms fromNow now).2.1 = true := by
  have hinv : ∃ m, s = some m ∧ m.Valid := by
    apply h.invariant
    · refine ⟨_, rfl, ⟨List.Pairwise.nil, ?_⟩, fun _ hp => hp, ?_⟩
      · exact fun p => iff_of_false List.not_mem_nil (not_live_of_free rfl)
      · exact fun p hp => absurd hp (not_live_of_free rfl)
    · rintro _ s l ⟨m, rfl, hm⟩ hok hstep
      exact call_valid hm hok hstep
  obtain ⟨m, rfl, hm⟩ := hinv
  refine ⟨m, rfl, hm.ordered, hm.ordered.nodup, hm.mem, ?_⟩
  intro p t ht hcb
  refine ⟨hm.find ⟨t, ht, hcb⟩, ?_, ?_⟩
  · obtain ⟨m', -, hm', -⟩ := cancel_kept hm ht
    rw [hcb] at hm'
    exact ⟨m', hm'⟩
  · intro now
    refine ⟨(refresh_kept hm ht now).2.trans hcb, ?_⟩
    intro ms fromNow
    unfold reset
    split
    · rfl
    · exact (resetLocked_kept hm ht ms fromNow now).2.trans hcb

/-- A recurring timer at address 7 and one at address 5 expire together; the first is
put back, refreshed, and found. -/
theorem reachable_valid_refreshed :
    ∃ m, (machine 0).Reachable NonEmpty (some m) ∧ m.timers = [3, 7] ∧
      m.find 7 = some 7 := by
  obtain ⟨s, h, hs⟩ : ∃ s, (machine 0).Reachable NonEmpty s ∧
      s.any (fun m => m.timers = [3, 7] ∧
        m.heap 7 = some ⟨true, 10, 50, some (.fn 0)⟩) = true :=
    Lib.Machine.exists_of_exec
      [.addTimer 7 10 (some (.fn 0)) true 0, .addTimer 5 10 (some (.fn 1)) false 0,
        .listExpiredCb 10 8, .addConditionTimer 3 5 0 2 false 10, .refresh 7 40,
        .getNextTimer 40]
      (by decide)
  obtain ⟨m, rfl, -, -, -, hfind⟩ := reachable_valid h
  obtain ⟨htimers, hheap⟩ := of_decide_eq_true hs
  exact ⟨m, h, htimers, (hfind 7 _ hheap rfl).1⟩

end TimerManager

end Skt
