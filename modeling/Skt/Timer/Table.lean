import Skt.Timer.Expire

/-!
# Timers one by one

Seen from outside, a manager is a table: for every address the timer there, and whether
it is pending. Each call changes the table at the timers it is about, and says nothing
of the order in which they stand in the set. What holds over a run for one timer is
proved on the table.
-/

namespace Skt

open Lib

namespace TimerManager

open Timer

/-- The timers that exist, and whether they are pending. -/
abbrev Table := ℕ → Option (Timer × Bool)

def table (m : TimerManager) : Table := fun p =>
  (m.heap p).map fun t => (t, decide (p ∈ m.timers))

namespace Table

/-- A call for the timer at `p` does nothing if the timer has no callback. -/
def act (A : Table) (p : ℕ) (f : Timer → Timer × Bool) : Table :=
  Function.update A p ((A p).map fun s => if s.1.cb.isSome then f s.1 else s)

/-- What a call does to the table; `rollover` is the answer of `detectClockRollover`. -/
def call (A : Table) (rollover : ℕ → Bool) : Label → Table
  | .addTimer p ms cb recurring now =>
      Function.update A p (some (Timer.make ms cb recurring now, true))
  | .addConditionTimer p ms cond c recurring now =>
      Function.update A p (some (Timer.make ms (some (.onTimer cond c)) recurring now, true))
  | .cancel p => A.act p fun t => ({ t with cb := none }, false)
  | .refresh p now => A.act p fun t => ({ t with next := u64 (now + t.ms) }, true)
  | .reset p ms fromNow now =>
      A.act p fun t => ({ t with ms, next := resetNext t ms fromNow now }, true)
  | .getNextTimer _ => A
  | .listExpiredCb now _ => fun p =>
      (A p).map fun s =>
        if s.2 && (rollover now || decide (s.1.next ≤ now)) then (s.1.fired now, s.1.recurring)
        else s
  | .release p => Function.update A p none

theorem act_of_none {A : Table} {p : ℕ} {s : Timer × Bool} (h : A p = some s)
    (hcb : s.1.cb = none) (f : Timer → Timer × Bool) : A.act p f = A := by
  rw [act, h, Option.map_some, hcb]
  exact Function.update_eq_self_iff.mpr h.symm

theorem act_of_some {A : Table} {p : ℕ} {s : Timer × Bool} {cb : Callback}
    (h : A p = some s) (hcb : s.1.cb = some cb) (f : Timer → Timer × Bool) :
    A.act p f = Function.update A p (some (f s.1)) := by
  rw [act, h, Option.map_some, hcb]
  rfl

end Table

/-! ## The manager does what the table says -/

section Refinement

variable {m m' : TimerManager} {P : ℕ → Prop} {p : ℕ} {t : Timer}

theorem table_eq_some {s : Timer × Bool} :
    m.table p = some s ↔ m.heap p = some s.1 ∧ decide (p ∈ m.timers) = s.2 := by
  unfold table
  cases m.heap p with
  | none => simp
  | some t => simp [Prod.ext_iff]

theorem table_of_heap (h : m.heap p = some t) :
    m.table p = some (t, decide (p ∈ m.timers)) := table_eq_some.mpr ⟨h, rfl⟩

/-- One timer changes. -/
theorem table_update (hheap : m'.heap = Function.update m.heap p (some t))
    (hmem : ∀ q, q ≠ p → (q ∈ m'.timers ↔ q ∈ m.timers)) {pending : Bool}
    (hp : p ∈ m'.timers ↔ pending = true) :
    m'.table = Function.update m.table p (some (t, pending)) := by
  funext q
  by_cases hq : q = p
  · subst hq
    rw [Function.update_self, table_eq_some, hheap, Function.update_self]
    exact ⟨rfl, Bool.eq_iff_iff.mpr (decide_eq_true_iff.trans hp)⟩
  · rw [Function.update_of_ne hq]
    unfold table
    rw [hheap, Function.update_of_ne hq, decide_eq_decide.mpr (hmem q hq)]

theorem Sound.self (h : m.Sound P) : m.Sound (· ∈ m.timers) := by
  refine ⟨h.congr fun p => (h.mem p).symm, ?_, ?_⟩
  · exact fun p hp => (h.mem p).mpr (h.live p hp)
  · exact fun p hp => h.heap p ((h.mem p).mp hp)

/-- A timer with a callback is pending. -/
theorem Sound.live_pending (h : m.Sound (· ∈ m.timers)) (p : ℕ) (x : Timer × Bool)
    (hx : m.table p = some x) (hcb : x.1.cb.isSome = true) : x.2 = true := by
  obtain ⟨hheap, hpending⟩ := table_eq_some.mp hx
  rw [← hpending, decide_eq_true_iff]
  exact h.live p ⟨x.1, hheap, hcb⟩

/-- Timer `p` is in the set, as `t`. -/
theorem table_put (hheap : m'.heap = (m.setTimer p t).heap)
    (hholds : m'.Holds fun q => q = p ∨ (q ∈ m.timers ∧ q ≠ p)) :
    m'.table = Function.update m.table p (some (t, true)) := by
  refine table_update hheap (fun q hq => ?_) ?_
  · rw [hholds.mem q]
    tauto
  · rw [hholds.mem p]
    tauto

/-- The time `m_previouseTime` is after a call. -/
def looked (m : TimerManager) : Label → ℕ
  | .listExpiredCb now _ => if m.timers = [] then m.previouseTime else now
  | _ => m.previouseTime

/-- What a call that has returned has left behind. -/
structure Called (m : TimerManager) (l : Label) (m' : TimerManager) : Prop where
  sound : m'.Sound (· ∈ m'.timers)
  table : m'.table = m.table.call (fun now => (m.detectClockRollover now).2) l
  previouseTime : m'.previouseTime = m.looked l

theorem newTimer_holds (h : m.Sound (· ∈ m.timers)) (hp : m.heap p = none) (ms : ℕ)
    (cb : Option Callback) (recurring : Bool) (now : ℕ) :
    (m.newTimer p ms cb recurring now).1.Sound (· ∈ (m.newTimer p ms cb recurring now).1.timers)
      ∧ (m.newTimer p ms cb recurring now).1.table =
        Function.update m.table p (some (Timer.make ms cb recurring now, true)) := by
  have hsound := newTimer_sound h hp ms cb recurring now
  exact ⟨hsound.self, table_put rfl hsound.toHolds⟩

theorem cancel_called (h : m.Sound (· ∈ m.timers)) (ht : m.heap p = some t) :
    ∃ m', m.cancel p t = some (m', t.cb.isSome) ∧ Called m (.cancel p) m' := by
  obtain ⟨m', P', hm', hkept⟩ := cancel_kept h ht
  refine ⟨m', hm', ?_⟩
  cases hcb : t.cb with
  | none =>
      simp only [cancel, hcb, Option.some.injEq, Prod.mk.injEq] at hm'
      obtain ⟨rfl, -⟩ := hm'
      refine ⟨h, ?_, rfl⟩
      rw [Table.call, Table.act_of_none (table_of_heap ht) hcb]
  | some cb =>
      rw [cancel_eq h ht hcb, Option.some.injEq, Prod.mk.injEq] at hm'
      obtain ⟨rfl, -⟩ := hm'
      have hp : p ∈ m.timers := h.live p ⟨t, ht, by rw [hcb]; rfl⟩
      have hset : (m.setTimer p { t with cb := none }).Holds (· ∈ m.timers) :=
        h.setCb ht rfl
      have hmem := (hset.erase hp).mem
      refine ⟨hkept.sound.self, ?_, rfl⟩
      rw [Table.call, Table.act_of_some (table_of_heap ht) hcb]
      refine table_update rfl (fun q hq => ?_) ?_
      · rw [hmem q]
        tauto
      · rw [hmem p]
        simp

theorem refresh_called (h : m.Sound (· ∈ m.timers)) (ht : m.heap p = some t) (now : ℕ) :
    Called m (.refresh p now) (m.refresh p t now).1 := by
  obtain ⟨⟨P', hkept⟩, -⟩ := refresh_kept h ht now
  cases hcb : t.cb with
  | none =>
      simp only [refresh, hcb]
      refine ⟨h, ?_, rfl⟩
      rw [Table.call, Table.act_of_none (table_of_heap ht) hcb]
  | some cb =>
      have hp : p ∈ m.timers := h.live p ⟨t, ht, by rw [hcb]; rfl⟩
      have hput := (h.takeOut hp { t with next := u64 (now + t.ms) }).insert (p := p)
      rw [refresh_eq h ht hcb] at hkept ⊢
      refine ⟨hkept.sound.self, ?_, rfl⟩
      rw [Table.call, Table.act_of_some (table_of_heap ht) hcb]
      exact table_put rfl hput

theorem resetLocked_called (h : m.Sound (· ∈ m.timers)) (ht : m.heap p = some t) (ms : ℕ)
    (fromNow : Bool) (now : ℕ) :
    Called m (.reset p ms fromNow now) (m.resetLocked p t ms fromNow now).1 := by
  obtain ⟨⟨P', hkept⟩, -⟩ := resetLocked_kept h ht ms fromNow now
  cases hcb : t.cb with
  | none =>
      simp only [resetLocked, hcb]
      refine ⟨h, ?_, rfl⟩
      rw [Table.call, Table.act_of_none (table_of_heap ht) hcb]
  | some cb =>
      have hp : p ∈ m.timers := h.live p ⟨t, ht, by rw [hcb]; rfl⟩
      have hput := (h.takeOut hp
        { t with ms, next := resetNext t ms fromNow now }).addTimer (p := p)
      rw [resetLocked_eq h ht hcb] at hkept ⊢
      refine ⟨hkept.sound.self, ?_, rfl⟩
      rw [Table.call, Table.act_of_some (table_of_heap ht) hcb]
      exact table_put rfl hput

theorem listExpiredCb_called (h : m.Sound (· ∈ m.timers)) (now : ℕ) {q : ℕ}
    (hq : m.heap q = none) :
    Called m (.listExpiredCb now q) (m.listExpiredCb now q).1 := by
  obtain ⟨P', hkept⟩ := listExpiredCb_kept h now q
  obtain ⟨-, hheap, hmem⟩ := listExpiredCb_expires h now hq
  refine ⟨hkept.sound.self, funext fun p => ?_, listExpiredCb_previouseTime m now q⟩
  simp only [table, Table.call, hheap p]
  cases ht : m.heap p with
  | none => simp
  | some t =>
      have hexpired : p ∈ m.expired now ↔
          (decide (p ∈ m.timers) &&
            ((m.detectClockRollover now).2 || decide (t.next ≤ now))) = true := by
        rw [mem_expired, due, next, ht, Bool.and_eq_true, decide_eq_true_eq]
      have hrec : m.recurring p = t.recurring := by
        rw [recurring, ht]
        rfl
      by_cases hp : p ∈ m.expired now
      · have hpending : decide (p ∈ (m.listExpiredCb now q).1.timers) = t.recurring := by
          rw [← hrec, Bool.eq_iff_iff, decide_eq_true_iff, hmem p]
          exact ⟨fun h => h.2 hp, fun h => ⟨(mem_expired.mp hp).1, fun _ => h⟩⟩
        simp only [if_pos hp, Option.map_some, if_pos (hexpired.mp hp), hpending]
      · have hpending : decide (p ∈ (m.listExpiredCb now q).1.timers) =
            decide (p ∈ m.timers) := by
          refine decide_eq_decide.mpr ((hmem p).trans ?_)
          exact ⟨fun h => h.1, fun h => ⟨h, fun h' => absurd h' hp⟩⟩
        simp only [if_neg hp, Option.map_some, if_neg (hexpired.not.mp hp), hpending]

theorem release_called (h : m.Sound (· ∈ m.timers)) (hp : p ∉ m.timers) :
    Called m (.release p) { m with heap := Function.update m.heap p none } := by
  refine ⟨(release_sound h hp).sound, funext fun q => ?_, rfl⟩
  simp only [table, Table.call]
  by_cases hq : q = p
  · subst hq
    rw [Function.update_self, Function.update_self]
    rfl
  · rw [Function.update_of_ne hq, Function.update_of_ne hq]
    rfl

/-- **One call.** The manager does to its timers what the table says, and is not broken
by it. -/
theorem call_called (h : m.Sound (· ∈ m.timers)) {l : Label} {s : Option TimerManager}
    (hcall : m.call l = some s) : ∃ m', s = some m' ∧ Called m l m' := by
  cases l with
  | addTimer p ms cb recurring now =>
      simp only [call] at hcall
      split at hcall
      case isTrue hp =>
        cases hcall
        obtain ⟨hsound, htable⟩ := newTimer_holds h hp ms cb recurring now
        exact ⟨_, rfl, hsound, htable, rfl⟩
      · cases hcall
  | addConditionTimer p ms cond c recurring now =>
      simp only [call] at hcall
      split at hcall
      case isTrue hp =>
        cases hcall
        obtain ⟨hsound, htable⟩ := newTimer_holds h hp ms (some (.onTimer cond c)) recurring now
        exact ⟨_, rfl, hsound, htable, rfl⟩
      · cases hcall
  | cancel p =>
      obtain ⟨t, ht, hs⟩ := Option.map_eq_some_iff.mp hcall
      obtain ⟨m', hm', hcalled⟩ := cancel_called h ht
      rw [hm'] at hs
      exact ⟨m', hs.symm, hcalled⟩
  | refresh p now =>
      obtain ⟨t, ht, hs⟩ := Option.map_eq_some_iff.mp hcall
      exact ⟨_, hs.symm, refresh_called h ht now⟩
  | reset p ms fromNow now =>
      obtain ⟨t, ht, hs⟩ := Option.map_eq_some_iff.mp hcall
      exact ⟨_, hs.symm, resetLocked_called h ht ms fromNow now⟩
  | getNextTimer now =>
      cases hcall
      exact ⟨_, rfl, ⟨⟨h.ordered, h.mem⟩, h.live, h.heap⟩, rfl, rfl⟩
  | listExpiredCb now q =>
      simp only [call] at hcall
      split at hcall
      case isTrue hq =>
        cases hcall
        exact ⟨_, rfl, listExpiredCb_called h now hq⟩
      · cases hcall
  | release p =>
      simp only [call] at hcall
      split at hcall
      · cases hcall
      case isFalse hp =>
        cases hcall
        exact ⟨_, rfl, release_called h hp⟩

end Refinement

theorem start_sound (now : ℕ) :
    (⟨fun _ => none, [], false, now⟩ : TimerManager).Sound (· ∈ ([] : List ℕ)) := by
  refine ⟨⟨List.Pairwise.nil, fun _ => Iff.rfl⟩, ?_, ?_⟩
  · exact fun p hp => absurd hp (not_live_of_free rfl)
  · exact fun p hp => absurd hp List.not_mem_nil

theorem reachable_sound {now : ℕ} {Ok : Option TimerManager → Label → Prop}
    {s : Option TimerManager} (h : (machine now).Reachable Ok s) :
    ∃ m, s = some m ∧ m.Sound (· ∈ m.timers) := by
  apply h.invariant
  · exact ⟨_, rfl, start_sound now⟩
  · rintro _ s l ⟨m, rfl, hm⟩ - hstep
    obtain ⟨m', rfl, hcalled⟩ := call_called hm hstep
    exact ⟨m', rfl, hcalled.sound⟩

/-! ## What a handle answers -/

/-- A call for the timer at `p` says whether it is pending, and changes nothing if it
is not. -/
def Answers (m : TimerManager) (p : ℕ) (m' : TimerManager) (answer : Bool) : Prop :=
  (answer = true ↔ p ∈ m.timers) ∧ (answer = false → m' = m)

theorem answers_isSome {m : TimerManager} (h : m.Sound (· ∈ m.timers)) {p : ℕ} {t : Timer}
    (ht : m.heap p = some t) (hcb : p ∈ m.timers → t.cb ≠ none) :
    t.cb.isSome = true ↔ p ∈ m.timers := by
  constructor
  · exact fun hsome => h.live p ⟨t, ht, hsome⟩
  · exact fun hp => Option.isSome_iff_ne_none.mpr (hcb hp)

theorem cancel_answers {m : TimerManager} (h : m.Sound (· ∈ m.timers)) {p : ℕ} {t : Timer}
    (ht : m.heap p = some t) :
    (∃ m' answer, m.cancel p t = some (m', answer) ∧ Answers m p m' answer) ↔
      (p ∈ m.timers → t.cb ≠ none) := by
  obtain ⟨m₁, hm₁, -⟩ := cancel_called h ht
  constructor
  · rintro ⟨m', answer, hm', hiff, -⟩ hp hcb
    rw [hm₁, Option.some.injEq, Prod.mk.injEq, hcb] at hm'
    have hfalse := hiff.mpr hp
    rw [← hm'.2] at hfalse
    cases hfalse
  · intro hcb
    refine ⟨m₁, _, hm₁, answers_isSome h ht hcb, ?_⟩
    intro hnone
    have hnone := Option.not_isSome_iff_eq_none.mp (by rw [hnone]; exact Bool.false_ne_true)
    simp only [cancel, hnone, Option.some.injEq, Prod.mk.injEq] at hm₁
    exact hm₁.1.symm

theorem refresh_answers {m : TimerManager} (h : m.Sound (· ∈ m.timers)) {p : ℕ} {t : Timer}
    (ht : m.heap p = some t) (hcb : p ∈ m.timers → t.cb ≠ none) (now : ℕ) :
    Answers m p (m.refresh p t now).1 (m.refresh p t now).2 := by
  rw [Answers, (refresh_kept h ht now).2]
  refine ⟨answers_isSome h ht hcb, fun hnone => ?_⟩
  have hnone := Option.not_isSome_iff_eq_none.mp (by rw [hnone]; exact Bool.false_ne_true)
  simp only [refresh, hnone]

theorem resetLocked_answers {m : TimerManager} (h : m.Sound (· ∈ m.timers)) {p : ℕ}
    {t : Timer} (ht : m.heap p = some t) (hcb : p ∈ m.timers → t.cb ≠ none) (ms : ℕ)
    (fromNow : Bool) (now : ℕ) :
    Answers m p (m.resetLocked p t ms fromNow now).1
      (m.resetLocked p t ms fromNow now).2.1 := by
  rw [Answers, (resetLocked_kept h ht ms fromNow now).2]
  refine ⟨answers_isSome h ht hcb, fun hnone => ?_⟩
  have hnone := Option.not_isSome_iff_eq_none.mp (by rw [hnone]; exact Bool.false_ne_true)
  simp only [resetLocked, hnone]

/-- **Answers.** Whatever has happened before: `cancel`, `refresh` and `reset` say
whether the timer is pending, and change nothing if it is not, just if the timer is not
one that was added without a callback and is still pending, and `reset` with the
interval it has and without `from_now` is not called for a timer that is not pending. -/
theorem answers_iff {now₀ : ℕ} {m : TimerManager}
    (h : (machine now₀).Reachable (fun _ _ => True) (some m)) {p : ℕ} {t : Timer}
    (ht : m.heap p = some t) (ms : ℕ) (fromNow : Bool) (now : ℕ) :
    ((∃ m' answer, m.cancel p t = some (m', answer) ∧ Answers m p m' answer) ∧
      Answers m p (m.refresh p t now).1 (m.refresh p t now).2 ∧
      Answers m p (m.reset p t ms fromNow now).1 (m.reset p t ms fromNow now).2.1) ↔
    (p ∈ m.timers → t.cb ≠ none) ∧ (p ∉ m.timers → ms ≠ t.ms ∨ fromNow = true) := by
  obtain ⟨_, hm, hsound⟩ := reachable_sound h
  cases hm
  rw [cancel_answers hsound ht]
  constructor
  · rintro ⟨hcb, -, hreset, -⟩
    refine ⟨hcb, fun hp => ?_⟩
    by_contra hsame
    push Not at hsame
    have hearly : ms = t.ms ∧ fromNow = false :=
      ⟨hsame.1, Bool.eq_false_iff.mpr hsame.2⟩
    rw [reset, if_pos hearly] at hreset
    exact hp (hreset.mp rfl)
  · rintro ⟨hcb, hpending⟩
    refine ⟨hcb, refresh_answers hsound ht hcb now, ?_⟩
    unfold reset
    split
    case isTrue hearly =>
      have hp : p ∈ m.timers := by
        by_contra hp
        rcases hpending hp with hms | hnow
        · exact hms hearly.1
        · rw [hearly.2] at hnow
          cases hnow
      exact ⟨iff_of_true rfl hp, fun h => by cases h⟩
    · exact resetLocked_answers hsound ht hcb ms fromNow now

/-- A timer that has fired says so, to `reset` with another interval as well. -/
theorem answers_iff_fired :
    ∃ m t, (machine 0).Reachable (fun _ _ => True) (some m) ∧ m.heap 7 = some t ∧
      7 ∉ m.timers ∧ ∀ now, (m.reset 7 t 20 false now).2.1 = false := by
  obtain ⟨s, h, hs⟩ : ∃ s, (machine 0).Reachable (fun _ _ => True) s ∧
      s.any (fun m => 7 ∉ m.timers ∧ m.heap 7 = some ⟨false, 10, 10, none⟩) = true :=
    Lib.Machine.exists_of_exec
      [.addTimer 7 10 (some (.fn 0)) false 0, .listExpiredCb 10 8] (by decide)
  obtain ⟨m, rfl, -⟩ := reachable_sound h
  obtain ⟨hp, ht⟩ := of_decide_eq_true hs
  refine ⟨m, _, h, ht, hp, fun now => ?_⟩
  have hright := (answers_iff h ht 20 false now).mpr
    ⟨fun hp' => absurd hp' hp, fun _ => Or.inl (by decide)⟩
  exact Bool.eq_false_iff.mpr fun htrue => hp (hright.2.2.1.mp htrue)

/-- `reset` with the interval it has says that a timer is pending that has fired; and
`cancel` says that a timer without a callback is not, which is in the set. -/
theorem reset_answers_fired :
    (∃ m t, (machine 0).Reachable (fun _ _ => True) (some m) ∧ m.heap 7 = some t ∧
      7 ∉ m.timers ∧ (m.reset 7 t 10 false 20).2.1 = true) ∧
    ∃ m t, (machine 0).Reachable (fun _ _ => True) (some m) ∧ m.heap 7 = some t ∧
      7 ∈ m.timers ∧ ∃ m', m.cancel 7 t = some (m', false) := by
  constructor
  · obtain ⟨s, h, hs⟩ : ∃ s, (machine 0).Reachable (fun _ _ => True) s ∧
        s.any (fun m => 7 ∉ m.timers ∧ m.heap 7 = some ⟨false, 10, 10, none⟩) = true :=
      Lib.Machine.exists_of_exec
        [.addTimer 7 10 (some (.fn 0)) false 0, .listExpiredCb 10 8] (by decide)
    obtain ⟨m, rfl, -⟩ := reachable_sound h
    obtain ⟨hp, ht⟩ := of_decide_eq_true hs
    exact ⟨m, _, h, ht, hp, rfl⟩
  · obtain ⟨s, h, hs⟩ : ∃ s, (machine 0).Reachable (fun _ _ => True) s ∧
        s.any (fun m => 7 ∈ m.timers ∧ m.heap 7 = some ⟨false, 10, 10, none⟩) = true :=
      Lib.Machine.exists_of_exec [.addTimer 7 10 none false 0] (by decide)
    obtain ⟨m, rfl, -⟩ := reachable_sound h
    obtain ⟨hp, ht⟩ := of_decide_eq_true hs
    exact ⟨m, _, h, ht, hp, m, rfl⟩

end TimerManager

end Skt
