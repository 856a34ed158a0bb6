import Skt.Timer.Table

/-!
# A timer fires once

An address may be given to another timer when the last pointer to a timer is gone, so
timers are told apart by a number of their own. A log is kept beside the manager of
whose callbacks have been returned and which timers have been cancelled.
-/

namespace Skt

open Lib

namespace TimerManager

/-- `serial p` is the number of the timer at `p`; `returned` has the number of a timer
once for every time its callback was returned, `cancelled` those for which `cancel` has
returned true. -/
structure Log where
  manager : Option TimerManager
  made : ℕ
  serial : ℕ → ℕ
  oneShot : ℕ → Bool
  returned : List ℕ
  cancelled : List ℕ

namespace Log

/-- A new timer at `p`. -/
def add (s : Log) (p : ℕ) (recurring : Bool) : Log :=
  { s with
    made := s.made + 1
    serial := Function.update s.serial p s.made
    oneShot := Function.update s.oneShot s.made !recurring }

/-- What is written down when a call is made. -/
def note (s : Log) (m : TimerManager) : Label → Log
  | .addTimer p _ _ recurring _ => s.add p recurring
  | .addConditionTimer p _ _ _ recurring _ => s.add p recurring
  | .cancel p =>
      if ((m.heap p).bind (m.cancel p)).any Prod.snd then
        { s with cancelled := s.serial p :: s.cancelled }
      else s
  | .listExpiredCb now _ => { s with returned := s.returned ++ (m.expired now).map s.serial }
  | _ => s

def machine (now : ℕ) : Lib.Machine Log Label where
  start := ⟨(TimerManager.machine now).start, 0, fun _ => 0, fun _ => false, [], []⟩
  step s l := s.manager.bind fun m =>
    (m.call l).map fun m' => { s.note m l with manager := m' }

theorem serial_add_of_ne (s : Log) {p q : ℕ} (recurring : Bool) (h : q ≠ p) :
    (s.add p recurring).serial q = s.serial q := Function.update_of_ne h _ _

theorem oneShot_add_of_ne (s : Log) (p : ℕ) (recurring : Bool) {i : ℕ} (h : i ≠ s.made) :
    (s.add p recurring).oneShot i = s.oneShot i := Function.update_of_ne h _ _

/-- The log agrees with a table of timers. -/
structure Agrees (s : Log) (A : Table) : Prop where
  known : ∀ p x, A p = some x → s.serial p < s.made ∧ s.oneShot (s.serial p) = !x.1.recurring
  inj : ∀ p q, A p ≠ none → A q ≠ none → s.serial p = s.serial q → p = q
  pending : ∀ p t, A p = some (t, true) →
    s.serial p ∉ s.cancelled ∧ (t.recurring = false → s.serial p ∉ s.returned)
  old : ∀ i, i ∈ s.cancelled ∨ i ∈ s.returned → i < s.made
  once : ∀ i, s.oneShot i = true → s.returned.count i ≤ 1

variable {s : Log} {A B : Table}

/-- Timers go, change, or are not pending any more. -/
theorem Agrees.mono (h : s.Agrees A) (hB : ∀ p x, B p = some x →
    ∃ y, A p = some y ∧ y.1.recurring = x.1.recurring ∧ (x.2 = true → y.2 = true)) :
    s.Agrees B := by
  have hne : ∀ p, B p ≠ none → A p ≠ none := by
    intro p hp
    obtain ⟨x, hx⟩ := Option.ne_none_iff_exists'.mp hp
    obtain ⟨y, hy, -⟩ := hB p x hx
    rw [hy]
    exact Option.some_ne_none y
  refine ⟨?_, ?_, ?_, h.old, h.once⟩
  · intro p x hx
    obtain ⟨y, hy, hrec, -⟩ := hB p x hx
    rw [← hrec]
    exact h.known p y hy
  · exact fun p q hp hq => h.inj p q (hne p hp) (hne q hq)
  · intro p t ht
    obtain ⟨⟨t', b⟩, hy, hrec, hpending⟩ := hB p _ ht
    obtain rfl : b = true := hpending rfl
    change t'.recurring = t.recurring at hrec
    rw [← hrec]
    exact h.pending p t' hy

/-- A call for a timer with a callback; such a timer is pending. -/
theorem Agrees.act (h : s.Agrees A) {p : ℕ} {f : Timer → Timer × Bool}
    (hlive : ∀ x, A p = some x → x.1.cb.isSome = true → x.2 = true)
    (hrec : ∀ t, (f t).1.recurring = t.recurring) : s.Agrees (A.act p f) := by
  apply h.mono
  intro q x hx
  by_cases hq : q = p
  · subst hq
    rw [Table.act, Function.update_self] at hx
    obtain ⟨y, hy, rfl⟩ := Option.map_eq_some_iff.mp hx
    refine ⟨y, hy, ?_⟩
    split
    case isTrue hcb => exact ⟨(hrec y.1).symm, fun _ => hlive y hy hcb⟩
    case isFalse => exact ⟨rfl, fun hb => hb⟩
  · rw [Table.act, Function.update_of_ne hq] at hx
    exact ⟨x, hx, rfl, fun hb => hb⟩

theorem Agrees.add (h : s.Agrees A) {p : ℕ} (hp : A p = none) {t : Timer} :
    (s.add p t.recurring).Agrees (Function.update A p (some (t, true))) := by
  have hold : ∀ q x, q ≠ p → A q = some x →
      (s.add p t.recurring).serial q = s.serial q ∧ s.serial q < s.made := by
    intro q x hq hx
    exact ⟨serial_add_of_ne s _ hq, (h.known q x hx).1⟩
  have hnew : (s.add p t.recurring).serial p = s.made := Function.update_self _ _ _
  refine ⟨?_, ?_, ?_, ?_, ?_⟩
  · intro q x hx
    by_cases hq : q = p
    · subst hq
      rw [Function.update_self, Option.some.injEq] at hx
      subst hx
      rw [hnew]
      exact ⟨Nat.lt_succ_self _, Function.update_self _ _ _⟩
    · rw [Function.update_of_ne hq] at hx
      obtain ⟨hserial, hlt⟩ := hold q x hq hx
      rw [hserial]
      refine ⟨Nat.lt_succ_of_lt hlt, ?_⟩
      rw [oneShot_add_of_ne s p _ hlt.ne]
      exact (h.known q x hx).2
  · intro q r hq hr hserial
    by_cases hqp : q = p <;> by_cases hrp : r = p
    · rw [hqp, hrp]
    · subst hqp
      rw [Function.update_of_ne hrp] at hr
      obtain ⟨x, hx⟩ := Option.ne_none_iff_exists'.mp hr
      obtain ⟨hr', hlt⟩ := hold r x hrp hx
      rw [hnew, hr'] at hserial
      omega
    · subst hrp
      rw [Function.update_of_ne hqp] at hq
      obtain ⟨x, hx⟩ := Option.ne_none_iff_exists'.mp hq
      obtain ⟨hq', hlt⟩ := hold q x hqp hx
      rw [hnew, hq'] at hserial
      omega
    · rw [Function.update_of_ne hqp] at hq
      rw [Function.update_of_ne hrp] at hr
      rw [serial_add_of_ne s _ hqp, serial_add_of_ne s _ hrp] at hserial
      exact h.inj q r hq hr hserial
  · intro q t' ht'
    by_cases hq : q = p
    · subst hq
      rw [hnew]
      refine ⟨fun hmem => ?_, fun _ hmem => ?_⟩
      · exact absurd (h.old s.made (Or.inl hmem)) (Nat.lt_irrefl _)
      · exact absurd (h.old s.made (Or.inr hmem)) (Nat.lt_irrefl _)
    · rw [Function.update_of_ne hq] at ht'
      rw [(hold q _ hq ht').1]
      exact h.pending q t' ht'
  · exact fun i hi => Nat.lt_succ_of_lt (h.old i hi)
  · intro i hi
    by_cases him : i = s.made
    · have hnot : i ∉ s.returned := fun hmem => by
        have := h.old i (Or.inr hmem)
        omega
      exact (List.count_eq_zero_of_not_mem hnot).le.trans (Nat.zero_le 1)
    · rw [oneShot_add_of_ne s p _ him] at hi
      exact h.once i hi

/-- The timer at `p` is cancelled. -/
theorem Agrees.cancel (h : s.Agrees A) {p : ℕ} {x : Timer × Bool} (hx : A p = some x)
    (hp : ∀ t, A p ≠ some (t, true)) :
    ({ s with cancelled := s.serial p :: s.cancelled } : Log).Agrees A := by
  refine ⟨h.known, h.inj, ?_, ?_, h.once⟩
  · intro q t ht
    obtain ⟨hcancelled, hreturned⟩ := h.pending q t ht
    refine ⟨?_, hreturned⟩
    rw [List.mem_cons, not_or]
    refine ⟨fun hserial => ?_, hcancelled⟩
    have hqp : q = p := h.inj q p (by rw [ht]; exact Option.some_ne_none _)
      (by rw [hx]; exact Option.some_ne_none _) hserial
    subst hqp
    exact hp t ht
  · rintro i (hi | hi)
    · rcases List.mem_cons.mp hi with rfl | hi
      · exact (h.known p x hx).1
      · exact h.old i (Or.inl hi)
    · exact h.old i (Or.inr hi)

/-- The timers of a list fire, after which those that are not recurring are not
pending. -/
theorem Agrees.fire (h : s.Agrees A) (hB : s.Agrees B) {l : List ℕ} (hl : l.Nodup)
    (hpending : ∀ p ∈ l, ∃ t, A p = some (t, true))
    (hdone : ∀ p ∈ l, ∀ t, B p = some (t, true) → t.recurring = true)
    (hsub : ∀ p, B p ≠ none → A p ≠ none) :
    ({ s with returned := s.returned ++ l.map s.serial } : Log).Agrees B := by
  have hne : ∀ p ∈ l, A p ≠ none := by
    intro p hp
    obtain ⟨t, ht⟩ := hpending p hp
    rw [ht]
    exact Option.some_ne_none _
  have hnodup : (l.map s.serial).Nodup :=
    hl.map_on fun p hp q hq => h.inj p q (hne p hp) (hne q hq)
  refine ⟨hB.known, hB.inj, ?_, ?_, ?_⟩
  · intro p t ht
    obtain ⟨hcancelled, hreturned⟩ := hB.pending p t ht
    refine ⟨hcancelled, fun hrec hmem => ?_⟩
    rcases List.mem_append.mp hmem with hmem | hmem
    · exact hreturned hrec hmem
    · obtain ⟨q, hq, hserial⟩ := List.mem_map.mp hmem
      have hBp : A p ≠ none := hsub p (by rw [ht]; exact Option.some_ne_none _)
      obtain rfl := h.inj q p (hne q hq) hBp hserial
      rw [hdone q hq t ht] at hrec
      cases hrec
  · rintro i (hi | hi)
    · exact h.old i (Or.inl hi)
    · rcases List.mem_append.mp hi with hi | hi
      · exact h.old i (Or.inr hi)
      · obtain ⟨q, hq, rfl⟩ := List.mem_map.mp hi
        obtain ⟨t, ht⟩ := hpending q hq
        exact (h.known q _ ht).1
  · intro i hi
    show (s.returned ++ l.map s.serial).count i ≤ 1
    rw [List.count_append]
    by_cases hmem : i ∈ l.map s.serial
    · -- The timer was pending, so it had not fired before.
      obtain ⟨q, hq, rfl⟩ := List.mem_map.mp hmem
      obtain ⟨t, ht⟩ := hpending q hq
      have hrec := (h.known q _ ht).2.symm.trans hi
      have hzero := List.count_eq_zero_of_not_mem
        ((h.pending q t ht).2 (by simpa using hrec))
      have hone := List.nodup_iff_count_le_one.mp hnodup (s.serial q)
      omega
    · have hzero := List.count_eq_zero_of_not_mem hmem
      have hone := h.once i hi
      omega

/-! ## Runs -/

theorem agrees_listExpiredCb {m : TimerManager} (h : m.Sound (· ∈ m.timers))
    (hs : s.Agrees m.table) {m' : TimerManager} {now q : ℕ}
    (hcalled : Called m (.listExpiredCb now q) m') :
    (s.note m (.listExpiredCb now q)).Agrees m'.table := by
  have hmono : ∀ p x, m'.table p = some x →
      ∃ y, m.table p = some y ∧ y.1.recurring = x.1.recurring ∧
        (x.2 = true → y.2 = true) := by
    intro p x hx
    rw [hcalled.table] at hx
    obtain ⟨y, hy, rfl⟩ := Option.map_eq_some_iff.mp hx
    refine ⟨y, hy, ?_⟩
    split
    case isTrue hdue =>
      exact ⟨(Timer.fired_recurring now y.1).symm, fun _ => (Bool.and_eq_true_iff.mp hdue).1⟩
    case isFalse => exact ⟨rfl, fun hb => hb⟩
  refine hs.fire (hs.mono hmono) (h.ordered.nodup.filter _) ?_ ?_ ?_
  · intro p hp
    obtain ⟨hmem, -⟩ := mem_expired.mp hp
    obtain ⟨t, ht⟩ := Option.ne_none_iff_exists'.mp (h.heap p hmem)
    exact ⟨t, table_eq_some.mpr ⟨ht, decide_eq_true hmem⟩⟩
  · intro p hp t ht
    obtain ⟨hmem, hdue⟩ := mem_expired.mp hp
    rw [hcalled.table] at ht
    obtain ⟨y, hy, hfired⟩ := Option.map_eq_some_iff.mp ht
    obtain ⟨hheap, hpending⟩ := table_eq_some.mp hy
    have hcond : (y.2 && ((m.detectClockRollover now).2 || decide (y.1.next ≤ now))) =
        true := by
      rw [due, next, hheap] at hdue
      rw [← hpending, decide_eq_true hmem, Bool.true_and]
      exact hdue
    rw [if_pos hcond, Prod.mk.injEq] at hfired
    rw [← hfired.1, Timer.fired_recurring]
    exact hfired.2
  · intro p hp
    obtain ⟨x, hx⟩ := Option.ne_none_iff_exists'.mp hp
    obtain ⟨y, hy, -⟩ := hmono p x hx
    rw [hy]
    exact Option.some_ne_none y

/-- One call and what is written down of it. -/
theorem agrees_note {m m' : TimerManager} (h : m.Sound (· ∈ m.timers))
    (hs : s.Agrees m.table) {l : Label} (hcall : m.call l = some (some m'))
    (hcalled : Called m l m') : (s.note m l).Agrees m'.table := by
  cases l with
  | addTimer p ms cb recurring now =>
      simp only [call] at hcall
      split at hcall
      case isTrue hp =>
        rw [hcalled.table]
        exact hs.add (t := Timer.make ms cb recurring now) (by rw [table, hp]; rfl)
      · cases hcall
  | addConditionTimer p ms cond c recurring now =>
      simp only [call] at hcall
      split at hcall
      case isTrue hp =>
        rw [hcalled.table]
        exact hs.add (t := Timer.make ms (some (.onTimer cond c)) recurring now)
          (by rw [table, hp]; rfl)
      · cases hcall
  | cancel p =>
      obtain ⟨t, ht, -⟩ := Option.map_eq_some_iff.mp hcall
      obtain ⟨m₁, hm₁, -⟩ := cancel_called h ht
      have hact : s.Agrees m'.table := by
        rw [hcalled.table, Table.call]
        exact hs.act (h.live_pending p) fun _ => rfl
      simp only [note]
      split
      case isTrue hanswer =>
        rw [ht, Option.bind_some, hm₁] at hanswer
        obtain ⟨cb, hcb⟩ := Option.isSome_iff_exists.mp hanswer
        have hx : m'.table p = some ({ t with cb := none }, false) := by
          rw [hcalled.table, Table.call, Table.act_of_some (table_of_heap ht) hcb,
            Function.update_self]
        refine hact.cancel hx fun t' ht' => ?_
        rw [hx] at ht'
        cases ht'
      · exact hact
  | refresh p now =>
      rw [hcalled.table, Table.call]
      exact hs.act (h.live_pending p) fun _ => rfl
  | reset p ms fromNow now =>
      rw [hcalled.table, Table.call]
      exact hs.act (h.live_pending p) fun _ => rfl
  | getNextTimer now =>
      rw [hcalled.table]
      exact hs
  | listExpiredCb now q => exact agrees_listExpiredCb h hs hcalled
  | release p =>
      rw [hcalled.table]
      refine hs.mono fun q x hx => ⟨x, ?_, rfl, fun hb => hb⟩
      by_cases hq : q = p
      · subst hq
        rw [Table.call, Function.update_self] at hx
        cases hx
      · rwa [Table.call, Function.update_of_ne hq] at hx

theorem note_agrees_manager {A : Table} (h : s.Agrees A) (m : Option TimerManager) :
    ({ s with manager := m } : Log).Agrees A := ⟨h.known, h.inj, h.pending, h.old, h.once⟩

theorem reachable_agrees {now : ℕ} {Ok : Log → Label → Prop}
    (h : (machine now).Reachable Ok s) :
    ∃ m, s.manager = some m ∧ m.Sound (· ∈ m.timers) ∧ s.Agrees m.table := by
  apply h.invariant
  · refine ⟨_, rfl, start_sound now, ?_, ?_, ?_, ?_, ?_⟩
    · exact fun p x hx => by cases hx
    · exact fun p q hp => absurd rfl hp
    · exact fun p t ht => by cases ht
    · exact fun i hi => by rcases hi with hi | hi <;> cases hi
    · exact fun i hi => by cases hi
  · rintro s s' l ⟨m, hm, hsound, hagrees⟩ - hstep
    simp only [machine, hm, Option.bind_some] at hstep
    obtain ⟨r, hcall, rfl⟩ := Option.map_eq_some_iff.mp hstep
    obtain ⟨m', rfl, hcalled⟩ := call_called hsound hcall
    exact ⟨m', rfl, hcalled.sound,
      note_agrees_manager (agrees_note hsound hagrees hcall hcalled) _⟩

/-- **Expiry.** In every run, whatever the clock says: `listExpiredCb` returns the
callbacks of the timers whose time has come, or of all timers after a rollover, in the
order of the set; those that are recurring are put back with a new time, the callbacks
of the others are cleared, and nothing else changes. No callback of a cancelled timer is
returned, and that of a timer that is not recurring was returned once at most. -/
theorem listExpiredCb_exact {now₀ : ℕ} (h : (machine now₀).Reachable (fun _ _ => True) s) :
    ∃ m, s.manager = some m ∧ m.timers.Pairwise (Timer.Before m.next) ∧
      (∀ now q, m.heap q = none →
        let rollover := (m.detectClockRollover now).2
        let expired := m.timers.filter fun p => rollover || decide (m.next p ≤ now)
        let r := m.listExpiredCb now q
        r.2 = expired.map m.cb ∧ r.1.timers.Pairwise (Timer.Before r.1.next) ∧
        (∀ p t, p ∈ expired → m.heap p = some t → t.recurring = false →
          p ∉ r.1.timers ∧ r.1.heap p = some { t with cb := none }) ∧
        (∀ p t, p ∈ expired → m.heap p = some t → t.recurring = true →
          p ∈ r.1.timers ∧ r.1.heap p = some { t with next := u64 (now + t.ms) }) ∧
        (∀ p, p ∉ expired →
          (p ∈ r.1.timers ↔ p ∈ m.timers) ∧ r.1.heap p = m.heap p) ∧
        ∀ p ∈ expired, s.serial p ∉ s.cancelled) ∧
      ∀ i, s.oneShot i = true → s.returned.count i ≤ 1 := by
  obtain ⟨m, hm, hsound, hagrees⟩ := reachable_agrees h
  refine ⟨m, hm, hsound.ordered, ?_, hagrees.once⟩
  intro now q hq
  obtain ⟨hcbs, hheap, hmem⟩ := listExpiredCb_expires hsound now hq
  have hrec : ∀ p t, m.heap p = some t → m.recurring p = t.recurring := by
    intro p t ht
    rw [recurring, ht]
    rfl
  refine ⟨hcbs, (listExpiredCb_called hsound now hq).sound.ordered, ?_, ?_, ?_, ?_⟩
  · intro p t hp ht hone
    change p ∈ m.expired now at hp
    rw [hmem p, hheap p, if_pos hp, ht, hrec p t ht, hone]
    refine ⟨fun h => Bool.false_ne_true (h.2 hp), ?_⟩
    rw [Option.map_some, Timer.fired, hone]
    rfl
  · intro p t hp ht hmany
    change p ∈ m.expired now at hp
    rw [hmem p, hheap p, if_pos hp, ht, hrec p t ht, hmany]
    refine ⟨⟨(mem_expired.mp hp).1, fun _ => rfl⟩, ?_⟩
    rw [Option.map_some, Timer.fired, if_pos hmany, hmany]
  · intro p hp
    change p ∉ m.expired now at hp
    rw [hmem p, hheap p, if_neg hp]
    exact ⟨and_iff_left fun hp' => absurd hp' hp, rfl⟩
  · intro p hp
    obtain ⟨hmem, -⟩ := mem_expired.mp hp
    obtain ⟨t, ht⟩ := Option.ne_none_iff_exists'.mp (hsound.heap p hmem)
    exact (hagrees.pending p t (table_eq_some.mpr ⟨ht, decide_eq_true hmem⟩)).1

/-- Three timers; the first fires, the second fires twice, the third is cancelled, and
a fourth has the address of the first. -/
theorem listExpiredCb_exact_reused :
    ∃ s, (machine 0).Reachable (fun _ _ => True) s ∧ s.returned = [0, 1, 1] ∧
      s.cancelled = [2] ∧ s.serial 5 = 3 ∧ s.oneShot 0 = true ∧ s.returned.count 0 ≤ 1 := by
  obtain ⟨s, h, hs⟩ : ∃ s, (machine 0).Reachable (fun _ _ => True) s ∧
      s.returned = [0, 1, 1] ∧ s.cancelled = [2] ∧ s.serial 5 = 3 ∧ s.oneShot 0 = true :=
    Lib.Machine.exists_of_exec
      [.addTimer 5 10 (some (.fn 0)) false 0, .addTimer 7 10 (some (.fn 1)) true 0,
        .addTimer 9 10 (some (.fn 2)) false 0, .cancel 9, .listExpiredCb 10 8, .release 5,
        .addTimer 5 40 (some (.fn 3)) false 10, .listExpiredCb 20 8]
      (by decide)
  obtain ⟨m, -, -, -, honce⟩ := listExpiredCb_exact h
  exact ⟨s, h, hs.1, hs.2.1, hs.2.2.1, hs.2.2.2, honce 0 hs.2.2.2⟩

end Log

end TimerManager

end Skt
