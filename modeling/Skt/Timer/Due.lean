import Skt.Timer.Table
import Skt.Timer.Tickled

/-!
# When timers fire

Beside the manager, the deadline of every timer is kept as a number without a bound,
together with the readings of the clock. The `m_next` of a timer is its deadline as long
as the sums stay below 2^64, and then a timer fires when its deadline has come; a reading
that counts as a rollover fires all timers.
-/

namespace Skt

open Lib

namespace TimerManager

open Timer

/-- The clock reading of a call. -/
def Label.reading : Label → Option ℕ
  | .addTimer _ _ _ _ now => some now
  | .addConditionTimer _ _ _ _ _ now => some now
  | .refresh _ now => some now
  | .reset _ _ _ now => some now
  | .getNextTimer now => some now
  | .listExpiredCb now _ => some now
  | .cancel _ => none
  | .release _ => none

/-- The interval a call is given. -/
def Label.interval : Label → ℕ
  | .addTimer _ ms _ _ _ => ms
  | .addConditionTimer _ ms _ _ _ _ => ms
  | .reset _ ms _ _ => ms
  | _ => 0

/-! ## Deadlines -/

namespace Table

/-- The deadline of the timer at `p` changes if the timer has a callback. -/
def rearmAt (A : Table) (d : ℕ → ℕ) (p : ℕ) (deadline : Timer → ℕ) : ℕ → ℕ :=
  Function.update d p
    (match A p with
     | some s => if s.1.cb.isSome then deadline s.1 else d p
     | none => d p)

/-- The deadlines after a call. -/
def rearm (A : Table) (rollover : ℕ → Bool) (d : ℕ → ℕ) : Label → ℕ → ℕ
  | .addTimer p ms _ _ now => Function.update d p (now + ms)
  | .addConditionTimer p ms _ _ _ now => Function.update d p (now + ms)
  | .refresh p now => A.rearmAt d p fun t => now + t.ms
  | .reset p ms fromNow now =>
      A.rearmAt d p fun t => (if fromNow then now else d p - t.ms) + ms
  | .listExpiredCb now _ => fun p =>
      match A p with
      | some s =>
          if s.2 && (rollover now || decide (s.1.next ≤ now)) then now + s.1.ms else d p
      | none => d p
  | _ => d

/-- A call gives a timer a deadline. -/
inductive Arms (A : Table) (rollover : ℕ → Bool) (d : ℕ → ℕ) : Label → Timer → ℕ → Prop
  | add (p ms : ℕ) (cb : Option Callback) (recurring : Bool) (now : ℕ) :
      Arms A rollover d (.addTimer p ms cb recurring now) (Timer.make ms cb recurring now)
        (now + ms)
  | addCondition (p ms cond c : ℕ) (recurring : Bool) (now : ℕ) :
      Arms A rollover d (.addConditionTimer p ms cond c recurring now)
        (Timer.make ms (some (.onTimer cond c)) recurring now) (now + ms)
  | refresh {p : ℕ} {t : Timer} (now : ℕ) : A p = some (t, true) →
      Arms A rollover d (.refresh p now) { t with next := u64 (now + t.ms) } (now + t.ms)
  | reset {p : ℕ} {t : Timer} (ms : ℕ) (fromNow : Bool) (now : ℕ) : A p = some (t, true) →
      Arms A rollover d (.reset p ms fromNow now)
        { t with ms, next := resetNext t ms fromNow now }
        ((if fromNow then now else d p - t.ms) + ms)
  | expire {p : ℕ} {t : Timer} (now q : ℕ) : A p = some (t, true) → t.recurring = true →
      (rollover now || decide (t.next ≤ now)) = true →
      Arms A rollover d (.listExpiredCb now q) { t with next := u64 (now + t.ms) } (now + t.ms)

variable {A : Table} {d : ℕ → ℕ} {I I' : Timer → ℕ → Prop}

theorem pending_update (h : ∀ p t, A p = some (t, true) → I t (d p)) {p : ℕ} {t : Timer}
    {n : ℕ} (hmono : ∀ t n, I t n → I' t n) (harm : I' t n) (q : ℕ) (t' : Timer)
    (ht' : Function.update A p (some (t, true)) q = some (t', true)) :
    I' t' (Function.update d p n q) := by
  by_cases hq : q = p
  · subst hq
    rw [Function.update_self] at ht' ⊢
    cases ht'
    exact harm
  · rw [Function.update_of_ne hq] at ht' ⊢
    exact hmono _ _ (h q t' ht')

theorem pending_act (h : ∀ p t, A p = some (t, true) → I t (d p)) {p : ℕ}
    {f : Timer → Timer × Bool} {deadline : Timer → ℕ}
    (hlive : ∀ x, A p = some x → x.1.cb.isSome = true → x.2 = true)
    (hmono : ∀ t n, I t n → I' t n)
    (harm : ∀ t, A p = some (t, true) → (f t).2 = true → I' (f t).1 (deadline t)) (q : ℕ)
    (t' : Timer) (ht' : A.act p f q = some (t', true)) :
    I' t' (A.rearmAt d p deadline q) := by
  by_cases hq : q = p
  · subst hq
    rw [act, Function.update_self] at ht'
    obtain ⟨⟨t, b⟩, hx, hy⟩ := Option.map_eq_some_iff.mp ht'
    rw [rearmAt, Function.update_self, hx]
    dsimp only at hy ⊢
    split at hy
    case isTrue hcb =>
      obtain rfl : b = true := hlive _ hx hcb
      rw [if_pos hcb]
      have harm := harm t hx (by rw [hy])
      rwa [hy] at harm
    case isFalse hcb =>
      cases hy
      rw [if_neg hcb]
      exact hmono _ _ (h q t' hx)
  · rw [act, Function.update_of_ne hq] at ht'
    rw [rearmAt, Function.update_of_ne hq]
    exact hmono _ _ (h q t' ht')

/-- What holds for every pending timer and its deadline holds after a call, if it holds
for what the call arms. -/
theorem pending_call (h : ∀ p t, A p = some (t, true) → I t (d p)) {rollover : ℕ → Bool}
    {l : Label} (hlive : ∀ p x, A p = some x → x.1.cb.isSome = true → x.2 = true)
    (hmono : ∀ t n, I t n → I' t n) (harm : ∀ t n, Arms A rollover d l t n → I' t n) (q : ℕ)
    (t' : Timer) (ht' : A.call rollover l q = some (t', true)) :
    I' t' (A.rearm rollover d l q) := by
  cases l with
  | addTimer p ms cb recurring now =>
      exact pending_update h hmono (harm _ _ (.add p ms cb recurring now)) q t' ht'
  | addConditionTimer p ms cond c recurring now =>
      exact pending_update h hmono (harm _ _ (.addCondition p ms cond c recurring now)) q t'
        ht'
  | cancel p =>
      by_cases hq : q = p
      · subst hq
        rw [call, act, Function.update_self] at ht'
        obtain ⟨⟨t, b⟩, hx, hy⟩ := Option.map_eq_some_iff.mp ht'
        split at hy
        · cases hy
        · cases hy
          exact hmono _ _ (h q t' hx)
      · rw [call, act, Function.update_of_ne hq] at ht'
        exact hmono _ _ (h q t' ht')
  | refresh p now =>
      rw [call] at ht'
      exact pending_act h (hlive p) hmono (fun t ht _ => harm _ _ (.refresh now ht)) q t' ht'
  | reset p ms fromNow now =>
      rw [call] at ht'
      exact pending_act h (hlive p) hmono
        (fun t ht _ => harm _ _ (.reset ms fromNow now ht)) q t' ht'
  | getNextTimer now => exact hmono _ _ (h q t' ht')
  | listExpiredCb now probe =>
      obtain ⟨⟨t, b⟩, hx, hy⟩ := Option.map_eq_some_iff.mp ht'
      simp only [rearm, hx]
      split at hy
      case isTrue hdue =>
        obtain ⟨rfl, hnext⟩ := Bool.and_eq_true_iff.mp hdue
        rw [Prod.mk.injEq, fired] at hy
        rw [if_pos hy.2] at hy
        rw [if_pos hdue, ← hy.1]
        exact harm _ _ (.expire now probe hx hy.2 hnext)
      case isFalse hdue =>
        cases hy
        rw [if_neg hdue]
        exact hmono _ _ (h q t' hx)
  | release p =>
      by_cases hq : q = p
      · subst hq
        rw [call, Function.update_self] at ht'
        cases ht'
      · rw [call, Function.update_of_ne hq] at ht'
        exact hmono _ _ (h q t' ht')

end Table

/-- No sum that a call makes a deadline of reaches 2^64. -/
def Fits (m : TimerManager) : Label → Prop
  | .addTimer _ ms _ _ now => now + ms < 2 ^ 64
  | .addConditionTimer _ ms _ _ _ now => now + ms < 2 ^ 64
  | .refresh p now => p ∈ m.timers → ∀ t ∈ m.heap p, now + t.ms < 2 ^ 64
  | .reset p ms fromNow now => p ∈ m.timers → ∀ t ∈ m.heap p,
      (if fromNow then now else t.next - t.ms) + ms < 2 ^ 64
  | .listExpiredCb now _ => ∀ p ∈ m.expired now, ∀ t ∈ m.heap p, t.recurring = true →
      now + t.ms < 2 ^ 64
  | .cancel _ | .getNextTimer _ | .release _ => True

instance (m : TimerManager) : DecidablePred m.Fits := by
  rintro (_ | _ | _ | _ | _ | _ | _ | _) <;> unfold Fits <;> infer_instance

/-- `m_next` is the deadline. -/
structure Exact (t : Timer) (n : ℕ) : Prop where
  next : t.next = n
  lt : n < 2 ^ 64
  le : t.ms ≤ n

theorem Exact.of_sum {t : Timer} {start : ℕ} (hsum : start + t.ms < 2 ^ 64)
    (hnext : t.next = u64 (start + t.ms)) : Exact t (start + t.ms) :=
  ⟨hnext.trans (u64_eq hsum), hsum, Nat.le_add_left _ _⟩

theorem resetNext_exact {t : Timer} {n : ℕ} (h : Exact t n) (ms : ℕ) (fromNow : Bool)
    (now : ℕ) :
    resetNext t ms fromNow now = u64 ((if fromNow then now else n - t.ms) + ms) := by
  obtain ⟨rfl, hlt, hle⟩ := h
  have hsub : u64 (t.next + 2 ^ 64 - t.ms) = t.next - t.ms := by
    unfold u64
    omega
  rw [resetNext, hsub]

theorem exact_of_arms {m : TimerManager} {d : ℕ → ℕ}
    (h : ∀ p t, m.table p = some (t, true) → Exact t (d p)) {l : Label} (hfits : m.Fits l)
    {t : Timer} {n : ℕ}
    (harms : m.table.Arms (fun now => (m.detectClockRollover now).2) d l t n) :
    Exact t n := by
  cases harms with
  | add p ms cb recurring now => exact .of_sum (t := Timer.make ms cb recurring now) hfits rfl
  | addCondition p ms cond c recurring now =>
      exact .of_sum (t := Timer.make ms (some (.onTimer cond c)) recurring now) hfits rfl
  | @refresh p t now ht =>
      obtain ⟨hheap, hmem⟩ := table_eq_some.mp ht
      exact .of_sum (t := { t with next := u64 (now + t.ms) })
        (hfits (of_decide_eq_true hmem) t hheap) rfl
  | @reset p t ms fromNow now ht =>
      obtain ⟨hheap, hmem⟩ := table_eq_some.mp ht
      have hfits := hfits (of_decide_eq_true hmem) t hheap
      rw [(h p t ht).next] at hfits
      exact .of_sum (t := { t with ms, next := resetNext t ms fromNow now }) hfits
        (resetNext_exact (h p t ht) ms fromNow now)
  | @expire p t now q ht hrec hdue =>
      obtain ⟨hheap, hmem⟩ := table_eq_some.mp ht
      have hexpired : p ∈ m.expired now := by
        refine mem_expired.mpr ⟨of_decide_eq_true hmem, ?_⟩
        rw [due, next, hheap]
        exact hdue
      exact .of_sum (t := { t with next := u64 (now + t.ms) }) (hfits p hexpired t hheap hrec)
        rfl

/-! ## The machine -/

/-- `clock` is the last reading, `last` the last one of `listExpiredCb` or that of the
constructor. -/
structure Watched where
  manager : Option TimerManager
  clock : ℕ
  last : ℕ
  deadline : ℕ → ℕ

namespace Watched

def machine (now : ℕ) : Lib.Machine Watched Label where
  start := ⟨(TimerManager.machine now).start, now, now, fun _ => 0⟩
  step s l := s.manager.bind fun m => (m.call l).map fun m' =>
    { manager := m'
      clock := l.reading.getD s.clock
      last := match l with
        | .listExpiredCb now _ => now
        | _ => s.last
      deadline := m.table.rearm (fun now => (m.detectClockRollover now).2) s.deadline l }

variable {s s' : Watched} {m : TimerManager}

theorem step_eq {now : ℕ} {l : Label} (hm : s.manager = some m)
    (hsound : m.Sound (· ∈ m.timers)) (hstep : (machine now).step s l = some s') :
    ∃ m', s'.manager = some m' ∧ Called m l m' ∧ s'.clock = l.reading.getD s.clock ∧
      s'.deadline =
        m.table.rearm (fun now => (m.detectClockRollover now).2) s.deadline l := by
  simp only [machine, hm, Option.bind_some] at hstep
  obtain ⟨r, hcall, rfl⟩ := Option.map_eq_some_iff.mp hstep
  obtain ⟨m', rfl, hcalled⟩ := call_called hsound hcall
  exact ⟨m', rfl, hcalled, rfl, rfl⟩

/-! ## Never early -/

/-- The step makes no sum of 2^64 or more, and if `listExpiredCb` reads an earlier time
than `m_previouseTime`, then `m_previouseTime` is an hour after zero or more and the
reading at most an hour before it, or the reading is more than an hour before the last
one. -/
def Sane (s : Watched) (l : Label) : Prop :=
  ∀ m ∈ s.manager, m.Fits l ∧
    match l with
    | .listExpiredCb now _ =>
        m.previouseTime ≤ now ∨
        3600000 ≤ m.previouseTime ∧ m.previouseTime ≤ now + 3600000 ∨
        now + 3600000 < s.last
    | _ => True

instance (s : Watched) : DecidablePred s.Sane := by
  rintro (_ | _ | _ | _ | _ | _ | _ | _) <;> unfold Sane <;> infer_instance

theorem rollover_eq_false {now : ℕ} (h : m.previouseTime ≤ now ∨
    3600000 ≤ m.previouseTime ∧ m.previouseTime ≤ now + 3600000) :
    (m.detectClockRollover now).2 = false := by
  refine decide_eq_false ?_
  rintro ⟨hbefore, hhour⟩
  unfold u64 at hhour
  rcases h with h | h
  · omega
  · omega

/-- Every pending timer's `m_next` is its deadline. -/
def Kept (s : Watched) (m : TimerManager) : Prop :=
  ∀ p t, m.table p = some (t, true) → Exact t (s.deadline p)

theorem Kept.next_eq (h : s.Kept m) (hsound : m.Sound (· ∈ m.timers)) {p : ℕ}
    (hp : p ∈ m.timers) : m.next p = s.deadline p := by
  obtain ⟨t, ht⟩ := Option.ne_none_iff_exists'.mp (hsound.heap p hp)
  have hexact := h p t (table_eq_some.mpr ⟨ht, decide_eq_true hp⟩)
  rw [next, ht]
  exact hexact.next

theorem step_kept {now : ℕ} {l : Label} (hm : s.manager = some m)
    (hsound : m.Sound (· ∈ m.timers)) (h : s.Kept m) (hfits : m.Fits l)
    (hstep : (machine now).step s l = some s') :
    ∃ m', s'.manager = some m' ∧ m'.Sound (· ∈ m'.timers) ∧ s'.Kept m' := by
  obtain ⟨m', hm', hcalled, -, hdeadline⟩ := step_eq hm hsound hstep
  refine ⟨m', hm', hcalled.sound, ?_⟩
  intro p t ht
  rw [hcalled.table] at ht
  rw [hdeadline]
  exact Table.pending_call h hsound.live_pending (fun _ _ hexact => hexact)
    (fun _ _ harms => exact_of_arms h hfits harms) p t ht

theorem start_kept {now : ℕ} {d : ℕ → ℕ} {c l : ℕ} {n : Option TimerManager} :
    (⟨n, c, l, d⟩ : Watched).Kept ⟨fun _ => none, [], false, now⟩ :=
  fun p t ht => by cases ht

/-- **Never early.** In every run whose steps make no sum of 2^64 or more and in which
no reading passes for a rollover that is not one: `listExpiredCb` returns the callbacks
of timers whose deadline has come, unless it reads a time more than an hour before the
reading before. -/
theorem never_early {now₀ : ℕ} (h : (machine now₀).Reachable Sane s) :
    ∃ m, s.manager = some m ∧ ∀ now q, m.heap q = none → s.Sane (.listExpiredCb now q) →
      (m.listExpiredCb now q).2 = (m.expired now).map m.cb ∧
      ∀ p ∈ m.expired now, s.deadline p ≤ now ∨ now + 3600000 < s.last := by
  have hinv : ∃ m, s.manager = some m ∧ m.Sound (· ∈ m.timers) ∧ s.Kept m := by
    apply h.invariant
    · exact ⟨_, rfl, start_sound now₀, start_kept⟩
    · rintro s s' l ⟨m, hm, hsound, hkept⟩ hsane hstep
      exact step_kept hm hsound hkept (hsane m hm).1 hstep
  obtain ⟨m, hm, hsound, hkept⟩ := hinv
  refine ⟨m, hm, fun now q hq hsane => ⟨(listExpiredCb_expires hsound now hq).cbs, ?_⟩⟩
  intro p hp
  obtain ⟨hmem, hdue⟩ := mem_expired.mp hp
  have hclock := (hsane m hm).2
  dsimp only at hclock
  rw [← or_assoc] at hclock
  rcases hclock with hclock | hhour
  · rw [due, rollover_eq_false hclock, Bool.false_or, decide_eq_true_iff,
      hkept.next_eq hsound hmem] at hdue
    exact Or.inl hdue
  · exact Or.inr hhour

/-- A timer of 10 ms and one of 2^63, and the first has fired. -/
theorem never_early_ten :
    ∃ s m, (machine 5).Reachable Sane s ∧ s.manager = some m ∧ m.timers = [3] ∧
      s.deadline 3 = 5 + 2 ^ 63 ∧ 3 ∉ m.expired 100 := by
  obtain ⟨s, h, hs⟩ : ∃ s, (machine 5).Reachable Sane s ∧
      s.deadline 3 = 5 + 2 ^ 63 ∧ s.last = 15 ∧ s.Sane (.listExpiredCb 100 9) ∧
      s.manager.any (fun m => m.timers = [3] ∧ m.heap 9 = none) = true :=
    Lib.Machine.exists_of_exec
      [.addTimer 7 10 (some (.fn 0)) false 5, .addTimer 3 (2 ^ 63) (some (.fn 1)) true 5,
        .listExpiredCb 15 9]
      (by decide)
  obtain ⟨m, hm, hearly⟩ := never_early h
  obtain ⟨hdeadline, hlast, hsane, hs⟩ := hs
  rw [hm] at hs
  obtain ⟨htimers, hq⟩ := of_decide_eq_true hs
  refine ⟨s, m, h, hm, htimers, hdeadline, fun hp => ?_⟩
  have hdue := (hearly 100 9 hq hsane).2 3 hp
  rw [hdeadline, hlast] at hdue
  omega

/-- A timer is returned before its time, and the clock has not gone back by more than
an hour since it was read before: its deadline is 2^64 or more; or the clock is at less
than an hour and has gone back by 1 ms; or the reading before was not kept, because there
were no timers. -/
theorem early :
    (∃ s m, (machine 1).Reachable (fun _ _ => True) s ∧ s.manager = some m ∧
      7 ∈ m.expired 1 ∧ s.deadline 7 = 2 ^ 64 ∧ s.last = 1) ∧
    (∃ s m, (machine 1000).Reachable (fun _ _ => True) s ∧ s.manager = some m ∧
      7 ∈ m.expired 999 ∧ s.deadline 7 = 1100 ∧ s.last = 1000) ∧
    ∃ s m, (machine 10000000).Reachable (fun _ _ => True) s ∧ s.manager = some m ∧
      7 ∈ m.expired 5000000 ∧ s.deadline 7 = 5000100 ∧ s.last = 5000000 := by
  refine ⟨?_, ?_, ?_⟩
  · obtain ⟨s, h, hs⟩ : ∃ s, (machine 1).Reachable (fun _ _ => True) s ∧
        s.manager.any (fun m => 7 ∈ m.expired 1) = true ∧ s.deadline 7 = 2 ^ 64 ∧
        s.last = 1 :=
      Lib.Machine.exists_of_exec [.addTimer 7 (2 ^ 64 - 1) (some (.fn 0)) false 1]
        (by decide)
    obtain ⟨m, hm, hexpired⟩ := (Option.any_eq_true _ _).mp hs.1
    exact ⟨s, m, h, hm, of_decide_eq_true hexpired, hs.2⟩
  · obtain ⟨s, h, hs⟩ : ∃ s, (machine 1000).Reachable (fun _ _ => True) s ∧
        s.manager.any (fun m => 7 ∈ m.expired 999) = true ∧ s.deadline 7 = 1100 ∧
        s.last = 1000 :=
      Lib.Machine.exists_of_exec [.addTimer 7 100 (some (.fn 0)) false 1000]
        (by decide)
    obtain ⟨m, hm, hexpired⟩ := (Option.any_eq_true _ _).mp hs.1
    exact ⟨s, m, h, hm, of_decide_eq_true hexpired, hs.2⟩
  · obtain ⟨s, h, hs⟩ : ∃ s, (machine 10000000).Reachable (fun _ _ => True) s ∧
        s.manager.any (fun m => 7 ∈ m.expired 5000000) = true ∧ s.deadline 7 = 5000100 ∧
        s.last = 5000000 :=
      Lib.Machine.exists_of_exec
        [.listExpiredCb 5000000 9, .addTimer 7 100 (some (.fn 0)) false 5000000] (by decide)
    obtain ⟨m, hm, hexpired⟩ := (Option.any_eq_true _ _).mp hs.1
    exact ⟨s, m, h, hm, of_decide_eq_true hexpired, hs.2⟩

/-! ## The next timer -/

/-- The clock does not go back and is below 2^63, and so are the intervals. -/
def Steady (s : Watched) (l : Label) : Prop :=
  (∀ now ∈ l.reading, s.clock ≤ now ∧ now < 2 ^ 63) ∧ l.interval < 2 ^ 63

instance (s : Watched) (l : Label) : Decidable (s.Steady l) :=
  inferInstanceAs (Decidable (_ ∧ _))

/-- The timer was armed at a moment that has passed. -/
structure Punctual (clock : ℕ) (t : Timer) (n : ℕ) : Prop extends Exact t n where
  start : n ≤ clock + t.ms
  ms : t.ms < 2 ^ 63

theorem Punctual.of_sum {clock start : ℕ} {t : Timer} (hclock : clock < 2 ^ 63)
    (hstart : start ≤ clock) (hms : t.ms < 2 ^ 63) (hnext : t.next = u64 (start + t.ms)) :
    Punctual clock t (start + t.ms) :=
  ⟨.of_sum (by omega) hnext, by omega, hms⟩

theorem punctual_of_arms {A : Table} (h : ∀ p t, A p = some (t, true) →
    Punctual s.clock t (s.deadline p)) {l : Label} (hsteady : s.Steady l) {t : Timer} {n : ℕ}
    {rollover : ℕ → Bool} (harms : A.Arms rollover s.deadline l t n) : Punctual (l.reading.getD s.clock) t n := by
  obtain ⟨hreading, hms⟩ := hsteady
  cases harms with
  | add p ms cb recurring now =>
      exact .of_sum (t := Timer.make ms cb recurring now) (hreading now rfl).2 le_rfl hms rfl
  | addCondition p ms cond c recurring now =>
      exact .of_sum (t := Timer.make ms (some (.onTimer cond c)) recurring now)
        (hreading now rfl).2 le_rfl hms rfl
  | @refresh p t now ht =>
      exact .of_sum (t := { t with next := u64 (now + t.ms) }) (hreading now rfl).2 le_rfl
        (h p t ht).ms rfl
  | @reset p t ms fromNow now ht =>
      have hclock := hreading now rfl
      have hstart := (h p t ht).start
      have hle : (if fromNow then now else s.deadline p - t.ms) ≤ now := by
        split
        · exact le_rfl
        · omega
      exact .of_sum (t := { t with ms, next := resetNext t ms fromNow now }) hclock.2 hle hms
        (resetNext_exact (h p t ht).toExact ms fromNow now)
  | @expire p t now q ht =>
      exact .of_sum (t := { t with next := u64 (now + t.ms) }) (hreading now rfl).2 le_rfl
        (h p t ht).ms rfl

/-- What holds as long as the clock is steady. -/
structure OnTime (s : Watched) (m : TimerManager) : Prop where
  sound : m.Sound (· ∈ m.timers)
  punctual : ∀ p t, m.table p = some (t, true) → Punctual s.clock t (s.deadline p)
  clock : s.clock < 2 ^ 63
  previouseTime : m.previouseTime ≤ s.clock

theorem step_onTime {now : ℕ} {l : Label} (hm : s.manager = some m) (h : s.OnTime m)
    (hsteady : s.Steady l) (hstep : (machine now).step s l = some s') :
    ∃ m', s'.manager = some m' ∧ s'.OnTime m' := by
  obtain ⟨m', hm', hcalled, hclock, hdeadline⟩ := step_eq hm h.sound hstep
  have hle : s.clock ≤ s'.clock := by
    rw [hclock]
    cases hl : l.reading with
    | none => exact le_rfl
    | some now => exact (hsteady.1 now hl).1
  refine ⟨m', hm', hcalled.sound, ?_, ?_, ?_⟩
  · intro p t ht
    rw [hcalled.table] at ht
    rw [hdeadline]
    refine Table.pending_call h.punctual h.sound.live_pending ?_ ?_ p t ht
    · exact fun t n ht => ⟨ht.toExact, ht.start.trans (by omega), ht.ms⟩
    · rw [hclock]
      exact fun t n harms => punctual_of_arms h.punctual hsteady harms
  · rw [hclock]
    cases hl : l.reading with
    | none => exact h.clock
    | some now => exact (hsteady.1 now hl).2
  · rw [hcalled.previouseTime]
    cases l with
    | listExpiredCb now q =>
        rw [looked]
        split
        · exact h.previouseTime.trans hle
        · rw [hclock]
          exact le_rfl
    | _ => exact h.previouseTime.trans hle

theorem reachable_onTime {now₀ : ℕ} (hnow : now₀ < 2 ^ 63)
    (h : (machine now₀).Reachable Steady s) : ∃ m, s.manager = some m ∧ s.OnTime m := by
  apply h.invariant
  · exact ⟨_, rfl, start_sound now₀, fun p t ht => (by cases ht), hnow, le_rfl⟩
  · rintro s s' l ⟨m, hm, hontime⟩ hsteady hstep
    exact step_onTime hm hontime hsteady hstep

/-- Without a rollover, the first timer decides whether there is anything to return. -/
theorem expired_eq_nil_iff (hsound : m.Sound (· ∈ m.timers)) {front : ℕ} {rest : List ℕ}
    (htimers : m.timers = front :: rest) {now : ℕ}
    (hrollover : (m.detectClockRollover now).2 = false) :
    m.expired now = [] ↔ now < m.next front := by
  have hfront : front ∈ m.timers := by
    rw [htimers]
    exact List.mem_cons_self
  have hordered := hsound.ordered
  rw [htimers] at hordered
  constructor
  · intro hnil
    by_contra hle
    have hmem : front ∈ m.expired now := by
      refine mem_expired.mpr ⟨hfront, ?_⟩
      rw [due, hrollover, Bool.false_or, decide_eq_true_iff]
      omega
    rw [hnil] at hmem
    cases hmem
  · intro hlt
    refine List.eq_nil_iff_forall_not_mem.mpr fun p hp => ?_
    obtain ⟨hmem, hdue⟩ := mem_expired.mp hp
    rw [due, hrollover, Bool.false_or, decide_eq_true_iff] at hdue
    rw [htimers] at hmem
    rcases List.mem_cons.mp hmem with rfl | hmem
    · omega
    · have := before_iff.mp ((List.pairwise_cons.mp hordered).1 p hmem)
      omega

/-- **The next timer.** In every run with a clock that does not go back, where readings
and intervals are below 2^63: `getNextTimer` returns `~0ull` just if there are no
timers, and otherwise the time after which `listExpiredCb` returns a callback, and before
which it returns none. -/
theorem getNextTimer_exact {now₀ : ℕ} (hnow : now₀ < 2 ^ 63)
    (h : (machine now₀).Reachable Steady s) :
    ∃ m, s.manager = some m ∧ ∀ t, s.clock ≤ t → t < 2 ^ 63 →
      ((m.getNextTimer t).2 = 2 ^ 64 - 1 ↔ m.timers = []) ∧
      (m.timers ≠ [] → ∀ t' q, t ≤ t' → m.heap q = none →
        (t' < t + (m.getNextTimer t).2 →
          ((m.getNextTimer t).1.listExpiredCb t' q).2 = []) ∧
        (t + (m.getNextTimer t).2 ≤ t' →
          ((m.getNextTimer t).1.listExpiredCb t' q).2 ≠ [])) := by
  obtain ⟨m, hm, hontime⟩ := reachable_onTime hnow h
  refine ⟨m, hm, fun t hclock ht => ?_⟩
  cases htimers : m.timers with
  | nil =>
      refine ⟨iff_of_true ?_ rfl, fun hne => absurd rfl hne⟩
      rw [getNextTimer, htimers]
  | cons front rest =>
      have hfront : front ∈ m.timers := by
        rw [htimers]
        exact List.mem_cons_self
      obtain ⟨timer, htimer⟩ := Option.ne_none_iff_exists'.mp (hontime.sound.heap front hfront)
      have hpunctual := hontime.punctual front timer
        (table_eq_some.mpr ⟨htimer, decide_eq_true hfront⟩)
      have hnext : m.next front = s.deadline front := by
        rw [next, htimer]
        exact hpunctual.next
      have hstart := hpunctual.start
      have hms := hpunctual.ms
      have hclock' := hontime.clock
      have hd : (m.getNextTimer t).2 = if t > m.next front then 0 else m.next front - t := by
        rw [getNextTimer, htimers]
      refine ⟨iff_of_false ?_ (List.cons_ne_nil _ _), fun _ t' q ht' hq => ?_⟩
      · rw [hd]
        split <;> omega
      · -- `m_tickled` is not looked at.
        have hsound : (m.getNextTimer t).1.Sound (· ∈ (m.getNextTimer t).1.timers) :=
          ⟨⟨hontime.sound.ordered, hontime.sound.mem⟩, hontime.sound.live, hontime.sound.heap⟩
        have hprev := hontime.previouseTime
        have hrollover : ((m.getNextTimer t).1.detectClockRollover t').2 = false :=
          rollover_eq_false (Or.inl (hprev.trans (hclock.trans ht')))
        have hnil := expired_eq_nil_iff hsound htimers hrollover
        have hfirst : (m.getNextTimer t).1.next front = m.next front := rfl
        rw [hfirst] at hnil
        rw [(listExpiredCb_expires hsound t' hq).cbs, hd, ne_eq, List.map_eq_nil_iff, hnil]
        constructor
        · intro hlt
          split at hlt <;> omega
        · intro hle
          split at hle <;> omega

/-- With timers for 10 and 30, at 12 there is nothing until 30. -/
theorem getNextTimer_exact_thirty :
    ∃ s m, (machine 0).Reachable Steady s ∧ s.manager = some m ∧ m.timers = [3] ∧
      (m.getNextTimer 12).2 = 18 ∧ ((m.getNextTimer 12).1.listExpiredCb 29 9).2 = [] ∧
      ((m.getNextTimer 12).1.listExpiredCb 30 9).2 ≠ [] := by
  obtain ⟨s, h, hs⟩ : ∃ s, (machine 0).Reachable Steady s ∧ s.clock = 11 ∧
      s.manager.any (fun m => m.timers = [3] ∧ m.heap 9 = none ∧
        (m.getNextTimer 12).2 = 18) = true :=
    Lib.Machine.exists_of_exec
      [.addTimer 7 10 (some (.fn 0)) false 0, .addTimer 3 30 (some (.fn 1)) true 0,
        .listExpiredCb 11 9]
      (by decide)
  obtain ⟨m, hm, hexact⟩ := getNextTimer_exact (by decide) h
  obtain ⟨hclock, hs⟩ := hs
  rw [hm] at hs
  obtain ⟨htimers, hq, hd⟩ := of_decide_eq_true hs
  have hne : m.timers ≠ [] := by
    rw [htimers]
    exact List.cons_ne_nil _ _
  have hexact := (hexact 12 (by omega) (by decide)).2 hne
  refine ⟨s, m, h, hm, htimers, hd, ?_, ?_⟩
  · exact (hexact 29 9 (by decide) hq).1 (by omega)
  · exact (hexact 30 9 (by decide) hq).2 (by omega)

end Watched

end TimerManager

/-! ## The timeout of `epoll_wait` -/

theorem epollTimeout_eq_min {n : ℕ} :
    epollTimeout n = min 3000 (n : ℤ) ↔
      n ≤ 3000 ∨ n = 2 ^ 64 - 1 ∨ 3000 ≤ n % 2 ^ 32 ∧ n % 2 ^ 32 < 2 ^ 31 := by
  unfold epollTimeout CString.toInt32
  rw [Int.bmod_def]
  split_ifs <;> omega

/-- **The timeout.** `epoll_wait` is given the time to the next timer, or 3000 if that is
less, just if there is no timer, or the time to the first one is up to 3000, or is such
that its low 32 bits, as an `int`, are 3000 or more, or is the largest number there is. -/
theorem epollTimeout_getNextTimer_iff (m : TimerManager) (now : ℕ) :
    epollTimeout (m.getNextTimer now).2 = min 3000 ((m.getNextTimer now).2 : ℤ) ↔
      ∀ front ∈ m.timers.head?, m.next front - now ≤ 3000 ∨
        m.next front - now = 2 ^ 64 - 1 ∨
        3000 ≤ (m.next front - now) % 2 ^ 32 ∧ (m.next front - now) % 2 ^ 32 < 2 ^ 31 := by
  rw [epollTimeout_eq_min]
  cases htimers : m.timers with
  | nil =>
      refine iff_of_true (Or.inr (Or.inl ?_)) fun front hfront => by cases hfront
      rw [TimerManager.getNextTimer, htimers]
  | cons front rest =>
      have hd : (m.getNextTimer now).2 = m.next front - now := by
        rw [TimerManager.getNextTimer, htimers]
        dsimp only
        split
        · omega
        · rfl
      rw [hd, List.head?_cons]
      constructor
      · rintro h _ ⟨⟩
        exact h
      · exact fun h => h front rfl

/-- With a timer in 2^31 ms, the timeout is negative. -/
theorem epollTimeout_negative :
    ∃ m, (TimerManager.machine 0).Reachable (fun _ _ => True) (some m) ∧
      (m.getNextTimer 0).2 = 2 ^ 31 ∧ epollTimeout (m.getNextTimer 0).2 = -2 ^ 31 := by
  obtain ⟨s, h, hs⟩ : ∃ s, (TimerManager.machine 0).Reachable (fun _ _ => True) s ∧
      s.any (fun m => (m.getNextTimer 0).2 = 2 ^ 31) = true :=
    Lib.Machine.exists_of_exec [.addTimer 7 (2 ^ 31) (some (.fn 0)) false 0]
      (by decide)
  obtain ⟨m, rfl, hm⟩ := (Option.any_eq_true _ _).mp hs
  have hd := of_decide_eq_true hm
  refine ⟨m, h, hd, ?_⟩
  rw [hd]
  decide

end Skt
