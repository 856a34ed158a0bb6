import Skt.Timer.Idle

/-!
# `m_tickled` suppresses no wake-up

A thread that inserts a timer at the front calls `tickle` only if `m_tickled` is not
set. If it is set, someone has set it since a worker last asked for the next timer, and
that one's byte is still in the pipe, or its `tickle` is still to come, or a worker is
on its way to ask again.
-/

namespace Skt

open Lib

namespace TimerManager

open Timer

/-! ## Times -/

theorem u64_eq {n : ℕ} (h : n < 2 ^ 64) : u64 n = n := Nat.mod_eq_of_lt h

/-- The interval is below 2^31, and was counted from a moment that has passed. -/
structure OnTime (now : ℕ) (t : Timer) : Prop where
  ms : t.ms < 2 ^ 31
  le : t.ms ≤ t.next
  start : t.next ≤ now + t.ms

def Timely (now : ℕ) (m : TimerManager) : Prop := ∀ p t, m.heap p = some t → OnTime now t

variable {now : ℕ} {m : TimerManager}

theorem OnTime.since {reading : ℕ} {t : Timer} (hnow : now + 2 ^ 31 ≤ 2 ^ 64)
    (hreading : reading ≤ now) (hms : t.ms < 2 ^ 31) (hnext : t.next = u64 (reading + t.ms)) :
    OnTime now t := by
  rw [u64_eq (by omega)] at hnext
  exact ⟨hms, by omega, by omega⟩

theorem Timely.later {now' : ℕ} (h : m.Timely now) (hle : now ≤ now') : m.Timely now' :=
  fun p t ht => ⟨(h p t ht).ms, (h p t ht).le, (h p t ht).start.trans (by omega)⟩

theorem Timely.setTimer (h : m.Timely now) {p : ℕ} {t : Timer} (ht : OnTime now t) :
    (m.setTimer p t).Timely now := by
  intro q t' hq
  by_cases hqp : q = p
  · subst hqp
    simp only [TimerManager.setTimer, Function.update_self, Option.some.injEq] at hq
    exact hq ▸ ht
  · simp only [TimerManager.setTimer, Function.update_of_ne hqp] at hq
    exact h q t' hq

theorem resetNext_eq {t : Timer} (ms : ℕ) (fromNow : Bool) (hnow : now + 2 ^ 31 ≤ 2 ^ 64)
    (ht : OnTime now t) :
    ∃ start ≤ now, resetNext t ms fromNow now = u64 (start + ms) := by
  cases fromNow with
  | true => exact ⟨now, le_rfl, rfl⟩
  | false =>
      have hle := ht.le
      have hstart := ht.start
      have hms' := ht.ms
      refine ⟨t.next - t.ms, by omega, ?_⟩
      have hsub : u64 (t.next + 2 ^ 64 - t.ms) = t.next - t.ms := by
        unfold u64
        omega
      simp only [resetNext, hsub, Bool.false_eq_true, if_false]

theorem expire_timely {reading : ℕ} (hnow : now + 2 ^ 31 ≤ 2 ^ 64)
    (hreading : reading ≤ now) : ∀ (expired : List ℕ) {m : TimerManager}, m.Timely now →
      (expire reading m expired).1.Timely now
  | [], _, h => h
  | p :: expired, m, h => by
      unfold expire
      split
      · exact expire_timely hnow hreading expired h
      case h_2 t ht =>
        have hms := (h p t ht).ms
        apply expire_timely hnow hreading expired
        split
        · exact h.setTimer (OnTime.since hnow hreading hms rfl)
        · exact h.setTimer ⟨hms, (h p t ht).le, (h p t ht).start⟩

theorem listExpiredCb_timely {reading : ℕ} (hnow : now + 2 ^ 31 ≤ 2 ^ 64)
    (hreading : reading ≤ now) (h : m.Timely now) (q : ℕ) :
    (m.listExpiredCb reading q).1.Timely now := by
  unfold listExpiredCb
  split
  · exact h
  · rcases hroll : m.detectClockRollover reading with ⟨m', rollover⟩
    have hm' : m'.Timely now := by
      have hfst : m' = (m.detectClockRollover reading).1 := by rw [hroll]
      subst hfst
      exact h
    dsimp only
    split_ifs
    · exact hm'
    · exact expire_timely hnow hreading _ hm'

/-! ## The front -/

/-- No timer of `m'` comes before every timer of `m`. -/
def Later (m m' : TimerManager) : Prop :=
  ∀ q ∈ m'.timers, ∃ p ∈ m.timers, m.next p ≤ m'.next q

theorem Later.refl (m : TimerManager) : Later m m := fun q hq => ⟨q, hq, le_rfl⟩

theorem cancel_later {P : ℕ → Prop} (h : m.Sound P) {p : ℕ} {t : Timer} {r : TimerManager × Bool}
    (ht : m.heap p = some t) (hr : m.cancel p t = some r) :
    Later m r.1 ∧ (m.Timely now → r.1.Timely now) ∧ r.1.tickled = m.tickled := by
  cases hcb : t.cb with
  | none =>
      simp only [cancel, hcb] at hr
      cases hr
      exact ⟨.refl m, id, rfl⟩
  | some cb =>
      have hp : P p := h.live p ⟨t, ht, by rw [hcb]; rfl⟩
      have hset : (m.setTimer p { t with cb := none }).Holds P := h.setCb ht rfl
      rw [cancel_eq h ht hcb] at hr
      cases hr
      refine ⟨?_, ?_, rfl⟩
      · intro q hq
        obtain ⟨hq, hne⟩ := ((hset.erase hp).mem q).mp hq
        exact ⟨q, (h.mem q).mpr hq, (next_setTimer_of_ne hne).ge⟩
      · intro htimely
        exact htimely.setTimer ⟨(htimely p t ht).ms, (htimely p t ht).le, (htimely p t ht).start⟩

theorem refresh_later {P : ℕ → Prop} (h : m.Sound P) (hnow : now + 2 ^ 31 ≤ 2 ^ 64)
    (htimely : m.Timely now) {p : ℕ} {t : Timer} (ht : m.heap p = some t) :
    Later m (m.refresh p t now).1 ∧ (m.refresh p t now).1.Timely now ∧
      (m.refresh p t now).1.tickled = m.tickled := by
  cases hcb : t.cb with
  | none =>
      simp only [refresh, hcb, and_true]
      exact ⟨.refl m, htimely⟩
  | some cb =>
      have hp : P p := h.live p ⟨t, ht, by rw [hcb]; rfl⟩
      have htime := htimely p t ht
      have hms := htime.ms
      rw [refresh_eq h ht hcb]
      refine ⟨?_, ?_, rfl⟩
      · intro q hq
        rcases (((h.takeOut hp _).insert).mem q).mp hq with rfl | ⟨hq, hne⟩
        · -- The timer itself is not due earlier than before.
          refine ⟨q, (h.mem q).mpr hp, ?_⟩
          have hnext : m.next q = t.next := by simp only [next, ht]
          have hnext' : (((m.erase q).setTimer q
              { t with next := u64 (now + t.ms) }).insert q).next q = now + t.ms :=
            next_setTimer_self.trans (u64_eq (by omega))
          rw [hnext, hnext']
          exact htime.start
        · exact ⟨q, (h.mem q).mpr hq, (next_setTimer_of_ne hne).ge⟩
      · exact Timely.setTimer (m := m.erase p) htimely (OnTime.since hnow le_rfl hms rfl)

/-- A timer put in that is not the first has one before it. -/
theorem addTimer_front {P : ℕ → Prop} (h : m.Holds P) {p : ℕ} (htickled : m.tickled = false)
    (hfront : (m.addTimer p).2 = false) : ∃ q, P q ∧ q ≠ p ∧ m.next q ≤ m.next p := by
  have hholds := h.insert (p := p)
  have hmem : p ∈ (m.insert p).timers := (hholds.mem p).mpr (Or.inl rfl)
  have hhead : (m.insert p).timers.head? ≠ some p := by
    intro hhead
    simp only [addTimer, hhead] at hfront
    rw [show (m.insert p).tickled = false from htickled] at hfront
    cases hfront
  have hordered := hholds.ordered
  have hin := hholds.mem
  cases hl : (m.insert p).timers with
  | nil =>
      rw [hl] at hmem
      cases hmem
  | cons q rest =>
      rw [hl] at hmem hhead hordered hin
      have hne : q ≠ p := fun hqp => hhead (congrArg some hqp)
      have hp : p ∈ rest := (List.mem_cons.mp hmem).resolve_left (Ne.symm hne)
      have hbefore := (List.pairwise_cons.mp hordered).1 p hp
      have hle : m.next q ≤ m.next p := by
        rcases before_iff.mp hbefore with hlt | ⟨heq, -⟩
        · exact hlt.le
        · exact heq.le
      exact ⟨q, ((hin q).mp List.mem_cons_self).resolve_left hne, hne, hle⟩

theorem addTimer_tickled (m : TimerManager) (p : ℕ) :
    (m.addTimer p).1.tickled = (m.tickled || (m.addTimer p).2) := by
  have hor : ∀ t b : Bool, (if (b && !t) = true then true else t) = (t || (b && !t)) := by
    decide
  exact hor _ _

theorem newTimer_later {P : ℕ → Prop} (h : m.Sound P) {p : ℕ} (hp : m.heap p = none)
    (ms : ℕ) (cb : Option Callback) (recurring : Bool) (reading : ℕ)
    (htickled : m.tickled = false)
    (hfront : (m.newTimer p ms cb recurring reading).2 = false) :
    Later m (m.newTimer p ms cb recurring reading).1 := by
  have hnot : ¬P p := fun hP => h.heap p hP hp
  have hset := h.setTimer (Timer.make ms cb recurring reading) hnot
  intro q hq
  rcases (hset.addTimer.mem q).mp hq with rfl | hq
  · obtain ⟨r, hr, hne, hle⟩ := addTimer_front hset htickled hfront
    rw [next_setTimer_of_ne hne] at hle
    exact ⟨r, (h.mem r).mpr hr, hle⟩
  · have hne : q ≠ p := fun hqp => hnot (hqp ▸ hq)
    exact ⟨q, (h.mem q).mpr hq, (next_setTimer_of_ne hne).ge⟩

theorem resetLocked_later {P : ℕ → Prop} (h : m.Sound P) {p : ℕ} {t : Timer}
    (ht : m.heap p = some t) (ms : ℕ) (fromNow : Bool) (htickled : m.tickled = false)
    (hfront : (m.resetLocked p t ms fromNow now).2.2 = false) :
    Later m (m.resetLocked p t ms fromNow now).1 := by
  cases hcb : t.cb with
  | none =>
      simp only [resetLocked, hcb]
      exact .refl m
  | some cb =>
      have hp : P p := h.live p ⟨t, ht, by rw [hcb]; rfl⟩
      rw [resetLocked_eq h ht hcb] at hfront ⊢
      have hout := h.takeOut hp { t with ms, next := resetNext t ms fromNow now }
      intro q hq
      rcases (hout.addTimer.mem q).mp hq with rfl | ⟨hq, hne⟩
      · obtain ⟨r, ⟨hr, hne⟩, -, hle⟩ := addTimer_front hout htickled hfront
        rw [next_setTimer_of_ne hne] at hle
        exact ⟨r, (h.mem r).mpr hr, hle⟩
      · exact ⟨q, (h.mem q).mpr hq, (next_setTimer_of_ne hne).ge⟩

theorem resetLocked_timely {P : ℕ → Prop} (h : m.Sound P) (hnow : now + 2 ^ 31 ≤ 2 ^ 64)
    (htimely : m.Timely now) {p : ℕ} {t : Timer} (ht : m.heap p = some t) {ms : ℕ}
    (hms : ms < 2 ^ 31) (fromNow : Bool) :
    (m.resetLocked p t ms fromNow now).1.Timely now ∧
      (m.resetLocked p t ms fromNow now).1.tickled =
        (m.tickled || (m.resetLocked p t ms fromNow now).2.2) := by
  cases hcb : t.cb with
  | none =>
      simp only [resetLocked, hcb, Bool.or_false, and_true]
      exact htimely
  | some cb =>
      rw [resetLocked_eq h ht hcb]
      refine ⟨?_, addTimer_tickled _ p⟩
      obtain ⟨start, hstart, hnext⟩ := resetNext_eq ms fromNow hnow (htimely p t ht)
      exact Timely.setTimer (m := m.erase p) htimely (OnTime.since hnow hstart hms hnext)

end TimerManager

namespace IdlePhase

/-- The worker counts for `m_idleThreadCount`. -/
def counts : IdlePhase → Bool
  | .busy | .gone => false
  | _ => true

/-- The worker will ask for the next timer before it waits again. -/
def awake : IdlePhase → Bool
  | .busy | .counted | .woken | .listed | .leftIdle => true
  | _ => false

/-- Up to when the worker waits, or is about to. -/
def deadline : IdlePhase → Option (Option ℕ)
  | .timed d | .blocked d => some d
  | _ => none

theorem deadline_of_awake {p : IdlePhase} (h : p.awake = true) : p.deadline = none := by
  cases p with
  | timed | blocked => cases h
  | _ => rfl

end IdlePhase

namespace IdleLoop

/-! ## The invariant -/

variable {n : ℕ} {s s' : IdleLoop}

/-- A worker goes on. -/
def Alive (n : ℕ) (s : IdleLoop) : Prop :=
  ∃ w < n, s.workers w ≠ .leaving ∧ s.workers w ≠ .gone

/-- A byte is in the pipe, a `tickle` is to come, or a worker is awake. -/
def Alert (n : ℕ) (s : IdleLoop) : Prop :=
  0 < s.pipe ∨ (∃ c, s.inserters c = true) ∨ ∃ w < n, (s.workers w).awake = true

/-- A worker does not wait beyond any timer. -/
def Covered (n : ℕ) (s : IdleLoop) : Prop :=
  ∃ w < n, ∃ d, (s.workers w).deadline = some (some d) ∧
    ∀ p ∈ s.manager.timers, d ≤ s.manager.next p

structure Inv (n : ℕ) (s : IdleLoop) : Prop where
  clock : s.now + 2 ^ 31 ≤ 2 ^ 64
  sound : ∃ P, s.manager.Sound P
  timely : s.manager.Timely s.now
  idle : s.idleThreadCount = tally n IdlePhase.counts s.workers
  outside : ∀ w, n ≤ w → s.workers w = .busy
  /-- no one waits for ever -/
  ends : ∀ w d, (s.workers w).deadline = some d → d ≠ none
  served : s.Alive n → s.Alert n ∨ s.Covered n
  tickled : s.Alive n → s.manager.tickled = true → s.Alert n

theorem epollTimeout_eq {k : ℕ} (h : k < 2 ^ 31) : epollTimeout k = min k 3000 := by
  unfold epollTimeout
  rw [if_pos (by omega), CString.toInt32_of_le (by omega) (by omega)]
  split <;> omega

/-- A worker that asks now does not wait beyond any timer. -/
theorem deadline_spec {P : ℕ → Prop} (hsound : s.manager.Sound P)
    (htimely : s.manager.Timely s.now) :
    ∃ d, s.deadline = some d ∧ ∀ p ∈ s.manager.timers, d ≤ s.manager.next p := by
  cases hl : s.manager.timers with
  | nil =>
      refine ⟨s.now + 3000, ?_, fun p hp => absurd hp List.not_mem_nil⟩
      simp [deadline, TimerManager.getNextTimer, hl, epollTimeout]
  | cons front rest =>
      have hmem : front ∈ s.manager.timers := by
        rw [hl]
        exact List.mem_cons_self
      obtain ⟨t, ht⟩ :=
        Option.ne_none_iff_exists'.mp (hsound.heap front ((hsound.mem front).mp hmem))
      have htime := htimely front t ht
      have hms := htime.ms
      have hstart := htime.start
      have hnext : s.manager.next front = t.next := by
        simp only [TimerManager.next, ht]
      -- The front comes first.
      have hfirst : ∀ p ∈ front :: rest, s.manager.next front ≤ s.manager.next p := by
        have hordered := hsound.ordered
        rw [hl] at hordered
        intro p hp
        rcases List.mem_cons.mp hp with rfl | hp
        · exact le_rfl
        · rcases Timer.before_iff.mp ((List.pairwise_cons.mp hordered).1 p hp) with h | h
          · exact h.le
          · exact h.1.le
      by_cases hpast : s.now > s.manager.next front
      · refine ⟨s.manager.next front, ?_, hfirst⟩
        have hzero : epollTimeout 0 = 0 := by decide
        simp [deadline, TimerManager.getNextTimer, hl, hpast, hzero]
      · have hlt : s.manager.next front - s.now < 2 ^ 31 := by omega
        have heq := epollTimeout_eq hlt
        refine ⟨s.now + min (s.manager.next front - s.now) 3000, ?_, ?_⟩
        · simp only [deadline, TimerManager.getNextTimer, hl, hpast, if_false, heq,
            Int.toNat_natCast, not_lt.mpr (Int.natCast_nonneg _)]
        · intro p hp
          have := hfirst p hp
          omega

theorem Alert.mono (h : s.Alert n) (hworkers : s'.workers = s.workers)
    (hpipe : s'.pipe = s.pipe)
    (hinserters : ∀ c, s.inserters c = true → s'.inserters c = true) : s'.Alert n := by
  rcases h with h | ⟨c, hc⟩ | h
  · exact Or.inl (hpipe ▸ h)
  · exact Or.inr (Or.inl ⟨c, hinserters c hc⟩)
  · exact Or.inr (Or.inr (hworkers ▸ h))

theorem Covered.later (h : s.Covered n) (hworkers : s'.workers = s.workers)
    (hlater : TimerManager.Later s.manager s'.manager) : s'.Covered n := by
  obtain ⟨w, hw, d, hd, hle⟩ := h
  refine ⟨w, hw, d, hworkers ▸ hd, ?_⟩
  intro q hq
  obtain ⟨p, hp, hpq⟩ := hlater q hq
  exact (hle p hp).trans hpq

theorem inserters_update {c : ℕ} (hfree : s.inserters c = false) (b : Bool) :
    ∀ c', s.inserters c' = true → Function.update s.inserters c b c' = true := by
  intro c' hc'
  have hne : c' ≠ c := by
    rintro rfl
    rw [hfree] at hc'
    cases hc'
  rw [Function.update_of_ne hne]
  exact hc'

/-- A step that leaves the workers where they are. -/
theorem Inv.manage (h : Inv n s) (hworkers : s'.workers = s.workers)
    (hnow : s'.now = s.now) (hpipe : s'.pipe = s.pipe)
    (hidle : s'.idleThreadCount = s.idleThreadCount)
    (hinserters : ∀ c, s.inserters c = true → s'.inserters c = true)
    (hsound : ∃ P, s'.manager.Sound P) (htimely : s'.manager.Timely s.now)
    (hcase : s.Alive n → s'.Alert n ∨
      (TimerManager.Later s.manager s'.manager ∧
        (s'.manager.tickled = true → s.manager.tickled = true))) : Inv n s' := by
  have halive : s'.Alive n → s.Alive n := fun ha => by
    unfold Alive at ha ⊢
    rw [← hworkers]
    exact ha
  refine ⟨hnow ▸ h.clock, hsound, hnow ▸ htimely, ?_, hworkers ▸ h.outside,
    hworkers ▸ h.ends, ?_, ?_⟩
  · rw [hidle, hworkers]
    exact h.idle
  · intro ha
    rcases hcase (halive ha) with halert | ⟨hlater, -⟩
    · exact Or.inl halert
    · rcases h.served (halive ha) with halert | hcovered
      · exact Or.inl (halert.mono hworkers hpipe hinserters)
      · exact Or.inr (hcovered.later hworkers hlater)
  · intro ha htickled
    rcases hcase (halive ha) with halert | ⟨-, hsame⟩
    · exact halert
    · exact (h.tickled (halive ha) (hsame htickled)).mono hworkers hpipe hinserters

/-- A step of worker `w`, as far as the counter is concerned. -/
theorem Inv.idle_update (h : Inv n s) {w : ℕ} (hw : w < n) {p : IdlePhase}
    (hworkers : s'.workers = Function.update s.workers w p)
    (hidle : s'.idleThreadCount + (s.workers w).counts.toNat =
      s.idleThreadCount + p.counts.toNat) :
    s'.idleThreadCount = tally n IdlePhase.counts s'.workers := by
  have hsum := tally_update hw IdlePhase.counts s.workers p
  have := h.idle
  rw [hworkers]
  omega

theorem Inv.lt (h : Inv n s) {w : ℕ} (hw : s.workers w ≠ .busy) : w < n := by
  by_contra hge
  exact hw (h.outside w (not_lt.mp hge))

/-- A step by which worker `w` becomes or stays awake. -/
theorem Inv.awake (h : Inv n s) {w : ℕ} (hw : w < n) {p : IdlePhase}
    (hworkers : s'.workers = Function.update s.workers w p) (hp : p.awake = true)
    (hnow : s'.now = s.now)
    (hidle : s'.idleThreadCount + (s.workers w).counts.toNat =
      s.idleThreadCount + p.counts.toNat)
    (hsound : ∃ P, s'.manager.Sound P) (htimely : s'.manager.Timely s.now) : Inv n s' := by
  have halert : s'.Alert n := by
    refine Or.inr (Or.inr ⟨w, hw, ?_⟩)
    rw [hworkers, Function.update_self]
    exact hp
  refine ⟨hnow ▸ h.clock, hsound, hnow ▸ htimely, h.idle_update hw hworkers hidle, ?_, ?_,
    fun _ => Or.inl halert, fun _ _ => halert⟩
  · intro v hv
    have hne : v ≠ w := by omega
    rw [hworkers, Function.update_of_ne hne]
    exact h.outside v hv
  · intro v d hd
    rw [hworkers] at hd
    by_cases hvw : v = w
    · subst hvw
      rw [Function.update_self, IdlePhase.deadline_of_awake hp] at hd
      cases hd
    · rw [Function.update_of_ne hvw] at hd
      exact h.ends v d hd

/-- A step by which worker `w` goes from one of `timed`, `leaving` to `blocked`,
`gone`. -/
theorem Inv.aside (h : Inv n s) {w : ℕ} (hw : w < n) {p : IdlePhase}
    (hs' : s' = { s with idleThreadCount := s'.idleThreadCount }.goto w p)
    (hawake : (s.workers w).awake = false) (hdeadline : p.deadline = (s.workers w).deadline)
    (hidle : s'.idleThreadCount + (s.workers w).counts.toNat =
      s.idleThreadCount + p.counts.toNat)
    (halive : p ≠ .leaving ∧ p ≠ .gone →
      s.workers w ≠ .leaving ∧ s.workers w ≠ .gone) : Inv n s' := by
  have hworkers : s'.workers = Function.update s.workers w p := by rw [hs']; rfl
  have hmanager : s'.manager = s.manager := by rw [hs']; rfl
  have hnow : s'.now = s.now := by rw [hs']; rfl
  have hdeadlines : ∀ v, (s'.workers v).deadline = (s.workers v).deadline := by
    intro v
    rw [hworkers]
    by_cases hvw : v = w
    · subst hvw
      rw [Function.update_self]
      exact hdeadline
    · rw [Function.update_of_ne hvw]
  have halive' : s'.Alive n → s.Alive n := by
    rintro ⟨v, hv, hne⟩
    refine ⟨v, hv, ?_⟩
    rw [hworkers] at hne
    by_cases hvw : v = w
    · subst hvw
      rw [Function.update_self] at hne
      exact halive hne
    · rw [Function.update_of_ne hvw] at hne
      exact hne
  have halert : s.Alert n → s'.Alert n := by
    rintro (hpipe | hc | ⟨v, hv, hvawake⟩)
    · refine Or.inl ?_
      rw [hs']
      exact hpipe
    · refine Or.inr (Or.inl ?_)
      rw [hs']
      exact hc
    · have hvw : v ≠ w := by
        rintro rfl
        rw [hawake] at hvawake
        cases hvawake
      refine Or.inr (Or.inr ⟨v, hv, ?_⟩)
      rw [hworkers, Function.update_of_ne hvw]
      exact hvawake
  refine ⟨hnow ▸ h.clock, hmanager ▸ h.sound, ?_, h.idle_update hw hworkers hidle, ?_, ?_,
    ?_, ?_⟩
  · rw [hmanager, hnow]
    exact h.timely
  · intro v hv
    have hne : v ≠ w := by omega
    rw [hworkers, Function.update_of_ne hne]
    exact h.outside v hv
  · intro v d hd
    rw [hdeadlines v] at hd
    exact h.ends v d hd
  · intro ha
    rcases h.served (halive' ha) with hserved | ⟨v, hv, d, hd, hle⟩
    · exact Or.inl (halert hserved)
    · refine Or.inr ⟨v, hv, d, (hdeadlines v).trans hd, ?_⟩
      rw [hmanager]
      exact hle
  · intro ha htickled
    rw [hmanager] at htickled
    exact halert (h.tickled (halive' ha) htickled)

theorem tickle_frame (s : IdleLoop) : s.tickle.now = s.now ∧
    s.tickle.manager = s.manager ∧ s.tickle.workers = s.workers ∧
    s.tickle.idleThreadCount = s.idleThreadCount ∧ s.tickle.inserters = s.inserters := by
  unfold IdleLoop.tickle
  split <;> exact ⟨rfl, rfl, rfl, rfl, rfl⟩

/-- After `tickle` a byte is in the pipe, or no worker waits. -/
theorem Inv.tickle (h : Inv n s) (hs' : s' = { s.tickle with inserters := s'.inserters }) :
    Inv n s' := by
  obtain ⟨h₁, h₂, h₃, h₄, -⟩ := tickle_frame s
  have hnow : s'.now = s.now := by rw [hs']; exact h₁
  have hmanager : s'.manager = s.manager := by rw [hs']; exact h₂
  have hworkers : s'.workers = s.workers := by rw [hs']; exact h₃
  have hidle : s'.idleThreadCount = s.idleThreadCount := by rw [hs']; exact h₄
  have halert : s'.Alive n → s'.Alert n := by
    rintro ⟨w, hw, -, hgone⟩
    rw [hworkers] at hgone
    by_cases hpos : 0 < s.idleThreadCount
    · refine Or.inl ?_
      rw [hs', IdleLoop.tickle, if_pos hpos]
      exact Nat.succ_pos _
    · refine Or.inr (Or.inr ⟨w, hw, ?_⟩)
      rw [hworkers]
      have hzero : tally n IdlePhase.counts s.workers ≤ 0 := by
        rw [← h.idle]
        exact not_lt.mp hpos
      have hnot := eq_false_of_tally hw hzero
      cases hp : s.workers w with
      | busy => rfl
      | gone => exact absurd hp hgone
      | _ =>
          rw [hp] at hnot
          cases hnot
  refine ⟨hnow ▸ h.clock, hmanager ▸ h.sound, ?_, ?_, hworkers ▸ h.outside,
    hworkers ▸ h.ends, fun ha => Or.inl (halert ha), fun ha _ => halert ha⟩
  · rw [hmanager, hnow]
    exact h.timely
  · rw [hidle, hworkers]
    exact h.idle

/-- Intervals are below 2^31, and the clock keeps off the end of its 64 bits. -/
def InTime (_ : IdleLoop) : Label → Prop
  | .clock t => t + 2 ^ 31 ≤ 2 ^ 64
  | .addTimer _ _ ms _ _ _ => ms < 2 ^ 31
  | .reset _ _ ms _ => ms < 2 ^ 31
  | _ => True

instance (s : IdleLoop) (l : Label) : Decidable (InTime s l) := by
  cases l <;> unfold InTime <;> infer_instance

/-- A timer is put in by call `c`, which is to call `tickle` if it is `atFront`. -/
theorem Inv.inserting (h : Inv n s) {c : ℕ} {m : TimerManager} {atFront : Bool}
    (hfree : s.inserters c = false) (hsound : ∃ P, m.Sound P) (htimely : m.Timely s.now)
    (htickled : m.tickled = (s.manager.tickled || atFront))
    (hlater : s.manager.tickled = false → atFront = false →
      TimerManager.Later s.manager m) :
    Inv n { s with manager := m, inserters := Function.update s.inserters c atFront } := by
  have hinserters := inserters_update hfree atFront
  refine h.manage rfl rfl rfl rfl hinserters hsound htimely ?_
  intro halive
  cases atFront with
  | true => exact Or.inl (Or.inr (Or.inl ⟨c, Function.update_self ..⟩))
  | false =>
      cases hflag : s.manager.tickled with
      | true =>
          -- The wake-up that is suppressed here is under way already.
          exact Or.inl ((h.tickled halive hflag).mono rfl rfl hinserters)
      | false =>
          refine Or.inr ⟨hlater hflag rfl, fun ht => ?_⟩
          rw [hflag] at htickled
          exact htickled.symm.trans ht

theorem getNextTimer_sound {m : TimerManager} (h : ∃ P, m.Sound P) (now : ℕ) :
    ∃ P, (m.getNextTimer now).1.Sound P := by
  obtain ⟨P, hP⟩ := h
  exact ⟨P, ⟨hP.ordered, hP.mem⟩, hP.live, hP.heap⟩

theorem timers_of_leave {m : TimerManager} {now : ℕ} {P : ℕ → Prop} (hsound : m.Sound P)
    (htimely : m.Timely now)
    (h : (m.getNextTimer now).2 = 2 ^ 64 - 1) : m.timers = [] := by
  cases hl : m.timers with
  | nil => rfl
  | cons front rest =>
      have hmem : front ∈ m.timers := by
        rw [hl]
        exact List.mem_cons_self
      obtain ⟨t, ht⟩ :=
        Option.ne_none_iff_exists'.mp (hsound.heap front ((hsound.mem front).mp hmem))
      have hms := (htimely front t ht).ms
      have hstart := (htimely front t ht).start
      simp only [TimerManager.getNextTimer, hl, TimerManager.next, ht] at h
      split at h <;> omega

/-- The worker asks for the next timer. -/
theorem Inv.ask (h : Inv n s) {w : ℕ} (hw : s.workers w = .counted) :
    Inv n ({ s with manager := (s.manager.getNextTimer s.now).1 }.goto w
      (.timed s.deadline)) := by
  obtain ⟨P, hsound⟩ := h.sound
  obtain ⟨d, hd, hle⟩ := deadline_spec hsound h.timely
  have hwn : w < n := by
    apply h.lt
    rw [hw]
    exact IdlePhase.noConfusion
  refine ⟨h.clock, getNextTimer_sound h.sound s.now, h.timely, ?_, ?_, ?_, ?_, ?_⟩
  · apply h.idle_update hwn rfl
    rw [hw]
    rfl
  · intro v hv
    have hne : v ≠ w := by omega
    exact (Function.update_of_ne hne ..).trans (h.outside v hv)
  · intro v d' hd'
    by_cases hvw : v = w
    · subst hvw
      simp only [goto, Function.update_self, IdlePhase.deadline, hd] at hd'
      cases hd'
      exact Option.some_ne_none d
    · simp only [goto, Function.update_of_ne hvw] at hd'
      exact h.ends v d' hd'
  · refine fun _ => Or.inr ⟨w, hwn, d, ?_, hle⟩
    simp only [goto, Function.update_self, IdlePhase.deadline, hd]
  · intro _ ht
    cases ht

/-- The worker finds no timer and leaves. -/
theorem Inv.leave (h : Inv n s) {w : ℕ} (hw : s.workers w = .counted)
    (hnone : (s.manager.getNextTimer s.now).2 = 2 ^ 64 - 1) :
    Inv n ({ s with manager := (s.manager.getNextTimer s.now).1 }.goto w .leaving) := by
  obtain ⟨P, hsound⟩ := h.sound
  have hempty := timers_of_leave hsound h.timely hnone
  have hwn : w < n := by
    apply h.lt
    rw [hw]
    exact IdlePhase.noConfusion
  refine ⟨h.clock, getNextTimer_sound h.sound s.now, h.timely, ?_, ?_, ?_, ?_, ?_⟩
  · apply h.idle_update hwn rfl
    rw [hw]
    rfl
  · intro v hv
    have hne : v ≠ w := by omega
    exact (Function.update_of_ne hne ..).trans (h.outside v hv)
  · intro v d hd
    by_cases hvw : v = w
    · subst hvw
      simp only [goto, Function.update_self] at hd
      cases hd
    · simp only [goto, Function.update_of_ne hvw] at hd
      exact h.ends v d hd
  · -- Whoever is left is awake, or waits for no timer.
    rintro ⟨v, hv, hleaving, hgone⟩
    have hvw : v ≠ w := by
      rintro rfl
      exact hleaving (Function.update_self ..)
    simp only [goto, Function.update_of_ne hvw] at hleaving hgone
    cases hawake : (s.workers v).awake with
    | true =>
        refine Or.inl (Or.inr (Or.inr ⟨v, hv, ?_⟩))
        simp only [goto, Function.update_of_ne hvw]
        exact hawake
    | false =>
        refine Or.inr ?_
        obtain ⟨d, hd⟩ : ∃ d, (s.workers v).deadline = some d := by
          cases hp : s.workers v with
          | timed d | blocked d => exact ⟨d, rfl⟩
          | leaving => exact absurd hp hleaving
          | gone => exact absurd hp hgone
          | _ =>
              rw [hp] at hawake
              cases hawake
        obtain ⟨d', rfl⟩ := Option.ne_none_iff_exists'.mp (h.ends v d hd)
        refine ⟨v, hv, d', ?_, ?_⟩
        · simp only [goto, Function.update_of_ne hvw]
          exact hd
        · intro p hp
          change p ∈ s.manager.timers at hp
          rw [hempty] at hp
          cases hp
  · intro _ ht
    cases ht

theorem next_inv (h : Inv n s) {l : Label} (hok : InTime s l) (hnext : next n s l = some s') :
    Inv n s' := by
  obtain ⟨P, hsound⟩ := h.sound
  cases l with
  | clock t =>
      simp only [next] at hnext
      split at hnext
      case isTrue hle =>
        cases hnext
        exact ⟨hok, h.sound, h.timely.later hle, h.idle, h.outside, h.ends, h.served,
          h.tickled⟩
      · cases hnext
  | addTimer c p ms cb recurring reading =>
      simp only [next] at hnext
      split at hnext
      case isTrue hpre =>
        obtain ⟨hfree, hp, hreading⟩ := hpre
        cases hnext
        exact h.inserting hfree ⟨_, TimerManager.newTimer_sound hsound hp ..⟩
          (h.timely.setTimer (.since h.clock hreading hok rfl))
          (TimerManager.addTimer_tickled ..)
          (fun hflag hfront => TimerManager.newTimer_later hsound hp _ _ _ _ hflag hfront)
      · cases hnext
  | cancel p =>
      obtain ⟨t, ht, hmap⟩ := Option.bind_eq_some_iff.mp hnext
      obtain ⟨r, hr, rfl⟩ := Option.map_eq_some_iff.mp hmap
      obtain ⟨hlater, htimely, htickled⟩ := TimerManager.cancel_later hsound ht hr
      obtain ⟨m', P', hm', hkept⟩ := TimerManager.cancel_kept hsound ht
      rw [hr] at hm'
      cases hm'
      exact h.manage rfl rfl rfl rfl (fun _ hc => hc) ⟨P', hkept.sound⟩ (htimely h.timely)
        fun _ => Or.inr ⟨hlater, fun h => htickled ▸ h⟩
  | refresh p =>
      obtain ⟨t, ht, rfl⟩ := Option.map_eq_some_iff.mp hnext
      obtain ⟨hlater, htimely, htickled⟩ :=
        TimerManager.refresh_later hsound h.clock h.timely ht
      obtain ⟨⟨P', hkept⟩, -⟩ := TimerManager.refresh_kept hsound ht s.now
      exact h.manage rfl rfl rfl rfl (fun _ hc => hc) ⟨P', hkept.sound⟩ htimely
        fun _ => Or.inr ⟨hlater, fun h => htickled ▸ h⟩
  | reset c p ms fromNow =>
      simp only [next] at hnext
      split at hnext
      case isTrue hfree =>
        obtain ⟨t, ht, rfl⟩ := Option.map_eq_some_iff.mp hnext
        obtain ⟨htimely, htickled⟩ :=
          TimerManager.resetLocked_timely hsound h.clock h.timely ht hok fromNow
        obtain ⟨⟨P', hkept⟩, -⟩ := TimerManager.resetLocked_kept hsound ht ms fromNow s.now
        exact h.inserting hfree ⟨P', hkept.sound⟩ htimely htickled
          (TimerManager.resetLocked_later hsound ht ms fromNow)
      · cases hnext
  | release p =>
      simp only [next] at hnext
      split at hnext
      · cases hnext
      case isFalse hp =>
        cases hnext
        have hne : ∀ q ∈ s.manager.timers, q ≠ p := by
          rintro q hq rfl
          exact hp hq
        refine h.manage rfl rfl rfl rfl (fun _ hc => hc)
          ⟨P, (TimerManager.release_sound hsound hp).sound⟩ ?_
          fun _ => Or.inr ⟨fun q hq => ⟨q, hq, ?_⟩, id⟩
        · intro q t hq
          by_cases hqp : q = p
          · subst hqp
            simp only [Function.update_self] at hq
            cases hq
          · simp only [Function.update_of_ne hqp] at hq
            exact h.timely q t hq
        · simp only [TimerManager.next, Function.update_of_ne (hne q hq)]
          exact le_rfl
  | insertedAtFront c =>
      simp only [next] at hnext
      split at hnext
      · cases hnext
        exact h.tickle rfl
      · cases hnext
  | tickle =>
      cases hnext
      exact h.tickle rfl
  | stopping =>
      cases hnext
      refine h.manage rfl rfl rfl rfl (fun _ hc => hc) (getNextTimer_sound h.sound s.now)
        h.timely fun _ => Or.inr ⟨.refl s.manager, fun ht => ?_⟩
      cases ht
  | count w =>
      simp only [next] at hnext
      split at hnext
      case isTrue hpre =>
        cases hnext
        refine h.awake hpre.1 rfl rfl rfl ?_ h.sound h.timely
        rw [hpre.2]
        simp [goto, IdlePhase.counts]
      · cases hnext
  | getNextTimer w =>
      simp only [next] at hnext
      split at hnext
      case isTrue hw =>
        cases hnext
        exact h.ask hw
      · cases hnext
  | leave w =>
      simp only [next] at hnext
      split at hnext
      case isTrue hpre =>
        cases hnext
        exact h.leave hpre.1 hpre.2
      · cases hnext
  | wait w =>
      simp only [next] at hnext
      split at hnext
      case h_1 d hw =>
        cases hnext
        have hwn : w < n := h.lt (by rw [hw]; exact IdlePhase.noConfusion)
        refine h.aside hwn rfl ?_ ?_ ?_ fun _ => ?_ <;> rw [hw]
        · rfl
        · rfl
        · rfl
        · exact ⟨IdlePhase.noConfusion, IdlePhase.noConfusion⟩
      · cases hnext
  | wake w =>
      simp only [next] at hnext
      split at hnext
      case h_1 d hw =>
        cases hnext
        have hwn : w < n := h.lt (by rw [hw]; exact IdlePhase.noConfusion)
        refine h.awake hwn rfl rfl rfl ?_ h.sound h.timely
        rw [hw]
        rfl
      · cases hnext
  | listExpiredCb w reading q =>
      simp only [next] at hnext
      split at hnext
      case isTrue hpre =>
        obtain ⟨hw, hreading, -⟩ := hpre
        cases hnext
        have hwn : w < n := h.lt (by rw [hw]; exact IdlePhase.noConfusion)
        obtain ⟨P', hkept⟩ := TimerManager.listExpiredCb_kept hsound reading q
        refine h.awake hwn rfl rfl rfl ?_ ⟨P', hkept.sound⟩
          (TimerManager.listExpiredCb_timely h.clock hreading h.timely q)
        rw [hw]
        rfl
      · cases hnext
  | drain w =>
      simp only [next] at hnext
      split at hnext
      case isTrue hw =>
        cases hnext
        have hwn : w < n := h.lt (by rw [hw]; exact IdlePhase.noConfusion)
        refine h.awake (p := s.workers w) hwn (Function.update_eq_self w s.workers).symm ?_
          rfl rfl h.sound h.timely
        rw [hw]
        rfl
      · cases hnext
  | swapOut w =>
      simp only [next] at hnext
      split at hnext
      case isTrue hw =>
        cases hnext
        have hwn : w < n := h.lt (by rw [hw]; exact IdlePhase.noConfusion)
        refine h.awake hwn rfl rfl rfl ?_ h.sound h.timely
        rw [hw]
        rfl
      · cases hnext
  | uncount w =>
      simp only [next] at hnext
      split at hnext
      case h_1 hw =>
        cases hnext
        have hwn : w < n := h.lt (by rw [hw]; exact IdlePhase.noConfusion)
        refine h.awake hwn rfl rfl rfl ?_ h.sound h.timely
        rw [hw]
        simp [goto, IdlePhase.counts]
      case h_2 hw =>
        cases hnext
        have hwn : w < n := h.lt (by rw [hw]; exact IdlePhase.noConfusion)
        refine h.aside hwn rfl ?_ ?_ ?_ fun hne => absurd rfl hne.2 <;> rw [hw]
        · rfl
        · rfl
        · simp [goto, IdlePhase.counts]
      · cases hnext

theorem start_inv {now : ℕ} (h : now + 2 ^ 31 ≤ 2 ^ 64) : Inv n (start now) := by
  refine ⟨h, ⟨fun _ => False, ⟨List.Pairwise.nil, ?_⟩, ?_, ?_⟩, ?_, ?_, ?_, ?_, ?_, ?_⟩
  · exact fun p => iff_of_false List.not_mem_nil not_false
  · exact fun p hp => TimerManager.not_live_of_free rfl hp
  · exact fun p hp => hp.elim
  · rintro p t ⟨⟩
  · exact (Finset.sum_eq_zero fun _ _ => rfl).symm
  · exact fun _ _ => rfl
  · rintro w d ⟨⟩
  · rintro ⟨w, hw, -⟩
    exact Or.inl (Or.inr (Or.inr ⟨w, hw, rfl⟩))
  · rintro _ ⟨⟩

/-- **`m_tickled` suppresses no wake-up.** In every run in which intervals are below
2^31 ms and the clock does not go back or reach the end of its 64 bits: when every
worker that has not returned is in `epoll_wait` and some timer is due before each of
them would wake up, then a byte is in the pipe, or a call that has inserted a timer at
the front is about to call `tickle`. -/
theorem reachable_alert {now : ℕ} (hnow : now + 2 ^ 31 ≤ 2 ^ 64)
    (h : (machine n now).Reachable InTime s) {p : ℕ} (hp : p ∈ s.manager.timers)
    (hsome : ∃ w < n, s.workers w ≠ .gone)
    (hall : ∀ w < n, s.workers w = .gone ∨
      ∃ d, s.workers w = .blocked d ∧ ∀ d' ∈ d, s.manager.next p < d') :
    0 < s.pipe ∨ ∃ c, s.inserters c = true := by
  have hinv : Inv n s := h.invariant (start_inv hnow) fun hs hok hstep => next_inv hs hok hstep
  have halive : s.Alive n := by
    obtain ⟨w, hw, hgone⟩ := hsome
    obtain ⟨d, hd, -⟩ := (hall w hw).resolve_left hgone
    refine ⟨w, hw, ?_, hgone⟩
    rw [hd]
    exact IdlePhase.noConfusion
  rcases hinv.served halive with (hpipe | hc | ⟨w, hw, hawake⟩) | ⟨w, hw, d, hd, hle⟩
  · exact Or.inl hpipe
  · exact Or.inr hc
  · rcases hall w hw with hgone | ⟨d, hd, -⟩
    · rw [hgone] at hawake
      cases hawake
    · rw [hd] at hawake
      cases hawake
  · rcases hall w hw with hgone | ⟨d', hd', hlt⟩
    · rw [hgone] at hd
      cases hd
    · rw [hd'] at hd
      cases hd
      exact absurd (hlt d rfl) (not_lt.mpr (hle p hp))

/-- A worker waits for a timer that is due at 1000, and two more are added before it;
`m_tickled` keeps the second from calling `tickle`. -/
theorem reachable_alert_twice :
    ∃ s, (machine 1 0).Reachable InTime s ∧ s.workers 0 = .blocked (some 1000) ∧
      s.manager.timers = [3, 2, 1] ∧ (0 < s.pipe ∨ ∃ c, s.inserters c = true) := by
  obtain ⟨s, h, hw, htimers, hnext⟩ : ∃ s, (machine 1 0).Reachable InTime s ∧
      s.workers 0 = .blocked (some 1000) ∧ s.manager.timers = [3, 2, 1] ∧
      s.manager.next 3 = 10 :=
    Lib.Machine.exists_of_exec
      [.addTimer 0 1 1000 (some (.fn 0)) true 0, .insertedAtFront 0, .count 0,
        .getNextTimer 0, .wait 0, .addTimer 0 2 20 (some (.fn 1)) false 0,
        .insertedAtFront 0, .addTimer 0 3 10 (some (.fn 2)) false 0]
      (by decide)
  have hmem : 3 ∈ s.manager.timers := by
    rw [htimers]
    exact List.mem_cons_self
  refine ⟨s, h, hw, htimers, reachable_alert (by decide) h hmem ⟨0, Nat.one_pos, ?_⟩ ?_⟩
  · rw [hw]
    exact IdlePhase.noConfusion
  · intro w hlt
    obtain rfl : w = 0 := by omega
    refine Or.inr ⟨some 1000, hw, ?_⟩
    rintro d ⟨⟩
    rw [hnext]
    decide

/-- The clock is 100 ms from the end of its 64 bits when a timer is refreshed: it is
due before the worker wakes up, and nothing wakes the worker up. -/
theorem alert_lost_at_wrap :
    ∃ s, (machine 1 (2 ^ 64 - 150)).Reachable (fun _ _ => True) s ∧ s.now = 2 ^ 64 - 100 ∧
      s.workers 0 = .blocked (some (2 ^ 64 - 50)) ∧ s.manager.timers = [1] ∧
      s.manager.heap 1 = some ⟨false, 100, 0, some (.fn 0)⟩ ∧ s.pipe = 0 ∧
      ∀ c, s.inserters c = false := by
  have hrun : (machine 1 (2 ^ 64 - 150)).Reachable (fun _ _ => True) _ :=
    Lib.Machine.runs_of_exec
      [.addTimer 0 1 100 (some (.fn 0)) false (2 ^ 64 - 150), .insertedAtFront 0, .count 0,
        .getNextTimer 0, .wait 0, .clock (2 ^ 64 - 100), .refresh 1]
      (by rfl)
  refine ⟨_, hrun, rfl, rfl, rfl, rfl, rfl, ?_⟩
  intro c
  change Function.update (Function.update (fun _ => false) 0 true) 0 false c = false
  rw [Function.update_idem]
  exact congrFun (Function.update_eq_self 0 fun _ => false) c

end IdleLoop

end Skt
