import Skt.Timer.Invariant

/-!
# What `listExpiredCb` returns

The cut is found with a timer made for the purpose, whose address is anywhere among
those that expire at the same time; the loop behind `lower_bound` makes up for that.
What is taken out is what has expired by the clock, or everything after a rollover.
-/

namespace Skt

open Lib

namespace Timer

/-- What becomes of a timer that has expired. -/
def fired (now : ℕ) (t : Timer) : Timer :=
  if t.recurring then { t with next := u64 (now + t.ms) } else { t with cb := none }

theorem fired_recurring (now : ℕ) (t : Timer) : (t.fired now).recurring = t.recurring := by
  unfold fired
  split <;> rfl

end Timer

namespace TimerManager

open Timer

/-- The callback of the timer at an address. -/
def cb (m : TimerManager) (p : ℕ) : Option Callback := (m.heap p).bind Timer.cb

def recurring (m : TimerManager) (p : ℕ) : Bool := (m.heap p).any Timer.recurring

/-- Whether a timer of the set is taken out at `now`. -/
def due (m : TimerManager) (now : ℕ) (p : ℕ) : Bool :=
  (m.detectClockRollover now).2 || decide (m.next p ≤ now)

/-- The timers that are taken out, in the order of the set. -/
def expired (m : TimerManager) (now : ℕ) : List ℕ := m.timers.filter (m.due now)

/-! ## The cut -/

section Split

variable {m : TimerManager} {now q p : ℕ}

theorem before_probe (hp : p ≠ q) :
    Before (m.setTimer q (Timer.ofNext now)).next p q ↔
      m.next p < now ∨ m.next p = now ∧ p < q := by
  rw [before_iff, next_setTimer_of_ne hp, next_setTimer_self]
  exact Iff.rfl

theorem next_le_of_mem_split (hq : q ∉ m.timers) (hp : p ∈ (m.split now q false).1) :
    m.next p ≤ now := by
  rcases List.mem_append.mp hp with hp | hp
  · have hne : p ≠ q := by
      rintro rfl
      exact hq (List.takeWhile_sublist _ |>.subset hp)
    have hbefore := List.mem_takeWhile_imp
      (p := fun p => decide (Before (m.setTimer q (Timer.ofNext now)).next p q)) hp
    rw [decide_eq_true_eq, before_probe hne] at hbefore
    omega
  · have hnow := List.mem_takeWhile_imp (p := fun p => decide (m.next p = now)) hp
    exact (of_decide_eq_true hnow).le

theorem lt_next_of_mem_split (h : m.timers.Pairwise (Before m.next)) (hq : q ∉ m.timers)
    (hp : p ∈ (m.split now q false).2) : now < m.next p := by
  have hprobe : m.timers.Pairwise (Before (m.setTimer q (Timer.ofNext now)).next) := by
    refine ordered_congr h fun a ha => next_setTimer_of_ne ?_
    rintro rfl
    exact hq ha
  set it := OrderedSet.lowerBound (Before (m.setTimer q (Timer.ofNext now)).next) q m.timers
    with hit
  have hsub : it.Sublist m.timers := List.dropWhile_sublist _
  -- Nothing from `lower_bound` on is earlier than the probe.
  have hle : ∀ p ∈ it, now ≤ m.next p := by
    intro p hp
    have hne : p ≠ q := by
      rintro rfl
      exact hq (hsub.subset hp)
    have hnot := OrderedSet.not_lt_of_mem_lowerBound hprobe hp
    rw [before_probe hne] at hnot
    omega
  have hne : decide (m.next p = now) = false := by
    refine OrderedSet.not_of_mem_dropWhile (p := fun p => decide (m.next p = now))
      (h.sublist hsub) ?_ hp
    intro a ha b _ hab hb
    have hb := of_decide_eq_true hb
    have ha := hle a ha
    rw [before_iff] at hab
    exact decide_eq_true (by omega)
  have hge := hle p ((List.dropWhile_sublist _).subset hp)
  exact lt_of_le_of_ne hge (Ne.symm (of_decide_eq_false hne))

/-- The cut is by the clock alone. -/
theorem split_eq_filter (h : m.timers.Pairwise (Before m.next)) (hq : q ∉ m.timers)
    (rollover : Bool) :
    (m.split now q rollover).1 =
      m.timers.filter fun p => rollover || decide (m.next p ≤ now) := by
  cases rollover with
  | true =>
      symm
      exact List.filter_eq_self.mpr fun _ _ => rfl
  | false =>
      have hleft : (m.split now q false).1.filter (fun p => decide (m.next p ≤ now)) =
          (m.split now q false).1 :=
        List.filter_eq_self.mpr fun p hp => decide_eq_true (next_le_of_mem_split hq hp)
      have hright : (m.split now q false).2.filter (fun p => decide (m.next p ≤ now)) = [] := by
        refine List.filter_eq_nil_iff.mpr fun p hp => ?_
        have := lt_next_of_mem_split h hq hp
        simp only [decide_eq_true_eq]
        omega
      simp only [Bool.false_or]
      conv_rhs => rw [← m.split_append now q false]
      rw [List.filter_append, hleft, hright, List.append_nil]

end Split

/-! ## The loop -/

/-- What the loop returns and what it leaves: every timer it goes through has fired,
and those that are recurring are in the set again. -/
theorem expire_spec (now : ℕ) : ∀ (expired : List ℕ) (m : TimerManager), expired.Nodup →
    (∀ p ∈ expired, m.heap p ≠ none) →
    (expire now m expired).2 = expired.map m.cb ∧
    (∀ p, (expire now m expired).1.heap p =
      if p ∈ expired then (m.heap p).map (fired now) else m.heap p) ∧
    (∀ p, p ∈ (expire now m expired).1.timers ↔
      p ∈ m.timers ∨ p ∈ expired ∧ m.recurring p = true)
  | [], m, _, _ => by
      refine ⟨rfl, fun p => ?_, fun p => ?_⟩
      · rw [if_neg List.not_mem_nil]
        rfl
      · simp [expire]
  | p :: expired, m, hnodup, hheap => by
      obtain ⟨hp, hnodup⟩ := List.nodup_cons.mp hnodup
      obtain ⟨t, ht⟩ := Option.ne_none_iff_exists'.mp (hheap p List.mem_cons_self)
      -- One round: the timer has fired, and is back in the set if it is recurring.
      obtain ⟨m₁, hm₁, hheap₁, htimers₁⟩ : ∃ m₁ : TimerManager,
          (if t.recurring then
              (m.setTimer p { t with next := u64 (now + t.ms) }).insert p
            else m.setTimer p { t with cb := none }) = m₁ ∧
          m₁.heap = Function.update m.heap p (some (t.fired now)) ∧
          ∀ q, q ∈ m₁.timers ↔ q ∈ m.timers ∨ q = p ∧ t.recurring = true := by
        refine ⟨_, rfl, ?_⟩
        unfold fired
        split
        case isTrue hrec =>
          refine ⟨rfl, fun q => ?_⟩
          rw [and_iff_left hrec, or_comm]
          exact OrderedSet.mem_insert
        case isFalse hrec =>
          refine ⟨rfl, fun q => ?_⟩
          rw [or_iff_left fun h => hrec h.2]
          rfl
      have hother : ∀ q ∈ expired, m₁.heap q = m.heap q := by
        intro q hq
        rw [hheap₁, Function.update_of_ne]
        rintro rfl
        exact hp hq
      obtain ⟨hcbs, hheap', htimers'⟩ := expire_spec now expired m₁ hnodup fun q hq => by
        rw [hother q hq]
        exact hheap q (List.mem_cons_of_mem p hq)
      simp only [expire, ht, hm₁]
      refine ⟨?_, fun q => ?_, fun q => ?_⟩
      · rw [hcbs, List.map_cons, cb, ht]
        congr 1
        refine List.map_congr_left fun q hq => ?_
        rw [cb, cb, hother q hq]
      · rw [hheap' q]
        by_cases hqp : q = p
        · subst hqp
          rw [if_neg hp, if_pos List.mem_cons_self, hheap₁, Function.update_self, ht]
          rfl
        · rw [hheap₁, Function.update_of_ne hqp]
          simp only [List.mem_cons, hqp, false_or]
      · rw [htimers' q, htimers₁ q, List.mem_cons]
        by_cases hqp : q = p
        · subst hqp
          have hrec : m.recurring q = t.recurring := by
            rw [recurring, ht]
            rfl
          rw [hrec]
          tauto
        · have hrec : m₁.recurring q = m.recurring q := by
            rw [recurring, recurring, hheap₁, Function.update_of_ne hqp]
          rw [hrec]
          tauto

theorem expire_previouseTime (now : ℕ) : ∀ (expired : List ℕ) (m : TimerManager),
    (expire now m expired).1.previouseTime = m.previouseTime
  | [], m => rfl
  | p :: expired, m => by
      simp only [expire]
      split
      · exact expire_previouseTime now expired m
      · split
        · exact expire_previouseTime now expired _
        · exact expire_previouseTime now expired _

/-! ## The call -/

/-- What `listExpiredCb` does to a manager. -/
structure Expires (m : TimerManager) (now : ℕ) (r : TimerManager × List (Option Callback)) :
    Prop where
  cbs : r.2 = (m.expired now).map m.cb
  heap : ∀ p, r.1.heap p =
    if p ∈ m.expired now then (m.heap p).map (fired now) else m.heap p
  mem : ∀ p, p ∈ r.1.timers ↔
    p ∈ m.timers ∧ (p ∈ m.expired now → m.recurring p = true)

theorem mem_expired {m : TimerManager} {now p : ℕ} :
    p ∈ m.expired now ↔ p ∈ m.timers ∧ m.due now p = true := List.mem_filter

theorem expires_of_nothing {m m' : TimerManager} {now : ℕ} (h : m.expired now = [])
    (hheap : m'.heap = m.heap) (htimers : m'.timers = m.timers) :
    Expires m now (m', []) := by
  refine ⟨?_, fun p => ?_, fun p => ?_⟩
  · rw [h]
    rfl
  · rw [h, if_neg List.not_mem_nil, hheap]
  · rw [h, htimers, and_iff_left]
    exact fun hp => absurd hp List.not_mem_nil

theorem listExpiredCb_expires {m : TimerManager} {P : ℕ → Prop} (h : m.Sound P) (now : ℕ)
    {q : ℕ} (hq : m.heap q = none) : Expires m now (m.listExpiredCb now q) := by
  have hqnot : q ∉ m.timers := fun hmem => h.heap q ((h.mem q).mp hmem) hq
  unfold listExpiredCb
  split
  case h_1 htimers =>
    refine expires_of_nothing ?_ rfl rfl
    rw [expired, htimers]
    rfl
  case h_2 front l htimers =>
    have hsplit : (m.split now q (m.detectClockRollover now).2).1 = m.expired now :=
      split_eq_filter h.ordered hqnot _
    have happend := m.split_append now q (m.detectClockRollover now).2
    rw [hsplit] at happend
    dsimp only
    split_ifs with hearly
    · -- The first timer has not expired, so none has.
      refine expires_of_nothing ?_ rfl rfl
      refine List.filter_eq_nil_iff.mpr fun p hp => ?_
      have hfront : m.next front ≤ m.next p := by
        have hordered := h.ordered
        rw [htimers] at hp hordered
        rcases List.mem_cons.mp hp with rfl | hp
        · exact le_rfl
        · have := before_iff.mp ((List.pairwise_cons.mp hordered).1 p hp)
          omega
      have hlate : m.next front > now := hearly.2
      rw [due, hearly.1, Bool.false_or, decide_eq_true_eq]
      omega
    · set m₁ := { (m.detectClockRollover now).1 with
        timers := (m.split now q (m.detectClockRollover now).2).2 } with hm₁
      have hnodup : (m.expired now ++
          (m.split now q (m.detectClockRollover now).2).2).Nodup := by
        rw [happend]
        exact h.ordered.nodup
      obtain ⟨hcbs, hheap, hmem⟩ := expire_spec now (m.expired now) m₁ hnodup.of_append_left
        fun p hp => h.heap p ((h.mem p).mp (List.mem_of_mem_filter hp))
      show Expires m now (expire now m₁ (m.split now q (m.detectClockRollover now).2).1)
      rw [hsplit]
      refine ⟨hcbs, hheap, fun p => ?_⟩
      have hleft : p ∈ m₁.timers ↔ p ∈ m.timers ∧ p ∉ m.expired now := by
        have hdisjoint := List.disjoint_of_nodup_append hnodup
        rw [← happend, List.mem_append]
        constructor
        · exact fun hp => ⟨Or.inr hp, fun hp' => hdisjoint hp' hp⟩
        · exact fun hp => hp.1.resolve_left hp.2
      have hsub : p ∈ m.expired now → p ∈ m.timers := fun hp => (mem_expired.mp hp).1
      rw [hmem p, hleft]
      show _ ∨ p ∈ m.expired now ∧ m.recurring p = true ↔ _
      tauto

/-- The clock is looked at unless there are no timers. -/
theorem listExpiredCb_previouseTime (m : TimerManager) (now q : ℕ) :
    (m.listExpiredCb now q).1.previouseTime =
      if m.timers = [] then m.previouseTime else now := by
  unfold listExpiredCb
  split
  case h_1 htimers => rw [if_pos htimers]
  case h_2 front l htimers =>
    rw [if_neg (by rw [htimers]; exact List.cons_ne_nil _ _)]
    dsimp only
    split_ifs
    · rfl
    · exact expire_previouseTime now _ _

end TimerManager

end Skt
