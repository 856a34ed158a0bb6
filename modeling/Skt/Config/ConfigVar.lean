import Skt.Lib.Machine

/-!
# `ConfigVar`

`ConfigVar::setValue` compares and calls the listeners under the read lock, gives
this up, and stores the value under the write lock. The calls, each with its own
value, take these two steps in any order; listeners come and go in between.
-/

namespace Skt

namespace Config

open Lib

/-- Where a call of `setValue` is: before the comparison, behind the listeners,
or at its end. -/
inductive Phase
  | entered
  | notified
  | returned
  deriving DecidableEq, Repr

/-- A variable of type `T`, the calls `ι` of `setValue` on it, and what each
listener has been called with: `old_value` and `new_value`. -/
structure ConfigVar (ι T : Type) where
  val : T
  cbs : Finset ℕ
  funId : ℕ
  calls : ι → Phase
  heard : ℕ → List (T × T)

inductive Label (ι : Type)
  | compare (i : ι)
  | store (i : ι)
  | addListener
  | delListener (key : ℕ)
  | clearListener

namespace ConfigVar

variable {ι T : Type} [DecidableEq ι] [DecidableEq T]

/-- `for (auto& i : m_cbs) i.second(m_val, v)`. -/
def notify (v : T) (s : ConfigVar ι T) : ConfigVar ι T :=
  { s with heard := fun k => if k ∈ s.cbs then s.heard k ++ [(s.val, v)] else s.heard k }

def moveTo (i : ι) (phase : Phase) (s : ConfigVar ι T) : ConfigVar ι T :=
  { s with calls := Function.update s.calls i phase }

def step (value : ι → T) (s : ConfigVar ι T) : Label ι → Option (ConfigVar ι T)
  | .compare i =>
      if s.calls i = .entered then
        if value i = s.val then some (s.moveTo i .returned)
        else some ((s.notify (value i)).moveTo i .notified)
      else none
  | .store i =>
      if s.calls i = .notified then some ({ s with val := value i }.moveTo i .returned)
      else none
  | .addListener => some { s with cbs := insert (s.funId + 1) s.cbs, funId := s.funId + 1 }
  | .delListener key => some { s with cbs := s.cbs.erase key }
  | .clearListener => some { s with cbs := ∅ }

/-- A variable with some listeners, on which no call has got anywhere yet. -/
def machine (value : ι → T) (val : T) (cbs : Finset ℕ) (funId : ℕ) :
    Machine (ConfigVar ι T) (Label ι) where
  start := { val, cbs, funId, calls := fun _ => .entered, heard := fun _ => [] }
  step := step value

/-- Each `old_value` is the `new_value` before it. -/
def Chained (log : List (T × T)) : Prop := log.IsChain fun a b => b.1 = a.2

instance (log : List (T × T)) : Decidable (Chained log) := by
  unfold Chained
  infer_instance

/-- No call is between its two locks. -/
def Settled (s : ConfigVar ι T) : Prop := ∀ i, s.calls i ≠ .notified

instance [Fintype ι] (s : ConfigVar ι T) : Decidable s.Settled :=
  inferInstanceAs (Decidable (∀ i, s.calls i ≠ .notified))

/-! ## Runs in which the calls do not overlap -/

/-- The listener `k` stays, and the listeners are only called while no other call
is between its two locks. -/
def Alone (value : ι → T) (k : ℕ) (s : ConfigVar ι T) : Label ι → Prop
  | .compare i => value i = s.val ∨ s.Settled
  | .delListener key => key ≠ k
  | .clearListener => False
  | .store _ => True
  | .addListener => True

instance [Fintype ι] (value : ι → T) (k : ℕ) (s : ConfigVar ι T) (l : Label ι) :
    Decidable (Alone value k s l) := by
  cases l <;> unfold Alone <;> infer_instance

/-- What the listener has heard, and the variable. -/
structure Tracks (value : ι → T) (k : ℕ) (s : ConfigVar ι T) : Prop where
  listens : k ∈ s.cbs
  chained : Chained (s.heard k)
  /-- A call between its locks is the one that was heard last. -/
  pending : ∀ i, s.calls i = .notified →
    value i ≠ s.val ∧ (s.heard k).getLast? = some (s.val, value i)
  single : ∀ i j, s.calls i = .notified → s.calls j = .notified → i = j
  last : s.Settled → ∀ e ∈ (s.heard k).getLast?, e.2 = s.val

variable {value : ι → T} {k : ℕ} {s t : ConfigVar ι T}

omit [DecidableEq T] in
theorem calls_moveTo (i j : ι) (phase : Phase) (s : ConfigVar ι T) :
    (s.moveTo i phase).calls j = if j = i then phase else s.calls j :=
  Function.update_apply ..

omit [DecidableEq ι] [DecidableEq T] in
theorem heard_notify (hk : k ∈ s.cbs) (v : T) :
    (s.notify v).heard k = s.heard k ++ [(s.val, v)] := if_pos hk

omit [DecidableEq ι] [DecidableEq T] in
/-- The listener is called with the stored value as `old_value`. -/
theorem chained_notify (hk : k ∈ s.cbs) (v : T) :
    Chained ((s.notify v).heard k) ↔
      Chained (s.heard k) ∧ ∀ e ∈ (s.heard k).getLast?, s.val = e.2 := by
  rw [heard_notify hk]
  unfold Chained
  rw [List.isChain_append]
  simp

theorem Tracks.compare {i : ι} (h : Tracks value k s)
    (hok : value i = s.val ∨ s.Settled) (hstep : step value s (.compare i) = some t) :
    Tracks value k t := by
  simp only [step] at hstep
  split_ifs at hstep with hi hv
  · cases hstep
    have hcalls : ∀ j, (s.moveTo i .returned).calls j = .notified ↔ s.calls j = .notified := by
      intro j
      rw [calls_moveTo]
      split_ifs with hj
      · simp [hj, hi]
      · rfl
    exact ⟨h.listens, h.chained, fun j hj => h.pending j ((hcalls j).mp hj),
      fun j l hj hl => h.single j l ((hcalls j).mp hj) ((hcalls l).mp hl),
      fun hs => h.last fun j hj => hs j ((hcalls j).mpr hj)⟩
  · cases hstep
    have hs : s.Settled := hok.resolve_left hv
    have hcalls : ∀ j, ((s.notify (value i)).moveTo i .notified).calls j = .notified → j = i := by
      intro j hj
      by_contra hne
      rw [calls_moveTo, if_neg hne] at hj
      exact hs j hj
    refine ⟨h.listens, ?_, ?_, ?_, ?_⟩
    · exact (chained_notify h.listens _).mpr ⟨h.chained, fun e he => (h.last hs e he).symm⟩
    · intro j hj
      obtain rfl := hcalls j hj
      refine ⟨hv, ?_⟩
      show (((s.notify (value j)).heard k).getLast?) = _
      rw [heard_notify h.listens, List.getLast?_concat]
      rfl
    · intro j l hj hl
      rw [hcalls j hj, hcalls l hl]
    · intro hset
      exact absurd (by rw [calls_moveTo, if_pos rfl]) (hset i)

theorem Tracks.store {i : ι} (h : Tracks value k s)
    (hstep : step value s (.store i) = some t) : Tracks value k t := by
  simp only [step] at hstep
  split_ifs at hstep with hi
  cases hstep
  have hset : ({ s with val := value i }.moveTo i .returned).Settled := by
    intro j hj
    rw [calls_moveTo] at hj
    split_ifs at hj with hne
    exact hne (h.single j i hj hi)
  refine ⟨h.listens, h.chained, fun j hj => absurd hj (hset j),
    fun j _ hj => absurd hj (hset j), fun _ e he => ?_⟩
  have hlast : some e = some (s.val, value i) := he.symm.trans (h.pending i hi).2
  rw [Option.some.inj hlast]
  rfl

theorem Tracks.step {l : Label ι} (h : Tracks value k s) (hok : Alone value k s l)
    (hstep : step value s l = some t) : Tracks value k t := by
  cases l with
  | compare i => exact h.compare hok hstep
  | store i => exact h.store hstep
  | addListener =>
      cases hstep
      exact ⟨Finset.mem_insert_of_mem h.listens, h.chained, h.pending, h.single, h.last⟩
  | delListener key =>
      cases hstep
      exact ⟨Finset.mem_erase.mpr ⟨Ne.symm hok, h.listens⟩, h.chained, h.pending, h.single,
        h.last⟩
  | clearListener => exact absurd hok id

/-! ## Calls that overlap -/

/-- What has been heard stays. -/
theorem heard_of_step (k : ℕ) {l : Label ι} (hstep : ConfigVar.step value s l = some t) :
    s.heard k <+: t.heard k := by
  cases l with
  | compare i =>
      simp only [ConfigVar.step] at hstep
      split_ifs at hstep with hi hv
      · cases hstep
        exact List.prefix_rfl
      · cases hstep
        show s.heard k <+: (s.notify (value i)).heard k
        unfold notify
        dsimp only
        split_ifs
        · exact List.prefix_append _ _
        · exact List.prefix_rfl
  | store i =>
      simp only [ConfigVar.step] at hstep
      split_ifs at hstep
      cases hstep
      exact List.prefix_rfl
  | addListener | delListener key | clearListener =>
      cases hstep
      exact List.prefix_rfl

theorem chained_of_runs {val : T} {cbs : Finset ℕ} {funId : ℕ} {Ok : ConfigVar ι T → Label ι → Prop}
    (hruns : (machine value val cbs funId).Runs Ok s t) (h : Chained (t.heard k)) :
    Chained (s.heard k) := by
  have hprefix : True ∧ s.heard k <+: t.heard k :=
    hruns.le (I := fun _ => True) (R := fun s t => s.heard k <+: t.heard k)
      (fun _ => List.prefix_rfl) List.IsPrefix.trans
      (fun _ _ hstep => ⟨trivial, heard_of_step k hstep⟩) trivial
  exact List.IsChain.prefix h hprefix.2

/-- A call whose listeners are called while another one is between its locks. -/
theorem not_chained_of_overlap {i : ι} (h : Tracks value k s)
    (hok : ¬ (value i = s.val ∨ s.Settled)) (hstep : ConfigVar.step value s (.compare i) = some t) :
    ¬ Chained (t.heard k) := by
  obtain ⟨hv, hset⟩ := not_or.mp hok
  obtain ⟨j, hj⟩ := not_forall_not.mp hset
  simp only [ConfigVar.step, if_neg hv] at hstep
  split_ifs at hstep
  cases hstep
  intro hc
  have hlast := ((chained_notify h.listens (value i)).mp hc).2 _ (h.pending j hj).2
  exact (h.pending j hj).1 hlast.symm

/-! ## Runs -/

/-- **Listeners.** In every run in which no call reaches the listeners while another
one is between its two locks, the listener hears a chain of changes that ends with
the value of the variable. One call that does breaks the chain for ever. -/
theorem listener_tracks (value : ι → T) (val : T) (cbs : Finset ℕ) (funId k : ℕ)
    (hk : k ∈ cbs) {s : ConfigVar ι T}
    (h : (machine value val cbs funId).Reachable (Alone value k) s) :
    (Chained (s.heard k) ∧ (s.Settled → ∀ e ∈ (s.heard k).getLast?, e.2 = s.val)) ∧
      ∀ i t u, ¬ Alone value k s (.compare i) → step value s (.compare i) = some t →
        (machine value val cbs funId).Runs (fun _ _ => True) t u → ¬ Chained (u.heard k) := by
  have htracks : Tracks value k s := by
    refine h.invariant ⟨hk, List.isChain_nil, ?_, ?_, ?_⟩
      (fun hI hok hstep => Tracks.step hI hok hstep)
    · exact fun i hi => nomatch hi
    · exact fun i _ hi => nomatch hi
    · exact fun _ e he => absurd he (by simp [machine])
  refine ⟨⟨htracks.chained, htracks.last⟩, fun i t u hok hstep hruns hc => ?_⟩
  exact not_chained_of_overlap htracks hok hstep (chained_of_runs hruns hc)

def twoValues (i : Fin 2) : ℕ := i.val + 1

/-- Two calls one after the other. -/
theorem listener_tracks_two :
    ∃ s, (machine twoValues 0 {1} 1).Reachable (Alone twoValues 1) s ∧
      (∀ i, s.calls i = .returned) ∧ s.heard 1 = [(0, 1), (1, 2)] ∧
      ∀ e ∈ (s.heard 1).getLast?, e.2 = s.val := by
  obtain ⟨s, h, hcalls, hheard⟩ :
      ∃ s, (machine twoValues 0 {1} 1).Reachable (Alone twoValues 1) s ∧
        (∀ i, s.calls i = .returned) ∧ s.heard 1 = [(0, 1), (1, 2)] :=
    Lib.Machine.exists_of_exec
      [.compare 0, .store 0, .addListener, .compare 1, .store 1] (by decide)
  refine ⟨s, h, hcalls, hheard, ?_⟩
  refine (listener_tracks _ 0 {1} 1 1 (by decide) h).1.2 fun i hi => ?_
  rw [hcalls i] at hi
  cases hi

/-- Two calls that both compare before one stores: the listener hears `2` last, the
variable holds `1`. -/
theorem listener_stale :
    ∃ s, (machine twoValues 0 {1} 1).Reachable (fun _ _ => True) s ∧
      (∀ i, s.calls i = .returned) ∧ s.heard 1 = [(0, 1), (0, 2)] ∧ s.val = 1 := by
  exact Lib.Machine.exists_of_exec [.compare 0, .compare 1, .store 1, .store 0]
    (by decide)

end ConfigVar

end Config

end Skt
