import Skt.FdManager.Model
import Skt.Lib.Machine

/-!
# Concurrent calls of `FdManager::get`

`get(fd, true)` looks the context up under the read lock, gives this up, and makes a
context under the write lock without looking again. A context is a number here: the
place where `new FdCtx` has put it. Every call has its own fd, and `del` may be called
in between.
-/

namespace Skt

namespace FdManager

open Lib Lib.CString

/-- Where a call of `get(fd, true)` is. -/
inductive Phase
  | entered
  /-- between the locks -/
  | missed
  | returned (ctx : Option ℕ)
  deriving DecidableEq, Repr

structure State (ι : Type) where
  datas : Datas ℕ
  next : ℕ
  calls : ι → Phase

inductive Label (ι : Type)
  | lookup (i : ι)
  | create (i : ι)
  | del (fd : ℕ)

namespace State

variable {ι : Type} [DecidableEq ι]

def moveTo (i : ι) (phase : Phase) (s : State ι) : State ι :=
  { s with calls := Function.update s.calls i phase }

def step (fd : ι → ℕ) (s : State ι) : Label ι → Option (State ι)
  | .lookup i =>
      if s.calls i = .entered then
        match lookup s.datas (fd i) true with
        | some found => some (s.moveTo i (.returned found))
        | none => some (s.moveTo i .missed)
      else none
  | .create i =>
      if s.calls i = .missed then
        some ({ s with datas := create s.datas (fd i) s.next, next := s.next + 1 }.moveTo i
          (.returned (some s.next)))
      else none
  | .del fd => some { s with datas := del s.datas fd }

def machine (fd : ι → ℕ) : Machine (State ι) (Label ι) where
  start := { datas := FdManager.new, next := 0, calls := fun _ => .entered }
  step := step fd

/-- Every call for `f` that has returned has returned the context that is stored. -/
def Agree (fd : ι → ℕ) (f : ℕ) (s : State ι) : Prop :=
  ∀ i found, fd i = f → s.calls i = .returned found → found ≠ none ∧ found = entry s.datas f

/-- A context is made only where there is none, and the table does not get shorter
by it; `f` is not deleted. -/
def Checked (fd : ι → ℕ) (f : ℕ) (s : State ι) : Label ι → Prop
  | .lookup _ => True
  | .create i => (fd i = f → entry s.datas f = none) ∧ Fits s.datas (fd i)
  | .del f' => f' ≠ f

instance (fd : ι → ℕ) (f : ℕ) (s : State ι) (l : Label ι) :
    Decidable (Checked fd f s l) := by
  cases l <;> unfold Checked <;> infer_instance

/-! ## One step -/

-- The sizes in these are compared with large numbers, which are not to be unfolded.
attribute [local irreducible] FdManager.lookup FdManager.create FdManager.del

structure Stored (fd : ι → ℕ) (f : ℕ) (s : State ι) : Prop where
  length_ge : 64 ≤ s.datas.length
  length_lt : s.datas.length < 4294967296
  agree : s.Agree fd f
  /-- The stored context is the one of a call, and is older than the next one. -/
  made : ∀ c, entry s.datas f = some c → c < s.next ∧ ∃ i, fd i = f ∧ s.calls i = .returned (some c)

variable {fd : ι → ℕ} {f : ℕ} {s t : State ι}

theorem calls_moveTo (i j : ι) (phase : Phase) (s : State ι) :
    (s.moveTo i phase).calls j = if j = i then phase else s.calls j :=
  Function.update_apply ..

/-- A call with no other step in between computes `get`, and makes no context where there is
one. -/
theorem runs_get {i : ι} (f : ℕ) (hlen : s.datas.length < 2147483648)
    (hi : s.calls i = .entered) : ∃ t, (machine fd).Runs (Checked fd f) s t ∧
      t.calls i = .returned (get s.datas (fd i) true s.next).1 ∧
      t.datas = (get s.datas (fd i) true s.next).2 := by
  cases hlookup : FdManager.lookup s.datas (fd i) true with
  | some found =>
      have hstep : step fd s (.lookup i) = some (s.moveTo i (.returned found)) := by
        simp only [step, hi, hlookup, if_true]
      have hget : get s.datas (fd i) true s.next = (found, s.datas) := by
        rw [get, hlookup]
        rfl
      rw [hget]
      refine ⟨_, .tail (.lookup i) (.refl s) trivial hstep, ?_, rfl⟩
      rw [calls_moveTo, if_pos rfl]
  | none =>
      have hstep : step fd s (.lookup i) = some (s.moveTo i .missed) := by
        simp only [step, hi, hlookup, if_true]
      have hmissed : (s.moveTo i .missed).calls i = .missed := by
        rw [calls_moveTo, if_pos rfl]
      have hok : Checked fd f (s.moveTo i .missed) (.create i) :=
        ⟨fun hf => hf ▸ lookup_none hlen hlookup, Or.inl hlen⟩
      have hget : get s.datas (fd i) true s.next =
          (some s.next, FdManager.create s.datas (fd i) s.next) := by
        rw [get, hlookup]
        rfl
      rw [hget]
      refine ⟨_, .tail (.create i) (.tail (.lookup i) (.refl s) trivial hstep) hok
        (if_pos hmissed), ?_, rfl⟩
      rw [calls_moveTo, if_pos rfl]
      rfl

theorem Stored.lookup {i : ι} (h : Stored fd f s) (hstep : step fd s (.lookup i) = some t) :
    Stored fd f t := by
  simp only [step] at hstep
  split_ifs at hstep with hi
  have hmade : ∀ {phase}, (∀ c, entry s.datas f = some c →
      ∃ j, fd j = f ∧ (s.moveTo i phase).calls j = .returned (some c)) := by
    intro phase c hc
    obtain ⟨-, j, hj, hcall⟩ := h.made c hc
    refine ⟨j, hj, ?_⟩
    rw [calls_moveTo, if_neg, hcall]
    rintro rfl
    rw [hi] at hcall
    cases hcall
  cases hlookup : FdManager.lookup s.datas (fd i) true with
  | some found =>
      simp only [hlookup, Option.some.injEq] at hstep
      subst hstep
      obtain ⟨hfound, hne⟩ := entry_of_lookup hlookup
      refine ⟨h.length_ge, h.length_lt, fun j found' hj hcall => ?_,
        fun c hc => ⟨(h.made c hc).1, hmade c hc⟩⟩
      rw [calls_moveTo] at hcall
      split_ifs at hcall with hji
      · cases hcall
        subst hji hj
        exact ⟨hne, hfound⟩
      · exact h.agree j found' hj hcall
  | none =>
      simp only [hlookup, Option.some.injEq] at hstep
      subst hstep
      refine ⟨h.length_ge, h.length_lt, fun j found' hj hcall => ?_,
        fun c hc => ⟨(h.made c hc).1, hmade c hc⟩⟩
      rw [calls_moveTo] at hcall
      split_ifs at hcall with hji
      exact h.agree j found' hj hcall

theorem Stored.create {i : ι} (h : Stored fd f s) (hok : Checked fd f s (.create i))
    (hlt : fd i < 2147483648) (hstep : step fd s (.create i) = some t) : Stored fd f t := by
  simp only [step] at hstep
  split_ifs at hstep with hi
  obtain rfl := Option.some.inj hstep
  obtain ⟨hnone, hfits⟩ := hok
  have hentry := entry_create h.length_ge hfits s.next f
  have hlen : (FdManager.create s.datas (fd i) s.next).length < 4294967296 := by
    have := h.length_lt
    unfold FdManager.create
    split_ifs
    · rw [List.length_set, length_resize]
      omega
    · rwa [List.length_set]
  have hge : 64 ≤ (FdManager.create s.datas (fd i) s.next).length :=
    le_trans h.length_ge (length_le_create h.length_ge hfits s.next)
  refine ⟨hge, hlen, ?_, ?_⟩
  · intro j found hj hcall
    rw [calls_moveTo] at hcall
    show found ≠ none ∧ found = entry (FdManager.create s.datas (fd i) s.next) f
    rw [hentry]
    split_ifs at hcall with hji
    · cases hcall
      subst hji
      rw [if_pos hj.symm]
      exact ⟨Option.some_ne_none _, rfl⟩
    · obtain ⟨hne, hfound⟩ := h.agree j found hj hcall
      rw [if_neg, ← hfound]
      · exact ⟨hne, rfl⟩
      · intro hf
        exact hne (hfound.trans (hnone hf.symm))
  · intro c hc
    replace hc : entry (FdManager.create s.datas (fd i) s.next) f = some c := hc
    rw [hentry] at hc
    split_ifs at hc with hf
    · cases hc
      exact ⟨Nat.lt_succ_self _, i, hf.symm, by rw [calls_moveTo, if_pos rfl]⟩
    · obtain ⟨hc', j, hj, hcall⟩ := h.made c hc
      refine ⟨Nat.lt_succ_of_lt hc', j, hj, ?_⟩
      rw [calls_moveTo, if_neg]
      · exact hcall
      · rintro rfl
        exact hf hj.symm

theorem Stored.step {l : Label ι} (hfd : ∀ i, fd i < 2147483648) (h : Stored fd f s)
    (hok : Checked fd f s l) (hstep : step fd s l = some t) : Stored fd f t := by
  cases l with
  | lookup i => exact h.lookup hstep
  | create i => exact h.create hok (hfd i) hstep
  | del f' =>
      obtain rfl := Option.some.inj hstep
      have hentry := entry_del_of_ne s.datas (Ne.symm hok)
      have hlen := length_del s.datas f'
      refine ⟨hlen ▸ h.length_ge, hlen ▸ h.length_lt, ?_, ?_⟩
      · intro i found hi hcall
        rw [hentry]
        exact h.agree i found hi hcall
      · intro c hc
        rw [hentry] at hc
        exact h.made c hc

theorem stored_start : Stored fd f (machine fd).start where
  length_ge := by
    show 64 ≤ (List.replicate 64 none).length
    simp
  length_lt := by
    show (List.replicate 64 none).length < 4294967296
    simp
  agree := fun _ _ _ h => nomatch h
  made := fun c hc => by
    rw [show (machine fd).start.datas = FdManager.new from rfl, entry_new] at hc
    cases hc

/-- A context made where there is one already: the two calls disagree. -/
theorem not_agree_of_create {i : ι} (h : Stored fd f s) (hi : fd i = f)
    (hentry : entry s.datas f ≠ none) (hstep : State.step fd s (.create i) = some t) :
    ¬ t.Agree fd f := by
  intro hagree
  obtain ⟨c, hc⟩ := Option.ne_none_iff_exists'.mp hentry
  obtain ⟨hlt, j, hj, hcall⟩ := h.made c hc
  simp only [State.step] at hstep
  split_ifs at hstep with hmissed
  obtain rfl := Option.some.inj hstep
  have hji : j ≠ i := by
    rintro rfl
    rw [hmissed] at hcall
    cases hcall
  obtain ⟨-, hnew⟩ := hagree i (some s.next) hi (by rw [calls_moveTo, if_pos rfl])
  obtain ⟨-, hold⟩ := hagree j (some c) hj (by rw [calls_moveTo, if_neg hji, hcall])
  have := Option.some.inj (hold.trans hnew.symm)
  omega

/-! ## Runs -/

/-- **Contexts.** In every run in which a context is made only where there is none, and
no table of `2^31` entries is cut down, all calls for `f` return the context that is
stored, and the table never gets shorter. A call that makes a context against this
condition breaks the one or the other. -/
theorem get_agree (fd : ι → ℕ) (hfd : ∀ i, fd i < 2147483648) (f : ℕ) {s : State ι}
    (h : (machine fd).Reachable (Checked fd f) s) :
    s.Agree fd f ∧
      (∀ l t, Checked fd f s l → step fd s l = some t → s.datas.length ≤ t.datas.length) ∧
      ∀ i t, ¬ Checked fd f s (.create i) → step fd s (.create i) = some t →
        ¬ t.Agree fd f ∨ t.datas.length < s.datas.length := by
  have hstored : Stored fd f s :=
    h.invariant stored_start fun hI hok hstep => Stored.step hfd hI hok hstep
  refine ⟨hstored.agree, fun l t hok hstep => ?_, fun i t hok hstep => ?_⟩
  · cases l with
    | lookup i =>
        simp only [step] at hstep
        split_ifs at hstep
        cases hlookup : FdManager.lookup s.datas (fd i) true with
        | some found =>
            rw [hlookup] at hstep
            obtain rfl := Option.some.inj hstep
            exact le_rfl
        | none =>
            rw [hlookup] at hstep
            obtain rfl := Option.some.inj hstep
            exact le_rfl
    | create i =>
        simp only [step] at hstep
        split_ifs at hstep
        obtain rfl := Option.some.inj hstep
        exact length_le_create hstored.length_ge hok.2 _
    | del f' =>
        obtain rfl := Option.some.inj hstep
        exact (length_del _ _).ge
  · rcases not_and_or.mp hok with hentry | hfits
    · obtain ⟨hi, hentry⟩ := Classical.not_imp.mp hentry
      exact Or.inl (not_agree_of_create hstored hi hentry hstep)
    · right
      simp only [step] at hstep
      split_ifs at hstep
      obtain rfl := Option.some.inj hstep
      exact length_create_of_not_fits hfits hstored.length_lt _

def sameFd (_ : Fin 2) : ℕ := 70

/-- Two calls one after the other, for an fd behind the end of the table. -/
theorem get_agree_two :
    ∃ s, (machine sameFd).Reachable (Checked sameFd 70) s ∧ s.datas.length = 105 ∧
      s.calls 0 = .returned (some 0) ∧ s.calls 1 = .returned (some 0) ∧ s.Agree sameFd 70 := by
  obtain ⟨s, h, hlen, h₀, h₁⟩ :
      ∃ s, (machine sameFd).Reachable (Checked sameFd 70) s ∧ s.datas.length = 105 ∧
        s.calls 0 = .returned (some 0) ∧ s.calls 1 = .returned (some 0) :=
    Lib.Machine.exists_of_exec [.lookup 0, .create 0, .lookup 1]
      (by decide +kernel)
  exact ⟨s, h, hlen, h₀, h₁, (get_agree sameFd (by decide) 70 h).1⟩

/-- Both calls look before one of them has made a context. -/
theorem get_twice :
    ∃ s, (machine sameFd).Reachable (fun _ _ => True) s ∧
      s.calls 0 = .returned (some 0) ∧ s.calls 1 = .returned (some 1) ∧
      entry s.datas 70 = some 1 := by
  exact Lib.Machine.exists_of_exec [.lookup 0, .lookup 1, .create 0, .create 1]
    (by decide +kernel)

end State

end FdManager

end Skt
