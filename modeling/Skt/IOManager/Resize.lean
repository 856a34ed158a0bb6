import Skt.IOManager.Context

/-!
# The vector of contexts

`addEvent` lets go of the read lock before it takes the write lock, and resizes
the vector to 3/2 of its own fd whatever the size is by then. As long as that is
never a smaller size, a context stays where it is once a call has found it.
-/

namespace Skt

set_option maxRecDepth 4000

namespace IOManager

/-! ## What a call leaves alone -/

/-- At most the context `p` has changed, and not its fd. -/
structure Frame (s s' : IOManager) (p : ℕ) : Prop where
  fdContexts : s'.fdContexts = s.fdContexts
  next : s'.next = s.next
  others : ∀ q, q ≠ p → s'.contexts q = s.contexts q
  fd : (s'.contexts p).fd = (s.contexts p).fd

namespace Frame

variable {s s' s'' : IOManager} {p : ℕ}

theorem same (hcontexts : s'.contexts = s.contexts)
    (hvector : s'.fdContexts = s.fdContexts) (hnext : s'.next = s.next) :
    Frame s s' p := by
  refine ⟨hvector, hnext, ?_, ?_⟩
  · intro q _
    rw [hcontexts]
  · rw [hcontexts]

theorem trans (h : Frame s s' p) (h' : Frame s' s'' p) : Frame s s'' p where
  fdContexts := h'.fdContexts.trans h.fdContexts
  next := h'.next.trans h.next
  others q hq := (h'.others q hq).trans (h.others q hq)
  fd := h'.fd.trans h.fd

theorem fd_eq (h : Frame s s' p) (q : ℕ) : (s'.contexts q).fd = (s.contexts q).fd := by
  by_cases hq : q = p
  · rw [hq]
    exact h.fd
  · rw [h.others q hq]

/-- A new value for the context, and for fields that have nothing to do with
the vector. -/
theorem of_update {ctx : FdContext} (hfd : ctx.fd = (s.contexts p).fd)
    (hcontexts : s'.contexts = Function.update s.contexts p ctx)
    (hvector : s'.fdContexts = s.fdContexts) (hnext : s'.next = s.next) :
    Frame s s' p := by
  refine ⟨hvector, hnext, ?_, ?_⟩
  · intro q hq
    rw [hcontexts, Function.update_of_ne hq]
  · rw [hcontexts, Function.update_self, hfd]

end Frame

theorem fire_frame (s : IOManager) (p : ℕ) (e : Event) : Frame s (s.fire p e) p := by
  unfold fire triggerEvent
  dsimp only
  split
  · exact .same rfl rfl rfl
  · split
    · split
      · exact .same rfl rfl rfl
      · refine Frame.of_update ?_ rfl rfl rfl
        rw [FdContext.fd_setContext]
    · exact .same rfl rfl rfl

theorem fireIf_frame (s : IOManager) (real : Events) (p : ℕ) (e : Event) :
    Frame s (s.fireIf real p e) p := by
  unfold fireIf
  split
  · exact fire_frame s p e
  · exact .same rfl rfl rfl

theorem fireIfSet_frame (s : IOManager) (p : ℕ) (e : Event) :
    Frame s (s.fireIfSet p e) p :=
  fireIf_frame s (s.contexts p).events p e

theorem interest_frame (s : IOManager) (p : ℕ) (interest : ℕ → Option Interest) :
    Frame s { s with interest } p :=
  .same rfl rfl rfl

theorem register_frame (s : IOManager) (p : ℕ) (e : Event) (who : Caller)
    (interest : ℕ → Option Interest) : Frame s (s.register p e who interest) p := by
  refine Frame.of_update ?_ rfl rfl rfl
  rw [FdContext.fd_setContext]

theorem unregister_frame (s : IOManager) (p : ℕ) (e : Event)
    (interest : ℕ → Option Interest) : Frame s (s.unregister p e interest) p := by
  refine Frame.of_update ?_ rfl rfl rfl
  rw [FdContext.fd_setContext]

theorem addEvent_frame (s : IOManager) (p fd : ℕ) (e : Event) (who : Caller)
    (ok : Bool) : Frame s (s.addEvent p fd e who ok) p := by
  unfold addEvent
  dsimp only
  split
  · exact .same rfl rfl rfl
  · split
    · exact .same rfl rfl rfl
    · split
      · exact register_frame s p e who _
      · exact .same rfl rfl rfl

theorem delEvent_frame (s : IOManager) (p fd : ℕ) (e : Event) (ok : Bool) :
    Frame s (s.delEvent p fd e ok) p := by
  unfold delEvent
  dsimp only
  split
  · split
    · exact .same rfl rfl rfl
    · exact unregister_frame s p e _
  · exact .same rfl rfl rfl

theorem cancelEvent_frame (s : IOManager) (p fd : ℕ) (e : Event) (ok : Bool) :
    Frame s (s.cancelEvent p fd e ok) p := by
  unfold cancelEvent
  dsimp only
  split
  · split
    · exact .same rfl rfl rfl
    · exact (interest_frame s p _).trans (fire_frame _ p e)
  · exact .same rfl rfl rfl

theorem cancelAll_frame (s : IOManager) (p fd : ℕ) (ok : Bool) :
    Frame s (s.cancelAll p fd ok) p := by
  unfold cancelAll
  split
  · exact .same rfl rfl rfl
  · split
    · exact .same rfl rfl rfl
    case h_2 interest _ =>
      have hboth := ((interest_frame s p interest).trans
        (fireIfSet_frame _ p .READ)).trans (fireIfSet_frame _ p .WRITE)
      dsimp only
      split
      · exact hboth
      · exact hboth.trans (.same rfl rfl rfl)

theorem dispatch_frame (s : IOManager) (p : ℕ) (r : Report) (ok : Bool) :
    Frame s (s.dispatch p r ok) p := by
  unfold dispatch
  dsimp only
  split
  · exact .same rfl rfl rfl
  · split
    · exact .same rfl rfl rfl
    · exact ((interest_frame s p _).trans (fireIf_frame _ _ p .READ)).trans
        (fireIf_frame _ _ p .WRITE)

theorem locked_frame (s : IOManager) (c : Call) (p : ℕ) (ok : Bool) :
    Frame s (c.locked s p ok) p := by
  cases c with
  | addEvent fd e who => exact addEvent_frame s p fd e who ok
  | delEvent fd e => exact delEvent_frame s p fd e ok
  | cancelEvent fd e => exact cancelEvent_frame s p fd e ok
  | cancelAll fd => exact cancelAll_frame s p fd ok

/-! ## Resizing -/

section contextResize

variable (s : IOManager) {size fd : ℕ}

theorem length_contextResize (size : ℕ) :
    (s.contextResize size).fdContexts.length = size := by
  simp only [contextResize, List.length_append, List.length_take, List.length_map,
    List.length_range]
  omega

theorem contextResize_old (hsize : fd < size) (hfd : fd < s.fdContexts.length) :
    (s.contextResize size).fdContexts[fd]? = s.fdContexts[fd]? := by
  simp only [contextResize]
  rw [List.getElem?_append_left (by rw [List.length_take]; omega),
    List.getElem?_take_of_lt hsize]

theorem contextResize_new (hsize : fd < size) (hfd : s.fdContexts.length ≤ fd) :
    (s.contextResize size).fdContexts[fd]? =
      some (s.next + (fd - s.fdContexts.length)) := by
  simp only [contextResize]
  rw [List.getElem?_append_right (by rw [List.length_take]; omega)]
  have hlen : (s.fdContexts.take size).length = s.fdContexts.length := by
    rw [List.length_take]
    omega
  rw [hlen, List.getElem?_map, List.getElem?_range (by omega)]
  rfl

theorem contextResize_context {p : ℕ} (hp : p < s.next) :
    (s.contextResize size).contexts p = s.contexts p := by
  simp only [contextResize]
  rw [if_neg (by omega)]

theorem contextResize_fresh (hsize : fd < size) (hfd : s.fdContexts.length ≤ fd) :
    (s.contextResize size).contexts (s.next + (fd - s.fdContexts.length)) =
      .new fd := by
  simp only [contextResize]
  rw [if_pos (by omega)]
  congr 1
  omega

end contextResize

/-- Every entry of the vector is an allocated context, with the fd it is for. -/
def Indexed (s : IOManager) : Prop :=
  ∀ fd p, s.fdContexts[fd]? = some p → p < s.next ∧ (s.contexts p).fd = fd

theorem contextResize_indexed {s : IOManager} (h : s.Indexed) (size : ℕ) :
    (s.contextResize size).Indexed := by
  intro fd p hp
  have hsize : fd < size := by
    have := (List.getElem?_eq_some_iff.mp hp).1
    rwa [length_contextResize] at this
  rcases Nat.lt_or_ge fd s.fdContexts.length with hold | hnew
  · rw [contextResize_old s hsize hold] at hp
    obtain ⟨hlt, hfd⟩ := h fd p hp
    refine ⟨Nat.lt_of_lt_of_le hlt (Nat.le_add_right _ _), ?_⟩
    rw [contextResize_context s hlt]
    exact hfd
  · rw [contextResize_new s hsize hnew] at hp
    cases hp
    refine ⟨?_, ?_⟩
    · simp only [contextResize]
      omega
    · rw [contextResize_fresh s hsize hnew]
      rfl

theorem new_indexed : new.Indexed := by
  apply contextResize_indexed
  intro fd p hp
  cases hp

theorem Frame.indexed {s s' : IOManager} {p : ℕ} (h : Frame s s' p) (hs : s.Indexed) :
    s'.Indexed := by
  intro fd q hq
  rw [h.fdContexts] at hq
  obtain ⟨hlt, hfd⟩ := hs fd q hq
  rw [h.next, h.fd_eq]
  exact ⟨hlt, hfd⟩

end IOManager

namespace System

/-! ## Runs -/

/-- A call that is to resize a vector of length `n` does not make it shorter. -/
def Phase.Grows (n : ℕ) : Phase → Prop
  | .resize fd _ _ => n ≤ 3 * fd / 2
  | _ => True

instance (n : ℕ) : DecidablePred (Phase.Grows n)
  | .resize fd _ _ => inferInstanceAs (Decidable (n ≤ 3 * fd / 2))
  | .ready | .located _ _ | .reported _ => inferInstanceAs (Decidable True)

def Growing (s : System) : Label → Prop
  | .resize t => Phase.Grows s.io.fdContexts.length (s.threads t)
  | _ => True

instance (s : System) : DecidablePred (Growing s)
  | .resize t => inferInstanceAs
      (Decidable (Phase.Grows s.io.fdContexts.length (s.threads t)))
  | .call _ _ | .lock _ _ | .wait _ _ => inferInstanceAs (Decidable True)

theorem Growing.le {s : System} {t fd : ℕ} {event : Event} {who : Caller}
    (h : Growing s (.resize t)) (hphase : s.threads t = .resize fd event who) :
    s.io.fdContexts.length ≤ 3 * fd / 2 := by
  simp only [Growing, hphase] at h
  exact h

/-- What a call has found is in the vector, and so is what has a waiter. -/
structure Placed (s : System) : Prop where
  indexed : s.io.Indexed
  located : ∀ t c p, s.threads t = .located c p → s.io.fdContexts[c.fd]? = some p
  waiting : ∀ p, (s.io.contexts p).events ≠ .none →
    s.io.fdContexts[(s.io.contexts p).fd]? = some p

/-- Every lookup of `s` gives the same in `s'`. -/
def Extends (s s' : System) : Prop :=
  ∀ fd p : ℕ, s.io.fdContexts[fd]? = some p → s'.io.fdContexts[fd]? = some p

theorem threads_goto_self (s : System) (io : IOManager) (t : ℕ) (phase : Phase) :
    (s.goto io t phase).threads t = phase :=
  Function.update_self _ _ _

theorem threads_goto_of_ne (s : System) (io : IOManager) {t u : ℕ} (phase : Phase)
    (h : u ≠ t) : (s.goto io t phase).threads u = s.threads u :=
  Function.update_of_ne h _ _

/-- A thread moves on; the calls of the others have found what they have found. -/
theorem located_goto {s : System} {io : IOManager} {t : ℕ} {phase : Phase}
    (hmono : ∀ (fd p : ℕ), s.io.fdContexts[fd]? = some p → io.fdContexts[fd]? = some p)
    (hphase : ∀ c p, phase = .located c p → io.fdContexts[c.fd]? = some p)
    (hs : ∀ t c p, s.threads t = .located c p → s.io.fdContexts[c.fd]? = some p) :
    ∀ u c p, (s.goto io t phase).threads u = .located c p →
      io.fdContexts[c.fd]? = some p := by
  intro u c p hu
  by_cases hut : u = t
  · rw [hut, threads_goto_self] at hu
    exact hphase c p hu
  · rw [threads_goto_of_ne s io phase hut] at hu
    exact hmono _ _ (hs u c p hu)

/-- Work on a context that is in the vector, or on one without a waiter that
stays without. -/
theorem Placed.frame {s : System} (hs : s.Placed) {io : IOManager} {t p : ℕ}
    {phase : Phase} (h : IOManager.Frame s.io io p)
    (hp : s.io.fdContexts[(s.io.contexts p).fd]? = some p ∨
      (io.contexts p).events = .none)
    (hphase : ∀ c q, phase ≠ .located c q) :
    (s.goto io t phase).Placed ∧ Extends s (s.goto io t phase) := by
  have hmono : ∀ (fd q : ℕ), s.io.fdContexts[fd]? = some q →
      io.fdContexts[fd]? = some q := by
    intro fd q hq
    rw [h.fdContexts]
    exact hq
  refine ⟨⟨h.indexed hs.indexed, ?_, ?_⟩, hmono⟩
  · exact located_goto hmono (fun c q hq => absurd hq (hphase c q)) hs.located
  · intro q hq
    apply hmono
    rw [show ((s.goto io t phase).io.contexts q).fd = (s.io.contexts q).fd from
      h.fd_eq q]
    by_cases hqp : q = p
    · subst hqp
      rcases hp with hp | hp
      · exact hp
      · exact absurd hp hq
    · apply hs.waiting
      rw [← h.others q hqp]
      exact hq

theorem Placed.stay {s : System} (hs : s.Placed) {t : ℕ} {phase : Phase}
    (hphase : ∀ c p, phase = .located c p → s.io.fdContexts[c.fd]? = some p) :
    (s.goto s.io t phase).Placed ∧ Extends s (s.goto s.io t phase) :=
  ⟨⟨hs.indexed, located_goto (fun _ _ h => h) hphase hs.located, hs.waiting⟩,
    fun _ _ h => h⟩

theorem dispatch_of_none {s : IOManager} {p : ℕ} (h : (s.contexts p).events = .none)
    (r : IOManager.Report) (ok : Bool) : s.dispatch p r ok = s := by
  have hmiss : (s.contexts p).events.inter r.real = .none := by
    rw [h]
    rfl
  simp only [IOManager.dispatch, if_pos hmiss]

/-- The vector gets longer. -/
theorem Placed.grow {s : System} (hs : s.Placed) {size t : ℕ} {phase : Phase}
    (hsize : s.io.fdContexts.length ≤ size)
    (hphase : ∀ c p, phase = .located c p →
      (s.io.contextResize size).fdContexts[c.fd]? = some p) :
    (s.goto (s.io.contextResize size) t phase).Placed ∧
      Extends s (s.goto (s.io.contextResize size) t phase) := by
  have hmono : ∀ (fd p : ℕ), s.io.fdContexts[fd]? = some p →
      (s.io.contextResize size).fdContexts[fd]? = some p := by
    intro fd p hp
    have hlt := (List.getElem?_eq_some_iff.mp hp).1
    rw [IOManager.contextResize_old s.io (Nat.lt_of_lt_of_le hlt hsize) hlt]
    exact hp
  refine ⟨⟨IOManager.contextResize_indexed hs.indexed size,
    located_goto hmono hphase hs.located, ?_⟩, hmono⟩
  intro p hp
  change ((s.io.contextResize size).contexts p).events ≠ .none at hp
  change (s.io.contextResize size).fdContexts[
    ((s.io.contextResize size).contexts p).fd]? = some p
  by_cases hold : p < s.io.next
  · rw [IOManager.contextResize_context s.io hold] at hp ⊢
    exact hmono _ _ (hs.waiting p hp)
  · -- A context that has just been made has no waiter, nor has one that was not.
    have hnone : (s.io.contexts p).events = .none := by
      by_contra hne
      exact hold (hs.indexed _ _ (hs.waiting p hne)).1
    simp only [IOManager.contextResize] at hp
    split at hp
    · exact absurd rfl hp
    · exact absurd hnone hp

theorem took_placed {s s' : System} {l : Label} (hs : s.Placed) (hok : Growing s l)
    (h : Took s l s') : s'.Placed ∧ Extends s s' := by
  cases h with
  | found h hp =>
      apply hs.stay
      rintro c p ⟨⟩
      exact hp
  | tooShort | drained | waited =>
      apply hs.stay
      rintro c p ⟨⟩
  | returned => exact ⟨hs, fun _ _ h => h⟩
  | resized h hp =>
      apply hs.grow (hok.le h)
      rintro c p ⟨⟩
      exact hp
  | @outOfRange t fd event who h hp =>
      have hgrow : (s.goto (s.io.contextResize (3 * fd / 2)) t .ready).Placed ∧ _ :=
        hs.grow (hok.le h) (by rintro c p ⟨⟩)
      exact ⟨⟨hgrow.1.indexed, hgrow.1.located, hgrow.1.waiting⟩, hgrow.2⟩
  | @locked t p ok c h =>
      have hp := hs.located _ _ _ h
      apply hs.frame (IOManager.locked_frame s.io c p ok)
      · rw [(hs.indexed _ _ hp).2]
        exact Or.inl hp
      · rintro c p ⟨⟩
  | @dispatched t p ok r events h =>
      apply hs.frame (IOManager.dispatch_frame s.io p r ok)
      · by_cases hnone : (s.io.contexts p).events = .none
        · rw [dispatch_of_none hnone]
          exact Or.inr hnone
        · exact Or.inl (hs.waiting p hnone)
      · rintro c p ⟨⟩

theorem start_placed : machine.start.Placed := by
  refine ⟨IOManager.new_indexed, ?_, ?_⟩
  · rintro t c p ⟨⟩
  · intro p hp
    refine absurd ?_ hp
    simp only [machine, IOManager.new, IOManager.contextResize]
    split <;> rfl

theorem Extends.length_le {s s' : System} (h : Extends s s') :
    s.io.fdContexts.length ≤ s'.io.fdContexts.length := by
  by_contra hlt
  have hget := h s'.io.fdContexts.length _
    (List.getElem?_eq_getElem (Nat.lt_of_not_le hlt))
  rw [List.getElem?_eq_none (Nat.le_refl _)] at hget
  cases hget

/-- **Contexts stay in place.** In every run whose resizes never make the vector
shorter: from a reachable state on, the vector gets no shorter, a context that a
call has found for an fd is what every later call on that fd finds, and a context
with a waiter is the one that its fd leads to. -/
theorem contexts_stay {s s' : System} (h : machine.Reachable Growing s)
    (hrun : machine.Runs Growing s s') :
    s.io.fdContexts.length ≤ s'.io.fdContexts.length ∧
      (∀ t c p, s.threads t = .located c p →
        s'.io.fdContexts[c.fd]? = some p ∧
        ∀ t' c' p', s'.threads t' = .located c' p' → c'.fd = c.fd → p' = p) ∧
      ∀ p, (s'.io.contexts p).events ≠ .none →
        s'.io.fdContexts[(s'.io.contexts p).fd]? = some p := by
  have hplaced : s.Placed := by
    apply h.invariant start_placed
    intro s t l hs hok hstep
    exact (took_placed hs hok (took_of_step hstep).2).1
  obtain ⟨hplaced', hext⟩ := hrun.le (R := Extends) (fun _ _ _ h => h)
    (fun h h' fd p hp => h' fd p (h fd p hp))
    (fun hs hok hstep => took_placed hs hok (took_of_step hstep).2) hplaced
  refine ⟨hext.length_le, ?_, hplaced'.waiting⟩
  intro t c p hc
  have hp := hext _ _ (hplaced.located t c p hc)
  refine ⟨hp, ?_⟩
  intro t' c' p' hc' hfd
  have hp' := hplaced'.located t' c' p' hc'
  rw [hfd, hp] at hp'
  exact (Option.some.inj hp').symm

/-- A registration of `READ` on fd 64, which makes the vector longer. -/
theorem contexts_stay_found :
    ∃ s s', machine.Reachable Growing s ∧ machine.Runs Growing s s' ∧
      s.threads 0 = .located (.addEvent 64 .READ ⟨0, 7, none⟩) 64 ∧
      (s'.io.contexts 64).events = ⟨true, false⟩ ∧
      s'.io.fdContexts[64]? = some 64 := by
  obtain ⟨s, h, hexec⟩ : ∃ s, machine.Reachable Growing s ∧
      s.threads 0 = .located (.addEvent 64 .READ ⟨0, 7, none⟩) 64 ∧
      (machine.exec Growing s
        [.lock 0 true, .call 1 (.delEvent 64 .WRITE)]).any
        (fun s' => decide ((s'.io.contexts 64).events = ⟨true, false⟩)) = true :=
    Lib.Machine.exists_of_exec
      [.call 0 (.addEvent 64 .READ ⟨0, 7, none⟩), .resize 0] (by decide)
  obtain ⟨s', hrun, hevents⟩ :=
    Lib.Machine.exists_of_exec _ hexec.2
  exact ⟨s, s', h, hrun, hexec.1, hevents,
    ((contexts_stay h hrun).2.1 0 _ _ hexec.1).1⟩

/-- Two threads find the vector too short for their fds, 64 and 33. The second
of them takes entry 64 out again, in which `READ` has a waiter by now; the next
call on fd 64 finds another context. -/
theorem contexts_dropped :
    ∃ s s' s'', machine.Reachable (fun _ _ => True) s ∧
      machine.Runs (fun _ _ => True) s s' ∧ machine.Runs (fun _ _ => True) s' s'' ∧
      s'.io.fdContexts.length < s.io.fdContexts.length ∧
      s.threads 0 = .located (.addEvent 64 .READ ⟨0, 7, none⟩) 64 ∧
      (s''.io.contexts 64).events = ⟨true, false⟩ ∧
      s''.threads 2 = .located (.addEvent 64 .WRITE ⟨0, 9, none⟩) 111 := by
  obtain ⟨s, h, hlocated, hexec⟩ : ∃ s, machine.Reachable (fun _ _ => True) s ∧
      s.threads 0 = .located (.addEvent 64 .READ ⟨0, 7, none⟩) 64 ∧
      (machine.exec (fun _ _ => True) s [.lock 0 true, .resize 1]).any (fun s' =>
        decide (s'.io.fdContexts.length < s.io.fdContexts.length ∧
          (machine.exec (fun _ _ => True) s'
            [.call 2 (.addEvent 64 .WRITE ⟨0, 9, none⟩), .resize 2]).any (fun s'' =>
              decide ((s''.io.contexts 64).events = ⟨true, false⟩ ∧
                s''.threads 2 = .located (.addEvent 64 .WRITE ⟨0, 9, none⟩) 111)) =
            true)) = true :=
    Lib.Machine.exists_of_exec
      [.call 0 (.addEvent 64 .READ ⟨0, 7, none⟩),
        .call 1 (.addEvent 33 .READ ⟨0, 8, none⟩), .resize 0] (by decide)
  obtain ⟨s', hrun, hlt, hexec'⟩ :=
    Lib.Machine.exists_of_exec _ hexec
  obtain ⟨s'', hrun', hevents, hother⟩ :=
    Lib.Machine.exists_of_exec _ hexec'
  exact ⟨s, s', s'', h, hrun, hrun', hlt, hlocated, hevents, hother⟩

end System

end Skt
