import Skt.IOManager.Serves
import Skt.Hook.Model

/-!
# The timeout of a hooked call

The timer is added before the event is registered. A callback that comes in between
finds nothing to cancel, and the call goes on to wait for an event that may never
come; so does a call that goes on to another round while the callback of the last one
is still to come.
-/

namespace Skt

namespace HookedIo

variable {a : Args} {s s' : HookedIo} {l : Label}

/-- The call is on its way to a registration. -/
def Phase.between : Phase → Bool
  | .io | .addTimer | .addEvent => true
  | _ => false

/-- The call is registered, or was until it was triggered. -/
def Phase.ticket : Phase → Option ℕ
  | .yield ticket | .held ticket => some ticket
  | _ => none

/-- The event of the call is registered. -/
def Registered (a : Args) (s : HookedIo) : Prop := s.iom.Has a.ptr a.event

/-! ## What a step does to the `IOManager` -/

theorem locked_serves {iom : IOManager} (hs : iom.Sane) {c : Call} {ptr p : ℕ} {e : Event}
    (h : concerns ptr e p c = false) (ok : Bool) :
    IOManager.Serves ptr e iom (c.locked iom p ok) := by
  have hne : ∀ e' : Event, (decide (p = ptr) && decide (e' = e)) = false → p = ptr → e' ≠ e := by
    intro e' hfalse hp he
    simp [hp, he] at hfalse
  cases c with
  | addEvent fd e' who => exact .addEvent who ok (hne e' h)
  | delEvent fd e' => exact .delEvent ok (hne e' h)
  | cancelEvent fd e' => exact .cancelEvent hs ok
  | cancelAll fd => exact .cancelAll hs ok

/-- Only the call itself registers its event. -/
theorem next_iom (hs : s.iom.Sane) (h : s.next a l = some s') :
    s'.iom.Sane ∧ (IOManager.Serves a.ptr a.event s.iom s'.iom ∨
      ∃ ok, l = .addEvent ok ∧ s' = s.addEvent a ok) := by
  cases l with
  | io again | getsockopt =>
      simp only [next] at h
      split at h <;> cases h
      exact ⟨hs, Or.inl (.refl _)⟩
  | addTimer =>
      simp only [next] at h
      split at h
      · cases h
        split <;> exact ⟨hs, Or.inl (.refl _)⟩
      · cases h
  | addEvent ok =>
      simp only [next] at h
      split at h <;> cases h
      exact ⟨IOManager.addEvent_sane hs _ _ _ _ _, Or.inr ⟨ok, rfl, rfl⟩⟩
  | yield =>
      simp only [next] at h
      split at h <;> cases h
      exact ⟨hs, Or.inl (.refl _)⟩
  | resume =>
      simp only [next] at h
      split at h
      · split at h <;> cases h
        exact ⟨hs, Or.inl (.refl _)⟩
      · cases h
  | cancelTimer =>
      have hsame : (s.cancelTimer a).iom = s.iom := by
        unfold cancelTimer
        split <;> rfl
      simp only [next] at h
      split at h <;> cases h <;> simp only [hsame] <;> exact ⟨hs, Or.inl (.refl _)⟩
  | check | expire k | test k | set k | close =>
      simp only [next] at h
      split at h <;> cases h
      exact ⟨hs, Or.inl (.refl _)⟩
  | cancelEvent k ok =>
      simp only [next] at h
      split at h <;> cases h
      exact ⟨IOManager.cancelEvent_sane hs _ _ _ _, Or.inl (.cancelEvent hs ok)⟩
  | dispatch ptr r ok =>
      cases h
      exact ⟨IOManager.dispatch_sane hs _ _ _, Or.inl (.dispatch hs r ok)⟩
  | other c ptr ok =>
      simp only [next] at h
      split at h
      · cases h
      case isFalse hother =>
        cases h
        exact ⟨System.locked_sane hs c ptr ok,
          Or.inl (locked_serves hs (Bool.eq_false_iff.mpr hother) ok)⟩
  | cancelAll ok =>
      simp only [next] at h
      split at h <;> cases h
      exact ⟨IOManager.cancelAll_sane hs _ _ _, Or.inl (.cancelAll hs ok)⟩
  | del | close_f =>
      simp only [next] at h
      split at h <;> cases h
      exact ⟨hs, Or.inl (.refl _)⟩

/-- A call that is suspended, or about to be, is registered or scheduled. -/
def Waiting (a : Args) (s : HookedIo) : Prop :=
  ∀ ticket, s.phase.ticket = some ticket →
    (s.Registered a ∧ ((s.iom.contexts a.ptr).getContext a.event).ticket = ticket) ∨
      s.scheduled ticket = true

theorem Waiting.move (h : Waiting a s)
    (hserves : IOManager.Serves a.ptr a.event s.iom s'.iom)
    (hticket : ∀ ticket, s'.phase.ticket = some ticket → s.phase.ticket = some ticket) :
    Waiting a s' := by
  intro ticket ht
  rcases h ticket (hticket ticket ht) with ⟨hr, hticket⟩ | hscheduled
  · by_cases hr' : s'.Registered a
    · exact Or.inl ⟨hr', (congrArg EventContext.ticket (hserves.kept hr').2).trans hticket⟩
    · refine Or.inr (List.any_eq_true.mpr ⟨_, hserves.served hr hr', ?_⟩)
      exact decide_eq_true hticket
  · obtain ⟨task, htask, heq⟩ := List.any_eq_true.mp hscheduled
    exact Or.inr (List.any_eq_true.mpr ⟨task, hserves.queue task htask, heq⟩)

/-- After `addEvent` the call is registered, or has failed. -/
theorem addEvent_waiting (a : Args) (s : HookedIo) (ok : Bool) :
    Waiting a (s.addEvent a ok) := by
  intro ticket ht
  simp only [addEvent] at ht
  split at ht
  · cases ht
  case isFalse hgrown =>
    cases ht
    refine Or.inl ?_
    simp only [Registered, IOManager.Has, addEvent]
    unfold IOManager.addEvent at hgrown ⊢
    dsimp only at hgrown ⊢
    split
    · simp_all [IOManager.abort]
    · split
      · simp_all
      · split
        · simp [IOManager.register]
        · simp_all [IOManager.abort]

/-- No other step leads to a registration. -/
theorem ticket_of_next (h : s.next a l = some s') (hl : ∀ ok, l ≠ .addEvent ok) (ticket : ℕ)
    (ht : s'.phase.ticket = some ticket) : s.phase.ticket = some ticket := by
  cases l with
  | addEvent ok => exact absurd rfl (hl ok)
  | io again =>
      simp only [next] at h
      split at h <;> cases h
      cases again <;> cases ht
  | addTimer =>
      simp only [next] at h
      split at h
      · cases h
        split at ht <;> cases ht
      · cases h
  | yield =>
      simp only [next] at h
      split at h
      case h_1 hphase =>
        cases h
        rw [hphase]
        exact ht
      · cases h
  | resume =>
      simp only [next] at h
      split at h
      · split at h <;> cases h
        cases ht
      · cases h
  | cancelTimer =>
      simp only [next] at h
      split at h <;> cases h
      · cases ht
      · cases hkind : a.kind <;> rw [hkind] at ht <;> cases ht
  | check =>
      simp only [next] at h
      split at h <;> cases h
      split at ht
      · cases ht
      · cases hkind : a.kind <;> rw [hkind] at ht <;> cases ht
  | getsockopt =>
      simp only [next] at h
      split at h <;> cases h
      cases ht
  | dispatch =>
      cases h
      exact ht
  | expire | test | set | cancelEvent | other | close | cancelAll | del | close_f =>
      simp only [next] at h
      split at h <;> cases h
      exact ht

theorem next_waiting (hs : s.iom.Sane) (hwaiting : Waiting a s) (h : s.next a l = some s') :
    Waiting a s' := by
  rcases (next_iom hs h).2 with hserves | ⟨ok, rfl, rfl⟩
  · by_cases hl : ∀ ok, l ≠ .addEvent ok
    · exact hwaiting.move hserves (ticket_of_next h hl)
    · simp only [not_forall, not_not] at hl
      obtain ⟨ok, rfl⟩ := hl
      simp only [next] at h
      split at h <;> cases h
      exact addEvent_waiting a s ok
  · exact addEvent_waiting a s ok

theorem start_waiting (iom : IOManager) : Waiting a (start iom) := by
  rintro ticket ⟨⟩

/-! ## The condition -/

/-- The callback calls `cancelEvent` only while the call is not on its way to a
registration, and `epoll_ctl` then succeeds. -/
def Watchful (a : Args) (s : HookedIo) : Label → Prop
  | .cancelEvent _ ok =>
      s.phase.between = false ∧
        (s.Registered a →
          (epollCtl ok (IOManager.leftOp ((s.iom.contexts a.ptr).events.del a.event)) a.fd
            ⟨(s.iom.contexts a.ptr).events.del a.event, a.ptr⟩
            s.iom.interest).isSome = true)
  | _ => True

instance (a : Args) (s : HookedIo) : Decidable (s.Registered a) :=
  inferInstanceAs (Decidable (_ = true))

instance (a : Args) (s : HookedIo) (l : Label) : Decidable (Watchful a s l) := by
  cases l <;> unfold Watchful <;> infer_instance

/-- Once a callback has called `cancelEvent`, the call is not registered any more, and
will not be again. -/
structure Heeded (a : Args) (s : HookedIo) : Prop where
  sane : s.iom.Sane
  cancelled : ∀ k, s.timers k = .set ∨ s.timers k = .finished → s.cancelled ≠ 0
  between : ∀ k, s.timers k = .finished → s.phase.between = false
  registered : ∀ k ticket, s.timers k = .finished → s.phase.ticket = some ticket →
    ¬s.Registered a

namespace Heeded

/-- A step of the call that is not one to a registration. -/
theorem move (h : Heeded a s) (hsane : s'.iom.Sane)
    (htimers : ∀ k, s'.timers k = .finished → s.timers k = .finished)
    (hset : ∀ k, s'.timers k = .set → s.timers k = .set)
    (hcancelled : s'.cancelled = s.cancelled)
    (hserves : s'.Registered a → s.Registered a)
    (hbetween : ∀ k, s.timers k = .finished → s'.phase.between = false)
    (hticket : ∀ ticket, s'.phase.ticket = some ticket → s.phase.ticket = some ticket) :
    Heeded a s' := by
  refine ⟨hsane, ?_, fun k hk => hbetween k (htimers k hk), ?_⟩
  · rintro k (hk | hk)
    · exact hcancelled ▸ h.cancelled k (Or.inl (hset k hk))
    · exact hcancelled ▸ h.cancelled k (Or.inr (htimers k hk))
  · exact fun k ticket hk ht hr =>
      h.registered k ticket (htimers k hk) (hticket ticket ht) (hserves hr)

end Heeded

theorem of_setTimer {k j : ℕ} {t t' : TimerPhase} (hne : t ≠ t')
    (h : (s.setTimer k t).timers j = t') : s.timers j = t' := by
  by_cases hj : j = k
  · subst hj
    simp only [setTimer, Function.update_self] at h
    exact absurd h hne
  · simp only [setTimer, Function.update_of_ne hj] at h
    exact h

theorem of_cancelTimer {j : ℕ} {t : TimerPhase} (hne : TimerPhase.cancelled ≠ t)
    (h : (s.cancelTimer a).timers j = t) : s.timers j = t := by
  unfold cancelTimer at h
  split at h
  · exact of_setTimer hne h
  · exact h

theorem next_heeded (h : Heeded a s) (hrun : s.iom.aborted = false) (hok : Watchful a s l)
    (hnext : s.next a l = some s') : Heeded a s' := by
  obtain ⟨hsane, hserves⟩ := next_iom h.sane hnext
  have hkept : (∀ ok, l ≠ .addEvent ok) → s'.Registered a → s.Registered a := by
    intro hl hr
    rcases hserves with hserves | ⟨ok, rfl, -⟩
    · exact (hserves.kept hr).1
    · exact absurd rfl (hl ok)
  have hticket := fun hl => ticket_of_next hnext hl
  -- On its way to a registration no callback has been there.
  have hfar : s.phase.between = true → ∀ k, s.timers k ≠ .finished := by
    intro hbetween k hk
    rw [h.between k hk] at hbetween
    cases hbetween
  cases l with
  | io again =>
      simp only [next] at hnext
      split at hnext
      case isTrue hphase =>
        have hnone := hfar (by rw [hphase]; rfl)
        cases hnext
        exact h.move hsane (fun _ hk => hk) (fun _ hk => hk) rfl id
          (fun k hk => absurd hk (hnone k)) (hticket fun _ => Label.noConfusion)
      · cases hnext
  | addTimer =>
      simp only [next] at hnext
      split at hnext
      case isTrue hphase =>
        have hnone := hfar (by rw [hphase]; rfl)
        cases hnext
        split
        · refine h.move h.sane (fun _ hk => of_setTimer TimerPhase.noConfusion hk)
            (fun _ hk => of_setTimer TimerPhase.noConfusion hk) rfl id
            (fun k hk => absurd hk (hnone k)) ?_
          rintro ticket ⟨⟩
        · refine h.move h.sane (fun _ hk => hk) (fun _ hk => hk) rfl id
            (fun k hk => absurd hk (hnone k)) ?_
          rintro ticket ⟨⟩
      · cases hnext
  | addEvent ok =>
      simp only [next] at hnext
      split at hnext
      case isTrue hphase =>
        have hnone := hfar (by rw [hphase]; rfl)
        cases hnext
        exact ⟨hsane, h.cancelled, fun k hk => absurd hk (hnone k),
          fun k _ hk => absurd hk (hnone k)⟩
      · cases hnext
  | resume =>
      simp only [next] at hnext
      split at hnext
      · split at hnext <;> cases hnext
        exact h.move hsane (fun _ hk => hk) (fun _ hk => hk) rfl id (fun _ _ => rfl)
          (hticket fun _ => Label.noConfusion)
      · cases hnext
  | cancelTimer =>
      have hcancelled : (s.cancelTimer a).cancelled = s.cancelled := by
        unfold cancelTimer
        split <;> rfl
      have hfinished : ∀ k, (s.cancelTimer a).timers k = .finished →
          s.timers k = .finished := fun _ hk => of_cancelTimer TimerPhase.noConfusion hk
      have hset : ∀ k, (s.cancelTimer a).timers k = .set → s.timers k = .set :=
        fun _ hk => of_cancelTimer TimerPhase.noConfusion hk
      simp only [next] at hnext
      split at hnext <;> cases hnext
      · exact h.move hsane hfinished hset hcancelled (hkept fun _ => Label.noConfusion)
          (fun _ _ => rfl) (hticket fun _ => Label.noConfusion)
      · refine h.move hsane hfinished hset hcancelled (hkept fun _ => Label.noConfusion)
          (fun _ _ => ?_) (hticket fun _ => Label.noConfusion)
        cases a.kind <;> rfl
  | check =>
      simp only [next] at hnext
      split at hnext <;> cases hnext
      refine h.move hsane (fun _ hk => hk) (fun _ hk => hk) rfl id ?_
        (hticket fun _ => Label.noConfusion)
      intro k hk
      -- The call sees that it is cancelled.
      rw [if_pos (h.cancelled k (Or.inr hk))]
      rfl
  | yield | getsockopt =>
      simp only [next] at hnext
      split at hnext <;> cases hnext
      exact h.move hsane (fun _ hk => hk) (fun _ hk => hk) rfl id (fun _ _ => rfl)
        (hticket fun _ => Label.noConfusion)
  | expire k =>
      simp only [next] at hnext
      split at hnext <;> cases hnext
      exact h.move hsane (fun _ hk => of_setTimer TimerPhase.noConfusion hk)
        (fun _ hk => of_setTimer TimerPhase.noConfusion hk) rfl id h.between
        fun _ ht => ht
  | test k =>
      simp only [next] at hnext
      split at hnext <;> cases hnext
      refine h.move hsane (fun _ hk => of_setTimer ?_ hk) (fun _ hk => of_setTimer ?_ hk)
        rfl id h.between fun _ ht => ht
      · split <;> exact TimerPhase.noConfusion
      · split <;> exact TimerPhase.noConfusion
  | set k =>
      simp only [next] at hnext
      split at hnext <;> cases hnext
      have hfinished : ∀ j, (s.setTimer k .set).timers j = .finished →
          s.timers j = .finished := fun _ hj => of_setTimer TimerPhase.noConfusion hj
      refine ⟨hsane, fun _ _ => ?_, fun j hj => h.between j (hfinished j hj),
        fun j ticket hj => h.registered j ticket (hfinished j hj)⟩
      exact Nat.succ_ne_zero 109
  | cancelEvent k ok =>
      simp only [next] at hnext
      split at hnext
      case isTrue hset =>
        cases hnext
        have hcancelled := h.cancelled k (Or.inl hset)
        refine ⟨hsane, fun _ _ => hcancelled, fun _ _ => hok.1, fun _ _ _ _ => ?_⟩
        exact IOManager.not_has_cancelEvent h.sane hrun hok.2
      · cases hnext
  | dispatch ptr r ok =>
      cases hnext
      exact h.move hsane (fun _ hk => hk) (fun _ hk => hk) rfl
        (hkept fun _ => Label.noConfusion) h.between fun _ ht => ht
  | other | close | cancelAll | del | close_f =>
      simp only [next] at hnext
      split at hnext <;> cases hnext
      exact h.move hsane (fun _ hk => hk) (fun _ hk => hk) rfl
        (hkept fun _ => Label.noConfusion) h.between fun _ ht => ht

theorem next_of_step {iom : IOManager} (h : (machine a iom).step s l = some s') :
    s.iom.aborted = false ∧ s.next a l = some s' := by
  simp only [machine] at h
  split at h
  · cases h
  case isFalse hrun => exact ⟨Bool.eq_false_iff.mpr hrun, h⟩

theorem start_heeded {iom : IOManager} (h : iom.Sane) : Heeded a (start iom) := by
  refine ⟨h, ?_, ?_, ?_⟩
  · rintro k (hk | hk) <;> cases hk
  · rintro k ⟨⟩
  · rintro k ticket ⟨⟩

/-- A read of fd 5 with a timeout, by fiber 7. -/
def readFive : Args := ⟨.do_io, true, 5, 5, .READ, ⟨0, 7, none⟩⟩

end HookedIo

end Skt
