import Skt.Hook.Timeout

/-!
# `close` and a suspended call

`close` resumes whoever waits for the fd and then closes it. The call that is resumed
goes back to its system call without a look at `FdManager`: it may come to it only
when the fd is closed, or come before and suspend itself again, with no one left to
resume it.
-/

namespace Skt

namespace HookedIo

variable {a : Args} {s s' : HookedIo} {l : Label}

/-- The call returns without another system call: it is done, or will find that it is
cancelled. -/
def Leaving (a : Args) (s : HookedIo) : Prop :=
  s.phase = .done ∨ s.phase = .refused ∨
    (s.cancelled ≠ 0 ∧ s.phase.between = false ∧ ¬s.Registered a)

/-- The fd is closed only when the call is leaving. -/
def Patient (a : Args) (s : HookedIo) : Label → Prop
  | .close_f => s.Leaving a
  | _ => True

/-- The phase is one of `do_io`. -/
def InDoIo (s : HookedIo) : Prop := s.phase ≠ .getsockopt

theorem next_inDoIo (hkind : a.kind = .do_io) (h : s.InDoIo) (hnext : s.next a l = some s') :
    s'.InDoIo := by
  cases l with
  | io again =>
      simp only [next] at hnext
      split at hnext <;> cases hnext
      cases again <;> exact Phase.noConfusion
  | addTimer =>
      simp only [next] at hnext
      split at hnext <;> cases hnext
      unfold InDoIo
      split <;> exact Phase.noConfusion
  | addEvent ok =>
      simp only [next] at hnext
      split at hnext <;> cases hnext
      simp only [InDoIo, addEvent]
      split <;> exact Phase.noConfusion
  | yield | getsockopt =>
      simp only [next] at hnext
      split at hnext <;> cases hnext
      exact Phase.noConfusion
  | resume =>
      simp only [next] at hnext
      split at hnext
      · split at hnext <;> cases hnext
        exact Phase.noConfusion
      · cases hnext
  | cancelTimer =>
      simp only [next, hkind] at hnext
      split at hnext <;> cases hnext <;> exact Phase.noConfusion
  | check =>
      simp only [next, hkind] at hnext
      split at hnext <;> cases hnext
      simp only [InDoIo]
      split <;> exact Phase.noConfusion
  | dispatch ptr r ok =>
      cases hnext
      exact h
  | expire | test | set | cancelEvent | other | close | cancelAll | del | close_f =>
      simp only [next] at hnext
      split at hnext <;> cases hnext
      exact h

/-- A call that is leaving goes on to leave, and makes no system call on the way. -/
theorem next_leaving (hkind : a.kind = .do_io) (hs : s.iom.Sane) (hdo : s.InDoIo)
    (h : s.Leaving a) (hnext : s.next a l = some s') :
    s'.Leaving a ∧ s'.late = s.late := by
  have hbetween : s.phase.between = false := by
    rcases h with h | h | h
    · rw [h]
      rfl
    · rw [h]
      rfl
    · exact h.2.1
  -- What the steps of others leave as it is.
  have hothers : (∀ ok, l ≠ .addEvent ok) → s'.phase = s.phase →
      (s.cancelled ≠ 0 → s'.cancelled ≠ 0) → s'.Leaving a := by
    intro hl hphase hcancelled
    rcases h with h | h | ⟨hc, hb, hr⟩
    · exact Or.inl (hphase.trans h)
    · exact Or.inr (Or.inl (hphase.trans h))
    · refine Or.inr (Or.inr ⟨hcancelled hc, hphase ▸ hb, fun hr' => hr ?_⟩)
      rcases (next_iom hs hnext).2 with hserves | ⟨ok, rfl, -⟩
      · exact (hserves.kept hr').1
      · exact absurd rfl (hl ok)
  cases l with
  | io again | addTimer | addEvent ok =>
      simp only [next] at hnext
      split at hnext
      case isTrue hphase =>
        rw [hphase] at hbetween
        cases hbetween
      · cases hnext
  | getsockopt =>
      simp only [next] at hnext
      split at hnext
      case isTrue hphase => exact absurd hphase hdo
      · cases hnext
  | yield =>
      simp only [next] at hnext
      split at hnext
      case h_1 ticket hphase =>
        cases hnext
        refine ⟨?_, rfl⟩
        rcases h with h | h | ⟨hc, -, hr⟩
        · rw [h] at hphase
          cases hphase
        · rw [h] at hphase
          cases hphase
        · exact Or.inr (Or.inr ⟨hc, rfl, hr⟩)
      · cases hnext
  | resume =>
      simp only [next] at hnext
      split at hnext
      case h_1 ticket hphase =>
        split at hnext <;> cases hnext
        refine ⟨?_, rfl⟩
        rcases h with h | h | ⟨hc, -, hr⟩
        · rw [h] at hphase
          cases hphase
        · rw [h] at hphase
          cases hphase
        · exact Or.inr (Or.inr ⟨hc, rfl, hr⟩)
      · cases hnext
  | cancelTimer =>
      have hsame : (s.cancelTimer a).cancelled = s.cancelled ∧
          (s.cancelTimer a).iom = s.iom ∧ (s.cancelTimer a).late = s.late := by
        unfold cancelTimer
        split <;> exact ⟨rfl, rfl, rfl⟩
      obtain ⟨h₁, h₂, h₃⟩ := hsame
      simp only [next, hkind] at hnext
      split at hnext
      case h_1 hphase =>
        cases hnext
        refine ⟨?_, h₃⟩
        rcases h with h | h | ⟨hc, -, hr⟩
        · rw [h] at hphase
          cases hphase
        · rw [h] at hphase
          cases hphase
        · refine Or.inr (Or.inr ⟨h₁ ▸ hc, rfl, ?_⟩)
          simp only [Registered, h₂]
          exact hr
      · cases hnext
        exact ⟨Or.inl rfl, h₃⟩
      · cases hnext
  | check =>
      simp only [next] at hnext
      split at hnext
      case isTrue hphase =>
        cases hnext
        refine ⟨Or.inl ?_, rfl⟩
        rcases h with h | h | ⟨hc, -, -⟩
        · rw [h] at hphase
          cases hphase
        · rw [h] at hphase
          cases hphase
        · exact if_pos hc
      · cases hnext
  | set k =>
      simp only [next] at hnext
      split at hnext <;> cases hnext
      exact ⟨hothers (fun _ => Label.noConfusion) rfl fun _ => Nat.succ_ne_zero 109, rfl⟩
  | dispatch ptr r ok =>
      cases hnext
      exact ⟨hothers (fun _ => Label.noConfusion) rfl id, rfl⟩
  | expire | test | cancelEvent | other | close | cancelAll | del | close_f =>
      simp only [next] at hnext
      split at hnext <;> cases hnext
      exact ⟨hothers (fun _ => Label.noConfusion) rfl id, rfl⟩

/-- Once the fd is closed the call is leaving. -/
structure AfterClose (a : Args) (s : HookedIo) : Prop where
  sane : s.iom.Sane
  inDoIo : s.InDoIo
  waiting : Waiting a s
  late : s.late = false
  leaving : s.closing = .returned → s.Leaving a

/-- Until `close` has returned no call is late. -/
theorem late_of_next (hclosing : s.closing ≠ .returned) (hnext : s.next a l = some s')
    (hlate : s.late = false) : s'.late = false := by
  have honFd : s.onFd.late = false := by
    simp only [onFd, hlate, decide_eq_false hclosing, Bool.or_false]
  cases l with
  | io again | getsockopt | addEvent ok =>
      simp only [next] at hnext
      split at hnext <;> cases hnext
      exact honFd
  | addTimer =>
      simp only [next] at hnext
      split at hnext <;> cases hnext
      split <;> exact hlate
  | resume =>
      simp only [next] at hnext
      split at hnext
      · split at hnext <;> cases hnext
        exact hlate
      · cases hnext
  | cancelTimer =>
      have hsame : (s.cancelTimer a).late = s.late := by
        unfold cancelTimer
        split <;> rfl
      simp only [next] at hnext
      split at hnext <;> cases hnext <;> exact hsame.trans hlate
  | dispatch ptr r ok =>
      cases hnext
      exact hlate
  | yield | check | expire | test | set | cancelEvent | other | close | cancelAll | del
  | close_f =>
      simp only [next] at hnext
      split at hnext <;> cases hnext
      exact hlate

/-- Only `close_f` makes `close` return. -/
theorem closing_of_next (hnext : s.next a l = some s') (hclosing : s'.closing = .returned) :
    s.closing = .returned ∨ (l = .close_f ∧ s' = { s with closing := .returned }) := by
  cases l with
  | close_f =>
      simp only [next] at hnext
      split at hnext <;> cases hnext
      exact Or.inr ⟨rfl, rfl⟩
  | io again | getsockopt | addEvent ok | yield | check | expire | test | set | cancelEvent
  | other =>
      simp only [next] at hnext
      split at hnext <;> cases hnext
      exact Or.inl hclosing
  | addTimer =>
      simp only [next] at hnext
      split at hnext <;> cases hnext
      split at hclosing <;> exact Or.inl hclosing
  | resume =>
      simp only [next] at hnext
      split at hnext
      · split at hnext <;> cases hnext
        exact Or.inl hclosing
      · cases hnext
  | cancelTimer =>
      have hsame : (s.cancelTimer a).closing = s.closing := by
        unfold cancelTimer
        split <;> rfl
      simp only [next] at hnext
      split at hnext <;> cases hnext <;> exact Or.inl (hsame.symm.trans hclosing)
  | dispatch ptr r ok =>
      cases hnext
      exact Or.inl hclosing
  | close | cancelAll | del =>
      simp only [next] at hnext
      split at hnext <;> cases hnext
      cases hclosing

theorem next_afterClose (hkind : a.kind = .do_io) (h : AfterClose a s) (hok : Patient a s l)
    (hnext : s.next a l = some s') : AfterClose a s' := by
  have hsane := (next_iom h.sane hnext).1
  have hwaiting := next_waiting h.sane h.waiting hnext
  have hdo := next_inDoIo hkind h.inDoIo hnext
  by_cases hclosing : s.closing = .returned
  · obtain ⟨hleaving, hlate⟩ := next_leaving hkind h.sane h.inDoIo (h.leaving hclosing) hnext
    exact ⟨hsane, hdo, hwaiting, hlate.trans h.late, fun _ => hleaving⟩
  · refine ⟨hsane, hdo, hwaiting, late_of_next hclosing hnext h.late, fun hreturned => ?_⟩
    rcases closing_of_next hnext hreturned with hold | ⟨rfl, rfl⟩
    · exact absurd hold hclosing
    · exact hok

/-- **`close` leaves no call behind.** A call of `do_io` begins in any state of the
`IOManager` and is suspended when `close` begins, and the fd is closed only when the
call is leaving: then, once `close` has returned, the call has made no further system
call on the fd, and if it is suspended its resume is scheduled. -/
theorem closed_left {sys : System} (hsys : System.machine.Reachable (fun _ _ => True) sys)
    (hkind : a.kind = .do_io) (h : (machine a sys.io).Reachable (Patient a) s)
    (hclosed : s.closing = .returned) :
    s.late = false ∧ ∀ ticket, s.phase = .held ticket → s.scheduled ticket = true := by
  have hafter : AfterClose a s := by
    apply h.invariant
    · refine ⟨System.reachable_sane hsys, Phase.noConfusion, start_waiting _, rfl, ?_⟩
      rintro ⟨⟩
    · intro s s' l hs hok hstep
      exact next_afterClose hkind hs hok (next_of_step hstep).2
  refine ⟨hafter.late, fun ticket hheld => ?_⟩
  have hticket : s.phase.ticket = some ticket := by
    rw [hheld]
    rfl
  refine (hafter.waiting ticket hticket).resolve_left fun hr => ?_
  rcases hafter.leaving hclosed with h | h | h
  · rw [hheld] at h
    cases h
  · rw [hheld] at h
    cases h
  · exact h.2.2 hr.1

/-- The call has timed out when the fd is closed. -/
theorem closed_left_timeout :
    ∃ s, (machine readFive System.machine.start.io).Reachable (Patient readFive) s ∧
      s.closing = .returned ∧ s.phase = .held 0 ∧ s.late = false ∧
      s.scheduled 0 = true := by
  obtain ⟨s, h, hphase, hcancelled, hnot, hclosing, hrun⟩ :
      ∃ s, (machine readFive System.machine.start.io).Reachable (fun _ l => l ≠ .close_f) s ∧
        s.phase = .held 0 ∧ s.cancelled ≠ 0 ∧
        (s.iom.contexts 5).events.has .READ = false ∧ s.closing = .close_f ∧
        s.iom.aborted = false :=
    Lib.Machine.exists_of_exec
      [.io true, .addTimer, .addEvent true, .yield, .expire 0, .test 0, .set 0, .close,
        .cancelAll true, .del]
      (by decide)
  have hleaving : s.Leaving readFive := by
    refine Or.inr (Or.inr ⟨hcancelled, ?_, Bool.eq_false_iff.mp hnot⟩)
    rw [hphase]
    rfl
  have hstep : (machine readFive System.machine.start.io).step s .close_f =
      some { s with closing := .returned } := by
    change (if s.iom.aborted = true then none else s.next readFive .close_f) = _
    rw [if_neg (Bool.eq_false_iff.mp hrun)]
    exact if_pos hclosing
  have hpatient : (machine readFive System.machine.start.io).Reachable (Patient readFive) s := by
    refine h.mono fun s l hl => ?_
    cases l with
    | close_f => exact absurd rfl hl
    | _ => trivial
  have hreach : (machine readFive System.machine.start.io).Reachable (Patient readFive)
      { s with closing := .returned } := .tail .close_f hpatient hleaving hstep
  obtain ⟨hlate, hscheduled⟩ := closed_left (.refl _) rfl hreach rfl
  exact ⟨_, hreach, rfl, hphase, hlate, hscheduled 0 hphase⟩

/-- The call reads from the fd after `close` has returned; or it comes back before and
waits when `close` has returned. -/
theorem closed_behind :
    (∃ s, (machine readFive System.machine.start.io).Reachable (fun _ _ => True) s ∧
      s.closing = .returned ∧ s.late = true) ∧
    ∃ s, (machine readFive System.machine.start.io).Reachable (fun _ _ => True) s ∧
      s.closing = .returned ∧ s.phase = .held 1 ∧ s.scheduled 1 = false := by
  constructor
  · exact Lib.Machine.exists_of_exec
      [.io true, .addTimer, .addEvent true, .yield, .close, .cancelAll true, .del, .close_f,
        .resume, .cancelTimer, .check, .io false]
      (by decide)
  · exact Lib.Machine.exists_of_exec
      [.io true, .addTimer, .addEvent true, .yield, .close, .cancelAll true, .resume,
        .cancelTimer, .check, .io true, .addTimer, .addEvent true, .yield, .del, .close_f]
      (by decide)

end HookedIo

end Skt
