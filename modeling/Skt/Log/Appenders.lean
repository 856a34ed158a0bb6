import Skt.Lib.Machine
import Skt.Log.Reload

/-!
# Appenders that loggers share

An appender is handed around as a `shared_ptr`: several loggers may hold it, and its
formatter may be set behind their backs. Loggers and appenders are told apart by number,
formatters by the type `F`. The loggers of `Log.Model`, which hold their appenders as values,
are what a configuration sees of this: it makes all its appenders anew.
-/

namespace Skt

namespace Log

namespace Shared

open Lib

variable {F : Type}

/-- The fields of a `LogAppender` that formatting reads. An appender that has a formatter of
its own has one. -/
structure LogAppender (F : Type) where
  hasFormatter : Bool
  formatter : Option F
  own : hasFormatter = true → formatter.isSome = true

structure Logger (F : Type) where
  formatter : F
  appenders : List ℕ

structure State (F : Type) where
  loggers : ℕ → Logger F
  appenders : ℕ → LogAppender F

namespace LogAppender

def new : LogAppender F := ⟨false, none, fun h => by cases h⟩

def setFormatter (val : Option F) : LogAppender F := ⟨val.isSome, val, id⟩

/-- `m_formatter` is overwritten by a logger's. -/
def inherit (f : F) (a : LogAppender F) : LogAppender F :=
  { a with formatter := some f, own := fun _ => rfl }

end LogAppender

namespace State

def setLogger (s : State F) (l : ℕ) (logger : Logger F) : State F :=
  { s with loggers := Function.update s.loggers l logger }

def setAppender (s : State F) (a : ℕ) (appender : LogAppender F) : State F :=
  { s with appenders := Function.update s.appenders a appender }

/-- The formatter an appender has once a logger has seen to it that there is one. -/
def adopt (s : State F) (l a : ℕ) : State F :=
  match (s.appenders a).formatter with
  | some _ => s
  | none => s.setAppender a ((s.appenders a).inherit (s.loggers l).formatter)

def addAppender (s : State F) (l a : ℕ) : State F :=
  (s.adopt l a).setLogger l
    { s.loggers l with appenders := (s.loggers l).appenders ++ [a] }

def delAppender (s : State F) (l a : ℕ) : State F :=
  s.setLogger l { s.loggers l with appenders := (s.loggers l).appenders.erase a }

def clearAppenders (s : State F) (l : ℕ) : State F :=
  s.setLogger l { s.loggers l with appenders := [] }

/-- One round of the loop in `Logger::setFormatter`. -/
def passOn (f : F) (heap : ℕ → LogAppender F) (a : ℕ) : ℕ → LogAppender F :=
  if (heap a).hasFormatter then heap else Function.update heap a ((heap a).inherit f)

def setFormatter (s : State F) (l : ℕ) (f : F) : State F where
  loggers := Function.update s.loggers l { s.loggers l with formatter := f }
  appenders := (s.loggers l).appenders.foldl (passOn f) s.appenders

end State

inductive Call (F : Type)
  | addAppender (l a : ℕ)
  | delAppender (l a : ℕ)
  | clearAppenders (l : ℕ)
  | setFormatter (l : ℕ) (f : F)
  | setAppenderFormatter (a : ℕ) (val : Option F)

def State.step (s : State F) : Call F → State F
  | .addAppender l a => s.addAppender l a
  | .delAppender l a => s.delAppender l a
  | .clearAppenders l => s.clearAppenders l
  | .setFormatter l f => s.setFormatter l f
  | .setAppenderFormatter a val => s.setAppender a (LogAppender.setFormatter val)

/-- Fresh appenders, and loggers with the formatters they were made with. -/
def machine (made : ℕ → F) : Machine (State F) (Call F) where
  start := ⟨fun l => ⟨made l, []⟩, fun _ => LogAppender.new⟩
  step s c := some (s.step c)

/-! ## What a logger can rely on -/

/-- An appender is ready for a logger with formatter `f`: there is a formatter to call, and
it is the logger's unless the appender has one of its own. -/
structure Ready (f : F) (a : LogAppender F) : Prop where
  nonnull : a.formatter ≠ none
  inherited : a.hasFormatter = false → a.formatter = some f

def Attached (s : State F) (l a : ℕ) : Prop := a ∈ (s.loggers l).appenders

def Good (s : State F) : Prop :=
  ∀ l a, Attached s l a → Ready (s.loggers l).formatter (s.appenders a)

/-- What a call has to respect: an appender is added with a formatter of its own, with none,
or with the logger's; a logger's formatter reaches no appender that another logger with
another formatter holds; and an appender that is attached keeps a formatter. -/
def Ok (s : State F) : Call F → Prop
  | .addAppender l a =>
      (s.appenders a).hasFormatter = false → ∀ f, (s.appenders a).formatter = some f →
        f = (s.loggers l).formatter
  | .setFormatter l f =>
      ∀ l' ≠ l, ∀ a, Attached s l a → Attached s l' a →
        (s.appenders a).hasFormatter = false → (s.loggers l').formatter = f
  | .setAppenderFormatter a none => ∀ l, ¬Attached s l a
  | _ => True

theorem ready_inherit (f : F) (a : LogAppender F) : Ready f (a.inherit f) :=
  ⟨fun h => (Option.some_ne_none f h).elim, fun _ => rfl⟩

theorem ready_own {f f' : F} {a : LogAppender F} (h : Ready f a)
    (hown : a.hasFormatter = true) : Ready f' a where
  nonnull := h.nonnull
  inherited hnone := by
    rw [hown] at hnone
    cases hnone

theorem Ready.formatter_eq {f f' : F} {a : LogAppender F} (h : Ready f a) (h' : Ready f' a)
    (hnone : a.hasFormatter = false) : f = f' :=
  Option.some.inj ((h.inherited hnone).symm.trans (h'.inherited hnone))

/-! ## Each call -/

variable {s : State F}

/-- Taking appenders away is always safe. -/
theorem good_of_subset (h : Good s) {l : ℕ} {as : List ℕ}
    (hsub : ∀ a ∈ as, a ∈ (s.loggers l).appenders) :
    Good (s.setLogger l { s.loggers l with appenders := as }) := by
  intro l' a ha
  by_cases hl : l' = l
  · subst hl
    simp only [Attached, State.setLogger, Function.update_self] at ha ⊢
    exact h l' a (hsub a ha)
  · simp only [Attached, State.setLogger, Function.update_of_ne hl] at ha ⊢
    exact h l' a ha

@[simp] theorem loggers_adopt (l a : ℕ) : (s.adopt l a).loggers = s.loggers := by
  rw [State.adopt]
  split <;> rfl

theorem attached_addAppender_iff {l a l' b : ℕ} :
    Attached (s.addAppender l a) l' b ↔ Attached s l' b ∨ l' = l ∧ b = a := by
  by_cases hl : l' = l
  · subst hl
    simp [Attached, State.addAppender, State.setLogger]
  · simp [Attached, State.addAppender, State.setLogger, hl]

theorem formatter_addAppender (l a l' : ℕ) :
    ((s.addAppender l a).loggers l').formatter = (s.loggers l').formatter := by
  by_cases hl : l' = l
  · subst hl
    simp [State.addAppender, State.setLogger]
  · simp [State.addAppender, State.setLogger, hl]

theorem appenders_addAppender_of_some {l a : ℕ} {f : F}
    (hf : (s.appenders a).formatter = some f) : (s.addAppender l a).appenders = s.appenders := by
  simp only [State.addAppender, State.adopt, hf, State.setLogger]

theorem appenders_addAppender_of_none {l a : ℕ} (hf : (s.appenders a).formatter = none) :
    (s.addAppender l a).appenders =
      Function.update s.appenders a ((s.appenders a).inherit (s.loggers l).formatter) := by
  simp only [State.addAppender, State.adopt, hf, State.setLogger, State.setAppender]

theorem good_addAppender_iff (h : Good s) (l a : ℕ) :
    Good (s.addAppender l a) ↔ Ok s (.addAppender l a) := by
  constructor
  · intro hgood hnone f hf
    have hready := hgood l a (attached_addAppender_iff.mpr (Or.inr ⟨rfl, rfl⟩))
    rw [formatter_addAppender, appenders_addAppender_of_some hf] at hready
    exact Option.some.inj (hf.symm.trans (hready.inherited hnone))
  · intro hok l' b hb
    rw [formatter_addAppender]
    cases hf : (s.appenders a).formatter with
    | some f =>
        rw [appenders_addAppender_of_some hf]
        rcases attached_addAppender_iff.mp hb with hold | ⟨rfl, rfl⟩
        · exact h l' b hold
        · refine ⟨fun hnone => ?_, fun hown => ?_⟩
          · rw [hf] at hnone
            cases hnone
          · rw [hf, hok hown f hf]
    | none =>
        -- an appender without a formatter is held by no logger yet
        have hfree : ∀ l'', ¬Attached s l'' a := fun l'' hat => (h l'' a hat).nonnull hf
        rw [appenders_addAppender_of_none hf]
        rcases attached_addAppender_iff.mp hb with hold | ⟨rfl, rfl⟩
        · have hne : b ≠ a := by
            rintro rfl
            exact hfree l' hold
          rw [Function.update_of_ne hne]
          exact h l' b hold
        · rw [Function.update_self]
          exact ready_inherit _ _

theorem passOn_of_own (f : F) {heap : ℕ → LogAppender F} {a : ℕ}
    (h : (heap a).hasFormatter = true) : State.passOn f heap a = heap := if_pos h

theorem passOn_of_none (f : F) {heap : ℕ → LogAppender F} {a : ℕ}
    (h : (heap a).hasFormatter = false) :
    State.passOn f heap a = Function.update heap a ((heap a).inherit f) := by
  rw [State.passOn, h]
  rfl

/-- The loop leaves alone what has a formatter of its own. -/
theorem foldl_passOn_of_own (f : F) {b : ℕ} : ∀ (as : List ℕ) {heap : ℕ → LogAppender F},
    (heap b).hasFormatter = true → as.foldl (State.passOn f) heap b = heap b
  | [], _, _ => rfl
  | a :: as, heap, h => by
      rw [List.foldl_cons]
      cases ha : (heap a).hasFormatter with
      | true =>
          rw [passOn_of_own f ha]
          exact foldl_passOn_of_own f as h
      | false =>
          have hne : b ≠ a := by
            rintro rfl
            rw [h] at ha
            cases ha
          rw [passOn_of_none f ha, foldl_passOn_of_own f as, Function.update_of_ne hne]
          rw [Function.update_of_ne hne]
          exact h

theorem foldl_passOn_of_notMem (f : F) {b : ℕ} : ∀ (as : List ℕ) (heap : ℕ → LogAppender F),
    b ∉ as → as.foldl (State.passOn f) heap b = heap b
  | [], _, _ => rfl
  | a :: as, heap, h => by
      rw [List.mem_cons, not_or] at h
      rw [List.foldl_cons, foldl_passOn_of_notMem f as _ h.2]
      cases ha : (heap a).hasFormatter with
      | true => rw [passOn_of_own f ha]
      | false => rw [passOn_of_none f ha, Function.update_of_ne h.1]

/-- Once an appender has the formatter, the loop leaves it so. -/
theorem foldl_passOn_of_inherit (f : F) {b : ℕ} {x : LogAppender F} :
    ∀ (as : List ℕ) {heap : ℕ → LogAppender F}, heap b = x.inherit f →
      as.foldl (State.passOn f) heap b = x.inherit f
  | [], _, h => h
  | a :: as, heap, h => by
      rw [List.foldl_cons]
      refine foldl_passOn_of_inherit f as ?_
      cases ha : (heap a).hasFormatter with
      | true =>
          rw [passOn_of_own f ha]
          exact h
      | false =>
          rw [passOn_of_none f ha, Function.update_apply]
          split_ifs with hba
          · subst hba
            rw [h]
            rfl
          · exact h

theorem foldl_passOn_of_mem (f : F) {b : ℕ} : ∀ (as : List ℕ) {heap : ℕ → LogAppender F},
    b ∈ as → (heap b).hasFormatter = false →
      as.foldl (State.passOn f) heap b = (heap b).inherit f
  | a :: as, heap, hmem, h => by
      rw [List.foldl_cons]
      by_cases hba : b = a
      · subst hba
        refine foldl_passOn_of_inherit f as ?_
        rw [passOn_of_none f h, Function.update_self]
      · have hsame : State.passOn f heap a b = heap b := by
          rw [State.passOn]
          split_ifs
          · rfl
          · exact Function.update_of_ne hba _ _
        have htail : b ∈ as := (List.mem_cons.mp hmem).resolve_left hba
        rw [foldl_passOn_of_mem f as htail, hsame]
        rw [hsame]
        exact h

theorem attached_setFormatter_iff {l l' b : ℕ} {f : F} :
    Attached (s.setFormatter l f) l' b ↔ Attached s l' b := by
  by_cases hl : l' = l
  · subst hl
    simp [Attached, State.setFormatter]
  · simp [Attached, State.setFormatter, hl]

theorem good_setFormatter_iff (h : Good s) (l : ℕ) (f : F) :
    Good (s.setFormatter l f) ↔ Ok s (.setFormatter l f) := by
  constructor
  · intro hgood l' hl a ha ha' hown
    have hready := hgood l' a (attached_setFormatter_iff.mpr ha')
    simp only [State.setFormatter, Function.update_of_ne hl, foldl_passOn_of_mem f _ ha hown]
      at hready
    exact hready.formatter_eq (ready_inherit f (s.appenders a)) hown
  · intro hok l' a ha
    rw [attached_setFormatter_iff] at ha
    simp only [State.setFormatter]
    cases hown : (s.appenders a).hasFormatter with
    | true =>
        rw [foldl_passOn_of_own f _ hown]
        exact ready_own (h l' a ha) hown
    | false =>
        by_cases hl : l' = l
        · subst hl
          rw [foldl_passOn_of_mem f _ ha hown, Function.update_self]
          exact ready_inherit f _
        · rw [Function.update_of_ne hl]
          by_cases hmem : Attached s l a
          · rw [foldl_passOn_of_mem f _ hmem hown, hok l' hl a hmem ha hown]
            exact ready_inherit f _
          · rw [foldl_passOn_of_notMem f _ _ hmem]
            exact h l' a ha

theorem good_setAppenderFormatter_iff (h : Good s) (a : ℕ) (val : Option F) :
    Good (s.setAppender a (LogAppender.setFormatter val)) ↔
      Ok s (.setAppenderFormatter a val) := by
  cases val with
  | none =>
      constructor
      · intro hgood l hat
        have hready := hgood l a hat
        simp only [State.setAppender, Function.update_self] at hready
        exact hready.nonnull rfl
      · intro hfree l b hb
        have hne : b ≠ a := by
          rintro rfl
          exact hfree l hb
        simp only [State.setAppender, Function.update_of_ne hne]
        exact h l b hb
  | some f =>
      refine iff_of_true ?_ trivial
      intro l b hb
      by_cases hba : b = a
      · subst hba
        simp only [State.setAppender, Function.update_self]
        exact ⟨fun hnone => (Option.some_ne_none f hnone).elim, fun hown => by cases hown⟩
      · simp only [State.setAppender, Function.update_of_ne hba]
        exact h l b hb

/-- A call keeps every logger's appenders ready exactly if it respects `Ok`. -/
theorem good_step_iff (h : Good s) (c : Call F) : Good (s.step c) ↔ Ok s c := by
  cases c with
  | addAppender l a => exact good_addAppender_iff h l a
  | delAppender l a =>
      exact iff_of_true (good_of_subset h fun _ => List.mem_of_mem_erase) trivial
  | clearAppenders l =>
      exact iff_of_true (good_of_subset h fun _ hb => by cases hb) trivial
  | setFormatter l f => exact good_setFormatter_iff h l f
  | setAppenderFormatter a val => exact good_setAppenderFormatter_iff h a val

theorem good_of_reachable {made : ℕ → F} (h : (machine made).Reachable Ok s) : Good s := by
  refine h.invariant ?_ ?_
  · intro l a ha
    cases ha
  · intro s t c hs hok hstep
    cases hstep
    exact (good_step_iff hs c).mpr hok

/-! ## Whole runs -/

/-- **Formatters.** Behind any sequence of calls that respect `Ok`, every appender that a
logger holds has a formatter, the logger's unless it has its own; and of the calls that may
come next exactly those that respect `Ok` leave it so. -/
theorem formatted_iff {made : ℕ → F} (h : (machine made).Reachable Ok s) (c : Call F) :
    Good s ∧ (Good (s.step c) ↔ Ok s c) :=
  ⟨good_of_reachable h, good_step_iff (good_of_reachable h) c⟩

theorem formatted_iff_added : ∃ s : State ℕ, (machine fun l => l).Reachable Ok s ∧
    Attached s 1 0 ∧ Good s ∧ (Good (s.step (.setFormatter 1 7)) ↔ Ok s (.setFormatter 1 7)) := by
  have hok : Ok (machine fun l => l).start (.addAppender 1 0) := by
    intro _ f hf
    cases hf
  have hreach := Machine.Runs.tail (M := machine fun l => l) (.addAppender 1 0) (.refl _) hok rfl
  exact ⟨_, hreach, attached_addAppender_iff.mpr (Or.inr ⟨rfl, rfl⟩), formatted_iff hreach _⟩

/-- An appender that is attached and then has its formatter cleared. -/
theorem setAppenderFormatter_null : ∃ s : State ℕ,
    (machine fun l => l).Reachable (fun _ _ => True) s ∧ Attached s 1 0 ∧
      (s.appenders 0).formatter = none ∧ ¬Good s := by
  obtain ⟨s, hs, hat, hnone⟩ : ∃ s, (machine fun l => l).Reachable (fun _ _ => True) s ∧
      0 ∈ (s.loggers 1).appenders ∧ (s.appenders 0).formatter = none :=
    Machine.exists_of_exec [.addAppender 1 0, .setAppenderFormatter 0 none] (by decide)
  exact ⟨s, hs, hat, hnone, fun hgood => (hgood 1 0 hat).nonnull hnone⟩

/-! ## Loggers as values -/

section Values

variable {s : State Pattern} {made : ℕ → Kind × Level} {l l' : ℕ}

/-- The appender at `a`; `made` has the fields that formatting does not read. -/
def State.appender (s : State Pattern) (made : ℕ → Kind × Level) (a : ℕ) : Log.LogAppender :=
  ⟨(made a).1, (made a).2, (s.appenders a).hasFormatter, (s.appenders a).formatter⟩

/-- Logger `l` with the appenders it points to. -/
def State.logger (s : State Pattern) (made : ℕ → Kind × Level) (level : Level) (l : ℕ) :
    Log.Logger :=
  ⟨level, (s.loggers l).formatter, (s.loggers l).appenders.map (s.appender made)⟩

theorem logger_setFormatter (level : Level) (f : Pattern) :
    (s.setFormatter l f).logger made level l = (s.logger made level l).setFormatter f := by
  simp only [State.logger, State.setFormatter, Logger.setFormatter, Function.update_self,
    List.map_map]
  refine congrArg (Log.Logger.mk level f) (List.map_congr_left fun a ha => ?_)
  rw [Function.comp_apply]
  by_cases hown : (s.appender made a).hasFormatter = true
  · rw [if_pos hown]
    simp only [State.appender, foldl_passOn_of_own f _ hown]
  · rw [if_neg hown]
    simp only [State.appender, foldl_passOn_of_mem f _ ha (Bool.eq_false_iff.mpr hown)]
    rfl

theorem logger_clearAppenders (level : Level) :
    (s.clearAppenders l).logger made level l = (s.logger made level l).clearAppenders := by
  simp [State.logger, State.clearAppenders, State.setLogger, Logger.clearAppenders]

/-- An appender of its own is set up and added: what is at `a` does not matter. -/
theorem logger_addAppender {ap : Log.LogAppender} {a : ℕ} (level : Level)
    (hfree : ¬Attached s l a) (hmade : made a = (ap.kind, ap.level))
    (hown : ap.hasFormatter = ap.formatter.isSome) :
    ((s.step (.setAppenderFormatter a ap.formatter)).step (.addAppender l a)).logger made level l =
      (s.logger made level l).addAppender ap := by
  obtain ⟨kind, lv, hasFormatter, formatter⟩ := ap
  dsimp only at hown hmade ⊢
  subst hown
  have hrest : ∀ x : LogAppender Pattern, (s.loggers l).appenders.map
      (State.appender { s with appenders := Function.update s.appenders a x } made) =
        (s.loggers l).appenders.map (s.appender made) := by
    refine fun x => List.map_congr_left fun b hb => ?_
    have hne : b ≠ a := by
      rintro rfl
      exact hfree hb
    simp only [State.appender, Function.update_of_ne hne]
  cases formatter with
  | some f =>
      have h := hrest (LogAppender.setFormatter (some f))
      simp_all [State.step, State.addAppender, State.adopt, State.setAppender, State.setLogger,
        State.logger, State.appender, Logger.addAppender, LogAppender.setFormatter]
  | none =>
      have h := hrest ((LogAppender.setFormatter none).inherit (s.loggers l).formatter)
      simp_all [State.step, State.addAppender, State.adopt, State.setAppender, State.setLogger,
        State.logger, State.appender, Logger.addAppender, LogAppender.setFormatter,
        LogAppender.inherit]

/-- The call concerns neither a logger nor an appender that it holds. -/
def Apart (s : State F) (l' : ℕ) : Call F → Prop
  | .addAppender l a => l' ≠ l ∧ ¬Attached s l' a
  | .delAppender l _ => l' ≠ l
  | .clearAppenders l => l' ≠ l
  | .setFormatter l _ => l' ≠ l ∧ ∀ a, Attached s l a → ¬Attached s l' a
  | .setAppenderFormatter a _ => ¬Attached s l' a

theorem loggers_of_apart {c : Call Pattern} (h : Apart s l' c) :
    (s.step c).loggers l' = s.loggers l' := by
  cases c with
  | addAppender l a => simp [State.step, State.addAppender, State.setLogger, h.1]
  | delAppender l a => exact Function.update_of_ne h _ _
  | clearAppenders l => exact Function.update_of_ne h _ _
  | setFormatter l f => exact Function.update_of_ne h.1 _ _
  | setAppenderFormatter a val => rfl

theorem appenders_of_apart {c : Call Pattern} (h : Apart s l' c) {b : ℕ} (hb : Attached s l' b) :
    (s.step c).appenders b = s.appenders b := by
  have hne : ∀ {a}, ¬Attached s l' a → b ≠ a := by
    rintro a ha rfl
    exact ha hb
  cases c with
  | addAppender l a =>
      simp only [State.step, State.addAppender, State.adopt, State.setLogger]
      split
      · rfl
      · exact Function.update_of_ne (hne h.2) _ _
  | delAppender l a => rfl
  | clearAppenders l => rfl
  | setFormatter l f => exact foldl_passOn_of_notMem f _ _ fun hmem => h.2 b hmem hb
  | setAppenderFormatter a val => exact Function.update_of_ne (hne h) _ _

theorem logger_of_apart {c : Call Pattern} (h : Apart s l' c) (level : Level) :
    (s.step c).logger made level l' = s.logger made level l' := by
  rw [State.logger, loggers_of_apart h]
  refine congrArg (Log.Logger.mk level _) (List.map_congr_left fun b hb => ?_)
  rw [State.appender, appenders_of_apart h hb]
  rfl

/-- The calls that set up the appenders `aps` of logger `l`, each at its number. -/
def attachAll (l : ℕ) (aps : List (ℕ × Log.LogAppender)) : List (Call Pattern) :=
  aps.flatMap fun x => [.setAppenderFormatter x.1 x.2.formatter, .addAppender l x.1]

theorem logger_attachAll (level : Level) : ∀ {s : State Pattern}
    (aps : List (ℕ × Log.LogAppender)), (aps.map Prod.fst).Nodup →
    (∀ x ∈ aps, ¬Attached s l x.1 ∧ made x.1 = (x.2.kind, x.2.level) ∧
      x.2.hasFormatter = x.2.formatter.isSome) →
    ((attachAll l aps).foldl State.step s).logger made level l =
      (aps.map Prod.snd).foldl (fun logger ap => logger.addAppender ap) (s.logger made level l)
  | s, [], _, _ => rfl
  | s, (a, ap) :: aps, hnodup, hnew => by
      obtain ⟨hnot, hnodup⟩ := List.nodup_cons.mp hnodup
      obtain ⟨hfree, hmade, hown⟩ := hnew (a, ap) List.mem_cons_self
      rw [List.map_cons, List.foldl_cons, ← logger_addAppender level hfree hmade hown]
      refine logger_attachAll level aps hnodup fun x hx => ?_
      obtain ⟨hfree', hrest⟩ := hnew x (List.mem_cons_of_mem _ hx)
      refine ⟨fun hat => ?_, hrest⟩
      rcases attached_addAppender_iff.mp hat with hold | ⟨-, heq⟩
      · exact hfree' hold
      · exact hnot (heq ▸ List.mem_map_of_mem hx)

theorem logger_attachAll_of_ne (hl : l' ≠ l) (level : Level) : ∀ {s : State Pattern}
    (aps : List (ℕ × Log.LogAppender)), (∀ x ∈ aps, ¬Attached s l' x.1) →
    ((attachAll l aps).foldl State.step s).logger made level l' = s.logger made level l'
  | s, [], _ => rfl
  | s, (a, ap) :: aps, hfree => by
      have ha := hfree (a, ap) List.mem_cons_self
      have hset : Apart s l' (.setAppenderFormatter a ap.formatter) := ha
      have hadd : Apart (s.step (.setAppenderFormatter a ap.formatter)) l' (.addAppender l a) :=
        ⟨hl, ha⟩
      have hloggers := (loggers_of_apart hadd).trans (loggers_of_apart hset)
      rw [← logger_of_apart hset, ← logger_of_apart hadd]
      refine logger_attachAll_of_ne hl level aps fun x hx hat => ?_
      rw [Attached, hloggers] at hat
      exact hfree x (List.mem_cons_of_mem _ hx) hat

/-- What the listener of the configuration calls for the definition `i` of logger `l`. -/
def calls (isError : Pattern → Bool) (i : LogDefine) (l : ℕ)
    (aps : List (ℕ × Log.LogAppender)) : List (Call Pattern) :=
  (if usable isError i.formatter then [.setFormatter l i.formatter] else []) ++
    .clearAppenders l :: attachAll l aps

variable (s made l l') in
/-- The formatter of the definition is set before the appenders are, or its pattern is refused. -/
theorem exists_setPattern (isError : Pattern → Bool) (i : LogDefine)
    (aps : List (ℕ × Log.LogAppender)) (level : Level) : ∃ t : State Pattern,
      (calls isError i l aps).foldl State.step s =
          (attachAll l aps).foldl State.step (t.clearAppenders l) ∧
        t.logger made i.level l = (if i.formatter.isEmpty then s.logger made i.level l
          else (s.logger made i.level l).setPattern isError i.formatter) ∧
        (l' ≠ l → (∀ a, Attached s l a → ¬Attached s l' a) →
          t.loggers l' = s.loggers l' ∧
            t.logger made level l' = s.logger made level l') := by
  rw [calls, ite_setPattern]
  by_cases huse : usable isError i.formatter = true
  · rw [if_pos huse, if_pos huse]
    refine ⟨s.setFormatter l i.formatter, rfl, logger_setFormatter i.level _,
      fun hl hshare => ?_⟩
    have hapart : Apart s l' (.setFormatter l i.formatter) := ⟨hl, hshare⟩
    exact ⟨loggers_of_apart hapart, logger_of_apart hapart level⟩
  · rw [if_neg huse, if_neg huse]
    exact ⟨s, rfl, rfl, fun _ _ => ⟨rfl, rfl⟩⟩

/-- **The listener.** With a number for every appender of a definition, the calls of the listener
make of its logger what `LogDefine.apply` says, and do nothing to a logger that holds none of
these appenders and shares none with the first. -/
theorem logger_calls {isError : Pattern → Bool} (i : LogDefine) {aps : List (ℕ × Log.LogAppender)}
    (haps : aps.map Prod.snd = i.appenders.filterMap (LogAppenderDefine.appender isError))
    (hnodup : (aps.map Prod.fst).Nodup) (hmade : ∀ x ∈ aps, made x.1 = (x.2.kind, x.2.level))
    (level : Level) :
    ((calls isError i l aps).foldl State.step s).logger made i.level l =
        i.apply isError (s.logger made level l) ∧
      (l' ≠ l → (∀ a, Attached s l a → ¬Attached s l' a) → (∀ x ∈ aps, ¬Attached s l' x.1) →
        ((calls isError i l aps).foldl State.step s).logger made level l' =
          s.logger made level l') := by
  obtain ⟨t, ht, hlogger, hother⟩ := exists_setPattern s made l l' isError i aps level
  rw [ht]
  constructor
  · rw [logger_attachAll i.level aps hnodup, haps, logger_clearAppenders, hlogger]
    · rfl
    · intro x hx
      refine ⟨?_, hmade x hx, ?_⟩
      · simp [Attached, State.clearAppenders, State.setLogger]
      · have hmem : x.2 ∈ i.appenders.filterMap (LogAppenderDefine.appender isError) :=
          haps ▸ List.mem_map_of_mem hx
        obtain ⟨a, -, ha⟩ := List.mem_filterMap.mp hmem
        exact hasFormatter_appender ha
  · intro hl hshare hfree
    obtain ⟨hloggers, hsame⟩ := hother hl hshare
    have hclear : Apart t l' (.clearAppenders l) := hl
    refine (logger_attachAll_of_ne hl level aps fun x hx hat => hfree x hx ?_).trans
      ((logger_of_apart hclear level).trans hsame)
    rw [Attached, ← hloggers, ← loggers_of_apart hclear]
    exact hat

end Values

end Shared

end Log

end Skt
