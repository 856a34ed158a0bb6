import Skt.Log.Formatter
import Skt.Log.Model

/-!
# Reloading the configuration of the loggers

A reload touches the loggers whose definitions have changed, as `operator==` sees it.
It does not see the appenders. And a definition without a formatter leaves the logger
the one that it has, which may be the one of an earlier definition.
-/

namespace Skt

namespace Log

open Lib Lib.CString

variable (isError : Pattern → Bool)

/-- A pattern that a definition sets. -/
def usable (pattern : Pattern) : Bool := !pattern.isEmpty && !isError pattern

/-- The formatter of a logger behind a definition. -/
def LogDefine.formatterOver (i : LogDefine) (formatter : Pattern) : Pattern :=
  if usable isError i.formatter then i.formatter else formatter

/-- The appender behind `addAppender`. -/
def LogAppender.attach (formatter : Pattern) (a : LogAppender) : LogAppender :=
  if a.formatter.isNone then { a with formatter := some formatter } else a

def LogAppender.detach (a : LogAppender) : LogAppender :=
  if a.hasFormatter then a else { a with formatter := none }

/-- The definition `o` of a logger that is now `l` does not show behind `d`: it is the
same but for appenders that make no difference, or it has not left its formatter. -/
def Harmless (l : Logger) (o d : LogDefine) : Prop :=
  if o.level = d.level ∧ o.formatter = d.formatter then
    o.appenders.filterMap (LogAppenderDefine.appender isError) =
      d.appenders.filterMap (LogAppenderDefine.appender isError)
  else usable isError d.formatter = true ∨ usable isError o.formatter = false ∨
    o.formatter = l.formatter

/-- A pattern that tokens spell is set if there are any and their names are known. -/
theorem usable_spell_iff {ts : List LogFormatter.Token} (h : LogFormatter.WellFormed ts) :
    usable LogFormatter.isError (LogFormatter.spell ts) = true ↔
      ts ≠ [] ∧ ∀ t ∈ ts, ¬t.Unknown := by
  have hnil : LogFormatter.spell ts = [] ↔ ts = [] := by
    cases ts with
    | nil => exact iff_of_true rfl rfl
    | cons t ts => cases t <;> simp [LogFormatter.spell, LogFormatter.Token.text]
  have herror := LogFormatter.isError_spell_iff h
  rw [usable, Bool.and_eq_true, Bool.not_eq_true', Bool.not_eq_true', Bool.eq_false_iff,
    Bool.eq_false_iff, ne_eq, ne_eq, herror, List.isEmpty_iff, hnil]
  push Not
  exact Iff.rfl

/-! ## One definition -/

variable {isError}

theorem addAppender_eq (a : LogAppender) (l : Logger) :
    l.addAppender a = { l with appenders := l.appenders ++ [a.attach l.formatter] } := rfl

theorem foldl_addAppender : ∀ (as : List LogAppender) (l : Logger),
    as.foldl (fun l a => l.addAppender a) l =
      { l with appenders := l.appenders ++ as.map (LogAppender.attach l.formatter) }
  | [], l => by simp
  | a :: as, l => by
      rw [List.foldl_cons, foldl_addAppender as, addAppender_eq]
      simp

/-- The pattern of a definition is set if it can be. -/
theorem ite_setPattern (l : Logger) (pattern : Pattern) :
    (if pattern.isEmpty then l else l.setPattern isError pattern) =
      if usable isError pattern then l.setFormatter pattern else l := by
  unfold usable Logger.setPattern
  by_cases hempty : pattern.isEmpty = true
  · simp [hempty]
  · by_cases herror : isError pattern = true
    · simp [hempty, herror]
    · simp [hempty, herror]

/-- What a definition makes of a logger. -/
theorem apply_eq (i : LogDefine) (l : Logger) :
    i.apply isError l =
      { level := i.level
        formatter := i.formatterOver isError l.formatter
        appenders := (i.appenders.filterMap (LogAppenderDefine.appender isError)).map
          (LogAppender.attach (i.formatterOver isError l.formatter)) } := by
  unfold LogDefine.apply LogDefine.formatterOver
  rw [foldl_addAppender, ite_setPattern]
  by_cases huse : usable isError i.formatter = true
  · simp [huse, Logger.clearAppenders, Logger.setLevel, Logger.setFormatter]
  · simp [huse, Logger.clearAppenders, Logger.setLevel]

theorem hasFormatter_appender {a : LogAppenderDefine} {ap : LogAppender}
    (h : a.appender isError = some ap) : ap.hasFormatter = ap.formatter.isSome := by
  unfold LogAppenderDefine.appender at h
  dsimp only at h
  split_ifs at h <;> cases h <;> rfl

theorem detach_attach {a : LogAppenderDefine} {ap : LogAppender}
    (h : a.appender isError = some ap) (formatter : Pattern) :
    (ap.attach formatter).detach = ap := by
  have hmade := hasFormatter_appender h
  obtain ⟨kind, level, hasFormatter, own⟩ := ap
  cases own with
  | none =>
      cases hmade
      rfl
  | some p =>
      cases hmade
      rfl

/-- Appenders that were made of definitions can be told apart behind `attach`. -/
theorem map_attach_inj {as bs : List LogAppenderDefine} (formatter : Pattern) :
    (as.filterMap (LogAppenderDefine.appender isError)).map (LogAppender.attach formatter) =
        (bs.filterMap (LogAppenderDefine.appender isError)).map (LogAppender.attach formatter) ↔
      as.filterMap (LogAppenderDefine.appender isError) =
        bs.filterMap (LogAppenderDefine.appender isError) := by
  have hdetach : ∀ cs : List LogAppenderDefine,
      ((cs.filterMap (LogAppenderDefine.appender isError)).map
        (LogAppender.attach formatter)).map LogAppender.detach =
          cs.filterMap (LogAppenderDefine.appender isError) := by
    intro cs
    rw [List.map_map]
    refine (List.map_congr_left fun ap hap => ?_).trans (List.map_id _)
    obtain ⟨a, -, ha⟩ := List.mem_filterMap.mp hap
    exact detach_attach ha formatter
  constructor
  · intro h
    rw [← hdetach as, h, hdetach bs]
  · exact fun h => by rw [h]

theorem formatterOver_iff {o d : LogDefine} {formatter : Pattern} :
    d.formatterOver isError (o.formatterOver isError formatter) =
        d.formatterOver isError formatter ↔
      usable isError d.formatter = true ∨ usable isError o.formatter = false ∨
        o.formatter = formatter := by
  unfold LogDefine.formatterOver
  by_cases hd : usable isError d.formatter = true
  · simp [hd]
  · by_cases ho : usable isError o.formatter = true
    · simp [hd, ho]
    · simp [hd, ho]

/-! ## The loops of the listener -/

theorem getLogger_onLogger (m : LoggerManager) (f : Logger → Logger) (name name' : Name) :
    (m.onLogger name f).getLogger name' =
      if name' = name then f (m.getLogger name) else m.getLogger name' := by
  unfold LoggerManager.getLogger LoggerManager.onLogger
  rw [Function.update_apply]
  split_ifs <;> rfl

/-- The names of a list of definitions are not repeated. -/
def Distinct (ds : List LogDefine) : Prop := ds.Pairwise fun a b => a.name ≠ b.name

theorem LogDefines.distinct (s : LogDefines) : Distinct s.defines := by
  refine s.sorted.imp fun {a b} h heq => ?_
  rw [heq, lexLess_irrefl] at h
  cases h

/-- The definition is new or, as the listener sees it, changed. -/
def changed (old : LogDefines) (i : LogDefine) : Bool :=
  match old.find i with
  | none => true
  | some d => !i.eq d

theorem update_cons (old : LogDefines) (i : LogDefine) (new : List LogDefine)
    (m : LoggerManager) :
    update isError old (i :: new) m =
      update isError old new
        (if changed old i then m.onLogger i.name (i.apply isError) else m) := by
  unfold update changed
  rw [List.foldl_cons]
  cases old.find i with
  | none => rfl
  | some d => rfl

theorem getLogger_update_of_ne (old : LogDefines) {name : Name} :
    ∀ {new : List LogDefine} (m : LoggerManager), (∀ d ∈ new, d.name ≠ name) →
      (update isError old new m).getLogger name = m.getLogger name
  | [], _, _ => rfl
  | i :: new, m, h => by
      rw [update_cons, getLogger_update_of_ne old _ fun d hd => h d (List.mem_cons_of_mem _ hd)]
      split_ifs
      · rw [getLogger_onLogger, if_neg (h i List.mem_cons_self).symm]
      · rfl

theorem getLogger_update (old : LogDefines) : ∀ {new : List LogDefine} (m : LoggerManager),
    Distinct new → ∀ d ∈ new, (update isError old new m).getLogger d.name =
      if changed old d then d.apply isError (m.getLogger d.name) else m.getLogger d.name
  | [], _, _, d, hd => absurd hd List.not_mem_nil
  | i :: new, m, hdistinct, d, hd => by
      obtain ⟨hi, hdistinct⟩ := List.pairwise_cons.mp hdistinct
      rw [update_cons]
      rcases List.mem_cons.mp hd with rfl | hd
      · rw [getLogger_update_of_ne old _ fun d' hd' => (hi d' hd').symm]
        split_ifs
        · rw [getLogger_onLogger, if_pos rfl]
        · rfl
      · rw [getLogger_update old _ hdistinct d hd]
        have hother : ∀ f, (m.onLogger i.name f).getLogger d.name = m.getLogger d.name := by
          intro f
          rw [getLogger_onLogger, if_neg (hi d hd).symm]
        by_cases hc : changed old i = true
        · rw [if_pos hc, hother]
        · rw [if_neg hc]

theorem getLogger_remove (new : LogDefines) {d : LogDefine} (hd : d ∈ new.defines) :
    ∀ (old : List LogDefine) (m : LoggerManager),
      (remove old new m).getLogger d.name = m.getLogger d.name
  | [], _ => rfl
  | i :: old, m => by
      show (remove old new _).getLogger d.name = _
      rw [getLogger_remove new hd old]
      dsimp only
      cases hfind : new.find i with
      | none =>
          have hne : d.name ≠ i.name := by
            have := List.find?_eq_none.mp hfind d hd
            simpa using this
          rw [getLogger_onLogger, if_neg hne]
      | some _ => rfl

/-! ## Setting the variable -/

theorem eq_iff {d o : LogDefine} :
    d.eq o = true ↔ d.name = o.name ∧ d.level = o.level ∧ d.formatter = o.formatter := by
  simp [LogDefine.eq, and_assoc]

theorem find?_of_mem {o d : LogDefine} (hname : o.name = d.name) :
    ∀ {ds : List LogDefine}, Distinct ds → o ∈ ds →
      ds.find? (fun d' => d'.name = d.name) = some o
  | [], _, ho => absurd ho List.not_mem_nil
  | i :: ds, hdistinct, ho => by
      obtain ⟨hi, hdistinct⟩ := List.pairwise_cons.mp hdistinct
      rw [List.find?_cons]
      rcases List.mem_cons.mp ho with rfl | ho
      · rw [decide_eq_true hname]
      · rw [decide_eq_false fun h => hi o ho (h.trans hname.symm)]
        exact find?_of_mem hname hdistinct ho

theorem find_of_mem {s : LogDefines} {o d : LogDefine} (ho : o ∈ s.defines)
    (hname : o.name = d.name) : s.find d = some o :=
  find?_of_mem hname s.distinct ho

theorem mem_of_find {s : LogDefines} {o d : LogDefine} (h : s.find d = some o) :
    o ∈ s.defines ∧ o.name = d.name :=
  ⟨List.mem_of_find?_eq_some h, by simpa using List.find?_some h⟩

/-- Sets that are equal have nothing that has changed. -/
theorem changed_of_eq {v old : LogDefines} (h : v.eq old = true) {d : LogDefine}
    (hd : d ∈ v.defines) : changed old d = false := by
  rw [LogDefines.eq, Bool.and_eq_true, decide_eq_true_eq] at h
  obtain ⟨hlen, hall⟩ := h
  obtain ⟨n, hn, rfl⟩ := List.getElem_of_mem hd
  have hzip : (v.defines[n], old.defines[n]) ∈ v.defines.zip old.defines := by
    rw [← List.getElem_zip]
    · exact List.getElem_mem _
    · rw [List.length_zip]
      omega
  have heq := List.all_eq_true.mp hall _ hzip
  have hname : old.defines[n].name = v.defines[n].name := (eq_iff.mp heq).1.symm
  rw [changed, find_of_mem (List.getElem_mem _) hname]
  simp [heq]

/-- A logger behind a change of the variable. -/
theorem getLogger_setValue (v : LogDefines) (s : State) {d : LogDefine} (hd : d ∈ v.defines) :
    (s.setValue isError v).loggers.getLogger d.name =
      if changed s.val d then d.apply isError (s.loggers.getLogger d.name)
      else s.loggers.getLogger d.name := by
  unfold State.setValue
  split_ifs with heq hchanged hchanged
  · rw [changed_of_eq heq hd] at hchanged
    cases hchanged
  · rfl
  · show (onChange isError s.val v s.loggers).getLogger d.name = _
    rw [onChange, getLogger_remove v hd, getLogger_update _ _ v.distinct d hd, if_pos hchanged]
  · show (onChange isError s.val v s.loggers).getLogger d.name = _
    rw [onChange, getLogger_remove v hd, getLogger_update _ _ v.distinct d hd, if_neg hchanged]

theorem val_setValue (old : LogDefines) (loggers : LoggerManager) :
    (State.setValue isError old ⟨.empty, loggers⟩).val = old := by
  unfold State.setValue
  split_ifs with heq
  · have hnil : old.defines = [] := by
      rw [LogDefines.eq, Bool.and_eq_true, decide_eq_true_eq] at heq
      exact List.length_eq_zero_iff.mp heq.1
    obtain ⟨defines, sorted⟩ := old
    subst hnil
    rfl
  · rfl

theorem changed_empty (d : LogDefine) : changed .empty d = true := rfl

theorem getLogger_setValue_of_ne (v : LogDefines) (loggers : LoggerManager) {name : Name}
    (h : ∀ d ∈ v.defines, d.name ≠ name) :
    (State.setValue isError v ⟨.empty, loggers⟩).loggers.getLogger name =
      loggers.getLogger name := by
  unfold State.setValue
  split_ifs
  · rfl
  · show (update isError .empty v.defines loggers).getLogger name = _
    exact getLogger_update_of_ne .empty loggers h

/-- **Reloads.** The configuration `old` that was set before `new` does not show in a
logger of `new` exactly if its definition of this logger is harmless. -/
theorem reload_iff (isError : Pattern → Bool) (old new : LogDefines) (loggers : LoggerManager) :
    (∀ d ∈ new.defines,
        ((State.setValue isError old ⟨.empty, loggers⟩).setValue isError new).loggers.getLogger
            d.name =
          (State.setValue isError new ⟨.empty, loggers⟩).loggers.getLogger d.name) ↔
      ∀ d ∈ new.defines, ∀ o ∈ old.defines, o.name = d.name →
        Harmless isError (loggers.getLogger d.name) o d := by
  refine forall₂_congr fun d hd => ?_
  rw [getLogger_setValue new _ hd, getLogger_setValue new _ hd, val_setValue, changed_empty,
    if_pos rfl]
  cases hfind : old.find d with
  | none =>
      have hne : ∀ o ∈ old.defines, o.name ≠ d.name := by
        intro o ho
        simpa using List.find?_eq_none.mp hfind o ho
      rw [getLogger_setValue_of_ne old loggers hne, changed, hfind]
      exact iff_of_true rfl fun o ho hname => absurd hname (hne o ho)
  | some o =>
      obtain ⟨ho, hname⟩ := mem_of_find hfind
      have hfirst : (State.setValue isError old ⟨.empty, loggers⟩).loggers.getLogger d.name =
          o.apply isError (loggers.getLogger d.name) := by
        rw [← hname, getLogger_setValue old _ ho, changed_empty, if_pos rfl]
      have honly : (∀ o' ∈ old.defines, o'.name = d.name →
          Harmless isError (loggers.getLogger d.name) o' d) ↔
            Harmless isError (loggers.getLogger d.name) o d := by
        constructor
        · exact fun h => h o ho hname
        · intro h o' ho' hname'
          have := (find_of_mem ho' hname').symm.trans hfind
          rwa [Option.some.inj this]
      rw [honly, hfirst, changed, hfind]
      unfold Harmless
      by_cases hsame : o.level = d.level ∧ o.formatter = d.formatter
      · have heq : d.eq o = true := eq_iff.mpr ⟨hname.symm, hsame.1.symm, hsame.2.symm⟩
        have hover : ∀ f, o.formatterOver isError f = d.formatterOver isError f := by
          intro f
          rw [LogDefine.formatterOver, LogDefine.formatterOver, hsame.2]
        rw [if_pos hsame, ← map_attach_inj (d.formatterOver isError
          (loggers.getLogger d.name).formatter)]
        simp [heq, apply_eq, hsame.1, hover]
      · have hne : d.eq o = false := by
          refine Bool.eq_false_iff.mpr fun h => hsame ?_
          obtain ⟨-, hlevel, hformatter⟩ := eq_iff.mp h
          exact ⟨hlevel.symm, hformatter.symm⟩
        rw [if_neg hsame, ← formatterOver_iff]
        simp only [hne, Bool.not_false, if_true, apply_eq, Logger.mk.injEq, true_and]
        constructor
        · exact fun h => h.1
        · exact fun h => ⟨h, by rw [h]⟩

/-- A configuration of one logger. -/
def oneLogger (appenders : List LogAppenderDefine) : LogDefines where
  defines := [{ name := bytes "root", level := .INFO, formatter := [], appenders }]
  sorted := List.pairwise_singleton _ _

/-- Where the logger of this configuration writes to. -/
def State.kinds (s : State) : List Kind :=
  (s.loggers.getLogger (bytes "root")).appenders.map LogAppender.kind

/-- The appenders of a logger are changed from the standard output to a file, and it
still writes to the standard output. -/
theorem reload_appenders :
    let stdout : LogAppenderDefine := ⟨2, .DEBUG, [], []⟩
    let file : LogAppenderDefine := ⟨1, .DEBUG, [], bytes "log.txt"⟩
    let start : State := ⟨.empty, fun _ => none⟩
    ((start.setValue LogFormatter.isError (oneLogger [stdout])).setValue LogFormatter.isError
        (oneLogger [file])).kinds = [.stdout] ∧
      (start.setValue LogFormatter.isError (oneLogger [file])).kinds =
        [.file (bytes "log.txt")] := by
  decide

end Log

end Skt
