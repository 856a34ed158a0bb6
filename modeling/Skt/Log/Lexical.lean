import Skt.Lib.Loops
import Skt.Lib.OrderedSet
import Skt.Lib.Yaml
import Skt.Log.Model

/-!
# The configuration `logs` as text

`LexicalCast` between `std::set<LogDefine>` and a string: the definitions are put into a YAML
node that is emitted, and are collected from the node that was loaded. The reader does not
look at all that the writer has written.
-/

namespace Skt

namespace Log

open Lib Lib.CString

/-! ## Levels -/

namespace Level

/-- `LogLevel::ToString`. -/
def toString : Level → List UInt8
  | DEBUG => bytes "DEBUG"
  | INFO => bytes "INFO"
  | WARN => bytes "WARN"
  | ERROR => bytes "ERROR"
  | FATAL => bytes "FATAL"
  | _ => bytes "UNKONW"

/-- `LogLevel::FromString`. -/
def fromString (str : List UInt8) : Level :=
  (List.lookup str
    [(bytes "debug", DEBUG), (bytes "info", INFO), (bytes "warn", WARN), (bytes "error", ERROR),
     (bytes "fatal", FATAL), (bytes "DEBUG", DEBUG), (bytes "INFO", INFO), (bytes "WARN", WARN),
     (bytes "ERROR", ERROR), (bytes "FATAL", FATAL)]).getD UNKNOW

theorem fromString_toString {l : Level} (h : l ≠ removed) : fromString l.toString = l := by
  cases l with
  | removed => exact absurd rfl h
  | _ => decide

end Level

/-! ## The set -/

instance : IsTrans LogDefine fun a b => lexLess a.name b.name = true :=
  ⟨fun _ _ _ => lexLess_trans⟩

namespace LogDefines

/-- `insert`, which keeps an element with the same name. -/
def insert (d : LogDefine) (s : LogDefines) : LogDefines :=
  ⟨OrderedSet.insert (fun a b => lexLess a.name b.name = true) d s.defines,
    OrderedSet.insert_ordered s.sorted⟩

theorem ext {s t : LogDefines} (h : s.defines = t.defines) : s = t := by
  obtain ⟨ds, hs⟩ := s
  obtain ⟨es, ht⟩ := t
  cases h
  rfl

/-- Elements that come in order are appended. -/
theorem defines_foldl_insert : ∀ (ds : List LogDefine) (s : LogDefines),
    ((s.defines ++ ds).Pairwise fun a b => lexLess a.name b.name = true) →
      (ds.foldl (fun s d => s.insert d) s).defines = s.defines ++ ds
  | [], s, _ => (List.append_nil _).symm
  | d :: ds, s, h => by
      have hlast : (s.insert d).defines = s.defines ++ [d] := by
        refine OrderedSet.insert_of_forall fun b hb => ?_
        exact (List.pairwise_append.mp h).2.2 b hb d List.mem_cons_self
      rw [List.foldl_cons, defines_foldl_insert ds, hlast, List.append_assoc]
      · rfl
      · rw [hlast, List.append_assoc]
        exact h

end LogDefines

/-! ## The writer -/

/-- An entry that is written under a condition. -/
def entryIf (p : Prop) [Decidable p] (key text : List UInt8) : List (List UInt8 × Yaml.Node) :=
  if p then [(key, .scalar text)] else []

def LogAppenderDefine.node (a : LogAppenderDefine) : Yaml.Node :=
  .ofEntries
    ((if a.type = 1 then
        [(bytes "type", .scalar (bytes "FileLogAppender")), (bytes "file", .scalar a.file)]
      else entryIf (a.type = 2) (bytes "type") (bytes "StdoutLogAppender")) ++
      entryIf (a.level ≠ .UNKNOW) (bytes "level") a.level.toString ++
      entryIf (a.formatter ≠ []) (bytes "formatter") a.formatter)

def LogDefine.node (i : LogDefine) : Yaml.Node :=
  .ofEntries
    ((bytes "name", .scalar i.name) ::
      (entryIf (i.level ≠ .UNKNOW) (bytes "level") i.level.toString ++
        entryIf (i.formatter ≠ []) (bytes "formatter") i.formatter ++
        if i.appenders = [] then []
        else [(bytes "appenders", .ofItems (i.appenders.map LogAppenderDefine.node))]))

def LogDefines.node (v : LogDefines) : Yaml.Node := .ofItems (v.defines.map LogDefine.node)

/-- `LexicalCast<std::set<LogDefine>, std::string>`. -/
def LogDefines.toString (emit : Yaml.Node → List UInt8) (v : LogDefines) : List UInt8 :=
  emit v.node

/-! ## The reader -/

/-- The text of a node that may be undefined. -/
def textOr : Option Yaml.Node → Option (List UInt8)
  | none => some []
  | some n => n.asString

/-- One round of the inner loop; the inner `none` is `continue`. -/
def readAppender (a : Yaml.Node) : Option (Option LogAppenderDefine) := do
  match ← a.get (bytes "type") with
  | none => pure none
  | some type =>
      let type ← type.asString
      if type = bytes "FileLogAppender" then
        match ← a.get (bytes "file") with
        | none => pure none
        | some file =>
            let file ← file.asString
            let formatter ← textOr (← a.get (bytes "formatter"))
            pure (some { type := 1, level := .UNKNOW, formatter, file })
      else if type = bytes "StdoutLogAppender" then
        pure (some { type := 2, level := .UNKNOW, formatter := [], file := [] })
      else pure none

def readAppenders : Option Yaml.Node → Option (List LogAppenderDefine)
  | none => some []
  | some n => do
      let as ← (← n.items).mapM readAppender
      pure (as.filterMap id)

/-- One round of the outer loop. -/
def readDefine (n : Yaml.Node) : Option (Option LogDefine) := do
  match ← n.get (bytes "name") with
  | none => pure none
  | some name =>
      let name ← name.asString
      let level ← textOr (← n.get (bytes "level"))
      let formatter ← textOr (← n.get (bytes "formatter"))
      let appenders ← readAppenders (← n.get (bytes "appenders"))
      pure (some { name, level := .fromString level, formatter, appenders })

def readDefines (node : Yaml.Node) : Option LogDefines := do
  let ds ← (← node.items).mapM readDefine
  pure ((ds.filterMap id).foldl (fun s d => s.insert d) .empty)

/-- `LexicalCast<std::string, std::set<LogDefine>>`; `none` is an exception. -/
def LogDefines.fromString (load : List UInt8 → Yaml.Node) (v : List UInt8) : Option LogDefines :=
  readDefines (load v)

/-! ## What is read back -/

/-- A level of the enumeration, and a file name exactly for a file. -/
structure LogAppenderDefine.Valid (a : LogAppenderDefine) : Prop where
  level : a.level ≠ .removed
  type : a.type = 1 ∨ a.type = 2 ∧ a.file = []

structure LogDefine.Valid (i : LogDefine) : Prop where
  level : i.level ≠ .removed
  appenders : ∀ a ∈ i.appenders, a.Valid

/-- What is left of an appender. -/
def LogAppenderDefine.reread (a : LogAppenderDefine) : LogAppenderDefine :=
  { a with level := .UNKNOW, formatter := if a.type = 1 then a.formatter else [] }

def LogDefine.reread (i : LogDefine) : LogDefine :=
  { i with appenders := i.appenders.map LogAppenderDefine.reread }

def LogDefines.reread (v : LogDefines) : LogDefines :=
  ⟨v.defines.map LogDefine.reread, List.pairwise_map.mpr v.sorted⟩

section Entries

variable (p : Prop) [Decidable p] {key k : List UInt8} (text : List UInt8)

theorem lookup_entryIf_ne (h : k ≠ key) : (entryIf p key text).lookup k = none := by
  rw [entryIf]
  split_ifs
  · rw [List.lookup_cons, beq_false_of_ne h]
    rfl
  · rfl

theorem lookup_entryIf_self :
    (entryIf p key text).lookup key = if p then some (.scalar text) else none := by
  rw [entryIf]
  split_ifs
  · exact List.lookup_cons_self
  · rfl

end Entries

/-- An optional text that was left out because it is empty. -/
theorem textOr_ite_ne_nil (text : List UInt8) :
    textOr (if text ≠ [] then some (.scalar text) else none) = some text := by
  split_ifs with h
  · rfl
  · rw [not_not.mp h]
    rfl

theorem get_formatter_appender (a : LogAppenderDefine) :
    a.node.get (bytes "formatter") =
      some (if a.formatter ≠ [] then some (.scalar a.formatter) else none) := by
  have hfront : List.lookup (bytes "formatter")
      (if a.type = 1 then
        [(bytes "type", Yaml.Node.scalar (bytes "FileLogAppender")),
          (bytes "file", .scalar a.file)]
      else entryIf (a.type = 2) (bytes "type") (bytes "StdoutLogAppender")) = none := by
    split_ifs
    · rfl
    · exact lookup_entryIf_ne _ _ (by decide)
  rw [LogAppenderDefine.node, Yaml.Node.get_ofEntries, List.lookup_append,
    List.lookup_append, hfront,
    lookup_entryIf_ne _ _ (by decide), lookup_entryIf_self]
  rfl

theorem readAppender_file {a : LogAppenderDefine} (h : a.type = 1) :
    readAppender a.node = some (some a.reread) := by
  have htype : a.node.get (bytes "type") =
      some (some (.scalar (bytes "FileLogAppender"))) := by
    rw [LogAppenderDefine.node, Yaml.Node.get_ofEntries, if_pos h]
    rfl
  have hfile : a.node.get (bytes "file") = some (some (.scalar a.file)) := by
    rw [LogAppenderDefine.node, Yaml.Node.get_ofEntries, if_pos h]
    rfl
  simp only [readAppender, htype, hfile, get_formatter_appender, textOr_ite_ne_nil,
    Yaml.Node.asString, Option.bind_eq_bind, Option.bind_some, if_true,
    LogAppenderDefine.reread, h]
  rfl

theorem readAppender_stdout {a : LogAppenderDefine} (h : a.type = 2) (hfile : a.file = []) :
    readAppender a.node = some (some a.reread) := by
  have hne : a.type ≠ 1 := by
    rw [h]
    decide
  have htype : a.node.get (bytes "type") =
      some (some (.scalar (bytes "StdoutLogAppender"))) := by
    rw [LogAppenderDefine.node, Yaml.Node.get_ofEntries, if_neg hne, List.lookup_append,
      List.lookup_append, lookup_entryIf_self, if_pos h]
    rfl
  have hother : bytes "StdoutLogAppender" ≠ bytes "FileLogAppender" := by decide
  simp only [readAppender, htype, Yaml.Node.asString, Option.bind_eq_bind, Option.bind_some,
    if_neg hother, if_true, LogAppenderDefine.reread, h, hfile]
  rfl

theorem readAppender_node {a : LogAppenderDefine} (h : a.Valid) :
    readAppender a.node = some (some a.reread) := by
  rcases h.type with hfile | ⟨hstdout, hempty⟩
  · exact readAppender_file hfile
  · exact readAppender_stdout hstdout hempty

theorem readAppenders_node {i : LogDefine} (h : i.Valid) :
    readAppenders (if i.appenders = [] then none
      else some (.ofItems (i.appenders.map LogAppenderDefine.node))) =
      some (i.appenders.map LogAppenderDefine.reread) := by
  split_ifs with hnil
  · rw [hnil]
    rfl
  · simp only [readAppenders, Yaml.Node.items_ofItems, Option.bind_eq_bind, Option.bind_some,
      mapM_map_some fun a ha => readAppender_node (h.appenders a ha)]
    exact congrArg some (filterMap_id_map_some _ _)

/-- The level that is left out is the one that stands for none. -/
theorem textOr_level {l : Level} (h : l ≠ .removed) :
    ∃ text, textOr (if l ≠ .UNKNOW then some (.scalar l.toString) else none) = some text ∧
      Level.fromString text = l := by
  by_cases hl : l = .UNKNOW
  · subst hl
    exact ⟨[], rfl, by decide⟩
  · rw [if_pos hl]
    exact ⟨l.toString, rfl, Level.fromString_toString h⟩

/-- The entry `appenders`, which is written with its first element. -/
theorem lookup_appenders_ne {k : List UInt8} (i : LogDefine) (h : k ≠ bytes "appenders") :
    List.lookup k (if i.appenders = [] then []
      else [(bytes "appenders", Yaml.Node.ofItems (i.appenders.map LogAppenderDefine.node))]) =
      none := by
  split_ifs
  · rfl
  · rw [List.lookup_cons, beq_false_of_ne h]
    rfl

theorem lookup_appenders_self (i : LogDefine) :
    List.lookup (bytes "appenders") (if i.appenders = [] then []
      else [(bytes "appenders", Yaml.Node.ofItems (i.appenders.map LogAppenderDefine.node))]) =
      if i.appenders = [] then none
      else some (.ofItems (i.appenders.map LogAppenderDefine.node)) := by
  split_ifs
  · rfl
  · exact List.lookup_cons_self

/-- A key other than the name is looked up behind it. -/
theorem get_define {k : List UInt8} (i : LogDefine) (h : k ≠ bytes "name") :
    i.node.get k =
      some (((List.lookup k (entryIf (i.level ≠ .UNKNOW) (bytes "level") i.level.toString)).or
        (List.lookup k (entryIf (i.formatter ≠ []) (bytes "formatter") i.formatter))).or
        (List.lookup k (if i.appenders = [] then []
          else [(bytes "appenders", .ofItems (i.appenders.map LogAppenderDefine.node))]))) := by
  rw [LogDefine.node, Yaml.Node.get_ofEntries, List.lookup_cons, beq_false_of_ne h,
    List.lookup_append, List.lookup_append]

theorem readDefine_node {i : LogDefine} (h : i.Valid) :
    readDefine i.node = some (some i.reread) := by
  have hname : i.node.get (bytes "name") = some (some (.scalar i.name)) := rfl
  have hlevel : i.node.get (bytes "level") =
      some (if i.level ≠ .UNKNOW then some (.scalar i.level.toString) else none) := by
    rw [get_define i (by decide), lookup_entryIf_self, lookup_entryIf_ne _ _ (by decide),
      lookup_appenders_ne i (by decide), Option.or_none, Option.or_none]
  have hformatter : i.node.get (bytes "formatter") =
      some (if i.formatter ≠ [] then some (.scalar i.formatter) else none) := by
    rw [get_define i (by decide), lookup_entryIf_self, lookup_entryIf_ne _ _ (by decide),
      lookup_appenders_ne i (by decide), Option.none_or, Option.or_none]
  have happenders : i.node.get (bytes "appenders") =
      some (if i.appenders = [] then none
        else some (.ofItems (i.appenders.map LogAppenderDefine.node))) := by
    rw [get_define i (by decide), lookup_entryIf_ne _ _ (by decide),
      lookup_entryIf_ne _ _ (by decide), lookup_appenders_self, Option.none_or, Option.none_or]
  obtain ⟨text, htext, hfrom⟩ := textOr_level h.level
  simp only [readDefine, hname, hlevel, hformatter, happenders, htext, hfrom, textOr_ite_ne_nil,
    readAppenders_node h, Yaml.Node.asString, Option.bind_eq_bind, Option.bind_some,
    LogDefine.reread]
  rfl

theorem readDefines_node {v : LogDefines} (h : ∀ i ∈ v.defines, i.Valid) :
    readDefines v.node = some v.reread := by
  have hread := mapM_map_some fun i hi => readDefine_node (h i hi)
  simp only [readDefines, LogDefines.node, Yaml.Node.items_ofItems, Option.bind_eq_bind,
    Option.bind_some, hread]
  refine congrArg some (LogDefines.ext ?_)
  rw [filterMap_id_map_some]
  exact LogDefines.defines_foldl_insert _ .empty v.reread.sorted

/-! ## Round trips -/

/-- Nothing of the appender is lost. -/
def LogAppenderDefine.Kept (a : LogAppenderDefine) : Prop :=
  a.level = .UNKNOW ∧ (a.type = 2 → a.formatter = [])

theorem LogAppenderDefine.reread_eq_iff {a : LogAppenderDefine} (h : a.Valid) :
    a.reread = a ↔ a.Kept := by
  obtain ⟨type, level, formatter, file⟩ := a
  simp only [LogAppenderDefine.reread, LogAppenderDefine.mk.injEq, true_and, and_true,
    LogAppenderDefine.Kept]
  rcases h.type with rfl | ⟨rfl, -⟩
  · simp [eq_comm]
  · simp [eq_comm]

theorem LogDefine.reread_eq_iff {i : LogDefine} (h : i.Valid) :
    i.reread = i ↔ ∀ a ∈ i.appenders, a.Kept := by
  obtain ⟨name, level, formatter, appenders⟩ := i
  simp only [LogDefine.reread, LogDefine.mk.injEq, true_and, map_eq_self_iff]
  exact forall₂_congr fun a ha => LogAppenderDefine.reread_eq_iff (h.appenders a ha)

theorem LogDefines.reread_eq_iff {v : LogDefines} (h : ∀ i ∈ v.defines, i.Valid) :
    v.reread = v ↔ ∀ i ∈ v.defines, ∀ a ∈ i.appenders, a.Kept := by
  have hdefines : v.reread = v ↔ v.defines.map LogDefine.reread = v.defines :=
    ⟨congrArg LogDefines.defines, fun hmap => LogDefines.ext hmap⟩
  rw [hdefines, map_eq_self_iff]
  exact forall₂_congr fun i hi => LogDefine.reread_eq_iff (h i hi)

/-- **Round trip.** Definitions come back as they were exactly if no appender has a level and
none on the standard output a formatter. -/
theorem LogDefines.fromString_toString_iff {emit : Yaml.Node → List UInt8}
    {load : List UInt8 → Yaml.Node} {v : LogDefines} (hvalid : ∀ i ∈ v.defines, i.Valid)
    (hload : load (emit v.node) = v.node) :
    LogDefines.fromString load (v.toString emit) = some v ↔
      ∀ i ∈ v.defines, ∀ a ∈ i.appenders,
        a.level = .UNKNOW ∧ (a.type = 2 → a.formatter = []) := by
  rw [LogDefines.fromString, LogDefines.toString, hload, readDefines_node hvalid,
    Option.some_inj]
  exact LogDefines.reread_eq_iff hvalid

/-- The logger `root` with one appender. -/
def rootWith (a : LogAppenderDefine) : LogDefines :=
  ⟨[{ name := bytes "root", level := .INFO, formatter := [], appenders := [a] }],
    List.pairwise_singleton _ _⟩

theorem rootWith_valid {a : LogAppenderDefine} (h : a.Valid) :
    ∀ i ∈ (rootWith a).defines, i.Valid := by
  intro i hi
  obtain rfl := List.mem_singleton.mp hi
  constructor
  · rintro ⟨⟩
  · intro b hb
    rw [List.mem_singleton.mp hb]
    exact h

/-- What is loaded from the text of a node. -/
def loadText (text : List UInt8) (node : Yaml.Node) (v : List UInt8) : Yaml.Node :=
  if v = text then node else .null

def toFile : LogAppenderDefine :=
  { type := 1, level := .UNKNOW, formatter := bytes "%m", file := bytes "log.txt" }

/-- The text that is emitted for `rootWith toFile`. -/
def toFileText : List UInt8 :=
  bytes "- name: root\n  level: INFO\n  appenders:\n    - type: FileLogAppender\n" ++
    bytes "      file: log.txt\n      formatter: \"%m\""

theorem LogDefines.fromString_toString_iff_file :
    (∀ i ∈ (rootWith toFile).defines, i.Valid) ∧
      (LogDefines.fromString (loadText toFileText (rootWith toFile).node)
          ((rootWith toFile).toString fun _ => toFileText) = some (rootWith toFile) ↔
        ∀ i ∈ (rootWith toFile).defines, ∀ a ∈ i.appenders,
          a.level = .UNKNOW ∧ (a.type = 2 → a.formatter = [])) :=
  have hvalid := rootWith_valid ⟨by decide, Or.inl rfl⟩
  ⟨hvalid, LogDefines.fromString_toString_iff hvalid (if_pos rfl)⟩

def atError : LogAppenderDefine := { type := 2, level := .ERROR, formatter := [], file := [] }

/-- The text that is emitted for `rootWith atError`. -/
def atErrorText : List UInt8 :=
  bytes "- name: root\n  level: INFO\n  appenders:\n    - type: StdoutLogAppender\n" ++
    bytes "      level: ERROR"

/-- An appender on the standard output for errors only comes back without its level. -/
theorem LogDefines.fromString_level_lost :
    (∀ i ∈ (rootWith atError).defines, i.Valid) ∧
      LogDefines.fromString (loadText atErrorText (rootWith atError).node)
        ((rootWith atError).toString fun _ => atErrorText) ≠ some (rootWith atError) := by
  have hvalid := rootWith_valid (a := atError) ⟨by decide, Or.inr ⟨rfl, rfl⟩⟩
  refine ⟨hvalid, ?_⟩
  rw [LogDefines.fromString, LogDefines.toString, loadText, if_pos rfl, readDefines_node hvalid]
  intro heq
  have hkept := (LogDefines.reread_eq_iff hvalid).mp (Option.some.inj heq) _
    List.mem_cons_self atError List.mem_cons_self
  exact absurd hkept.1 (by decide)

end Log

end Skt
