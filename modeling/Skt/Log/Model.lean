import Skt.Lib.CString

/-!
# Loggers and their configuration

The loggers of `LoggerManager`, the configuration variable `logs`, and the listener
that carries a change of the one over to the other. A formatter is its pattern;
`isError` says which patterns are refused, as `LogFormatter.isError` does.
-/

namespace Skt

namespace Log

open Lib Lib.CString

/-- `LogLevel::Level`; `removed` is the `(LogLevel::Level) 100` of a logger that is no
longer configured. -/
inductive Level
  | UNKNOW | DEBUG | INFO | WARN | ERROR | FATAL | removed
  deriving DecidableEq, Repr

abbrev Name := List UInt8

abbrev Pattern := List UInt8

/-! ## Loggers -/

inductive Kind
  | file (filename : List UInt8)
  | stdout
  deriving DecidableEq, Repr

structure LogAppender where
  kind : Kind
  level : Level
  hasFormatter : Bool
  formatter : Option Pattern
  deriving DecidableEq, Repr

structure Logger where
  level : Level
  formatter : Pattern
  appenders : List LogAppender
  deriving DecidableEq, Repr

namespace LogAppender

def new (kind : Kind) : LogAppender where
  kind
  level := .DEBUG
  hasFormatter := false
  formatter := none

def setFormatter (val : Option Pattern) (a : LogAppender) : LogAppender :=
  { a with formatter := val, hasFormatter := val.isSome }

end LogAppender

namespace Logger

def defaultPattern : Pattern :=
  bytes "%d\x7b%Y-%m-%d %H:%M:%S\x7d%T%t%T%N%T%F%T[%p]%T[%c]%T%f:%l%T%m%n"

def new : Logger where
  level := .DEBUG
  formatter := defaultPattern
  appenders := []

def setLevel (val : Level) (l : Logger) : Logger := { l with level := val }

def addAppender (a : LogAppender) (l : Logger) : Logger :=
  let a := if a.formatter.isNone then { a with formatter := some l.formatter } else a
  { l with appenders := l.appenders ++ [a] }

def clearAppenders (l : Logger) : Logger := { l with appenders := [] }

/-- `setFormatter(LogFormatter::ptr)`. -/
def setFormatter (val : Pattern) (l : Logger) : Logger :=
  { l with
    formatter := val
    appenders := l.appenders.map fun a =>
      if a.hasFormatter then a else { a with formatter := some val } }

/-- `setFormatter(const std::string&)`. -/
def setPattern (isError : Pattern → Bool) (val : Pattern) (l : Logger) : Logger :=
  if isError val then l else l.setFormatter val

end Logger

/-- `m_loggers`. -/
abbrev LoggerManager := Name → Option Logger

/-- `SKT_LOG_NAME(name)`: a logger that is not there yet is made. -/
def LoggerManager.getLogger (m : LoggerManager) (name : Name) : Logger :=
  (m name).getD Logger.new

/-- A logger is fetched and changed. -/
def LoggerManager.onLogger (name : Name) (f : Logger → Logger) (m : LoggerManager) :
    LoggerManager :=
  Function.update m name (some (f (m.getLogger name)))

/-! ## The configuration -/

structure LogAppenderDefine where
  /-- `1` for a file, `2` for the standard output -/
  type : ℤ
  level : Level
  formatter : Pattern
  file : List UInt8
  deriving DecidableEq, Repr

structure LogDefine where
  name : Name
  level : Level
  formatter : Pattern
  appenders : List LogAppenderDefine
  deriving DecidableEq, Repr

/-- `LogDefine::operator==`, which compares the appenders with themselves. -/
def LogDefine.eq (d oth : LogDefine) : Bool :=
  d.name = oth.name && d.level = oth.level && d.formatter = oth.formatter &&
    d.appenders = d.appenders

/-- `std::set<LogDefine>`: the definitions in the order of their names. -/
structure LogDefines where
  defines : List LogDefine
  sorted : defines.Pairwise fun a b => lexLess a.name b.name = true

namespace LogDefines

/-- `operator==` of the set. -/
def eq (s oth : LogDefines) : Bool :=
  s.defines.length = oth.defines.length && (s.defines.zip oth.defines).all fun e => e.1.eq e.2

/-- `find(i)`, which compares the names. -/
def find (i : LogDefine) (s : LogDefines) : Option LogDefine :=
  s.defines.find? fun d => d.name = i.name

def empty : LogDefines := ⟨[], List.Pairwise.nil⟩

end LogDefines

section Listener

variable (isError : Pattern → Bool)

/-- The appender that the listener makes of its definition. -/
def LogAppenderDefine.appender (a : LogAppenderDefine) : Option LogAppender :=
  let make (kind : Kind) : LogAppender :=
    let ap := { LogAppender.new kind with level := a.level }
    if !a.formatter.isEmpty && !isError a.formatter then ap.setFormatter (some a.formatter) else ap
  if a.type = 1 then some (make (.file a.file))
  else if a.type = 2 then some (make .stdout)
  else none

/-- What the listener does with the logger of a definition that is new or changed. -/
def LogDefine.apply (i : LogDefine) (logger : Logger) : Logger :=
  let logger := logger.setLevel i.level
  let logger := if i.formatter.isEmpty then logger else logger.setPattern isError i.formatter
  (i.appenders.filterMap (LogAppenderDefine.appender isError)).foldl
    (fun logger ap => logger.addAppender ap) logger.clearAppenders

/-- The listener's first loop. -/
def update (old : LogDefines) (new : List LogDefine) (m : LoggerManager) : LoggerManager :=
  new.foldl (fun m i =>
    match old.find i with
    | none => m.onLogger i.name (i.apply isError)
    | some d => if !i.eq d then m.onLogger i.name (i.apply isError) else m) m

/-- Its second loop, over the definitions that are gone. -/
def remove (old : List LogDefine) (new : LogDefines) (m : LoggerManager) : LoggerManager :=
  old.foldl (fun m i =>
    match new.find i with
    | none => m.onLogger i.name fun l => (l.setLevel .removed).clearAppenders
    | some _ => m) m

/-- The listener of `LogIniter`. -/
def onChange (old new : LogDefines) (m : LoggerManager) : LoggerManager :=
  remove old.defines new (update isError old new.defines m)

/-- The value of `logs`, and the loggers. -/
structure State where
  val : LogDefines
  loggers : LoggerManager

/-- `ConfigVar::setValue` on `logs`. -/
def State.setValue (v : LogDefines) (s : State) : State :=
  if v.eq s.val then s
  else { val := v, loggers := onChange isError s.val v s.loggers }

end Listener

end Log

end Skt
