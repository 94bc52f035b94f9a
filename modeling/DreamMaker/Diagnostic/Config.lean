import DreamMaker.Diagnostic.Report

namespace DreamMaker

structure Config where
  warningsAsErrors : Bool := false
  /-- Severities of single codes, the latest first; `none` hides a code. -/
  overrides : List (Code × Option Severity) := []
  unreachable : Bool := true
  constantConditions : Bool := true
  emptyProcs : Bool := true
deriving Repr, Inhabited

namespace Config

/-- Gives a code a severity of its own, or hides it. Forced errors stay as they are. -/
def setSeverity (config : Config) (code : Code) (severity? : Option Severity) : Config :=
  if code.isForced then config
  else { config with overrides := (code, severity?) :: config.overrides }

def suppress (config : Config) (code : Code) : Config :=
  config.setSeverity code none

def severityFor (config : Config) (code : Code) (requested : Severity) : Option Severity :=
  (config.overrides.lookup code).getD (some requested) |>.map fun severity =>
    if config.warningsAsErrors && severity == .warning then .error else severity

def severityOf (config : Config) (code : Code) : Option Severity :=
  config.severityFor code code.severity

def covers (config : Config) : Topic → Bool
  | .always => true
  | .unreachable => config.unreachable
  | .constantCondition => config.constantConditions
  | .emptyProc => config.emptyProcs
  | .lenientSet => config.severityOf .invalidSetStatement != some .error

def show? (config : Config) (diagnostic : Diagnostic) : Option Diagnostic :=
  (config.severityFor diagnostic.code diagnostic.severity).map fun severity =>
    { diagnostic with severity }

def admit? (config : Config) (report : Report) : Option Diagnostic :=
  if config.covers report.topic then config.show? report.diagnostic else none

end Config

/-- The problems found so far, and the configuration that says how they are shown. -/
structure Log where
  config : Config := {}
  reports : Array Report := #[]
deriving Repr, Inhabited

structure Sink where
  config : Config := {}
  items : Array Diagnostic := #[]
deriving Repr, Inhabited

namespace Sink

def fork (sink : Sink) : Sink :=
  { config := sink.config }

def push (sink : Sink) (diagnostic : Diagnostic) : Sink :=
  match sink.config.show? diagnostic with
  | some shown => { sink with items := sink.items.push shown }
  | none => sink

def emit (sink : Sink) (code : Code) (span : Span) (message : String) : Sink :=
  sink.push (.located code span message)

def append (sink other : Sink) : Sink :=
  { sink with items := sink.items ++ other.items }

def ofReports (config : Config) (reports : Array Report) : Sink :=
  { config, items := reports.filterMap config.admit? }

def errorCount (sink : Sink) : Nat :=
  sink.items.countP Diagnostic.isError

def warningCount (sink : Sink) : Nat :=
  sink.items.countP fun diagnostic => diagnostic.severity == .warning

def hasErrors (sink : Sink) : Bool :=
  sink.items.any Diagnostic.isError

def contains (sink : Sink) (code : Code) : Bool :=
  sink.items.any fun diagnostic => diagnostic.code == code

end Sink

end DreamMaker
