import DreamMaker.Diagnostic.Code
import DreamMaker.Source.Span

namespace DreamMaker

structure Diagnostic where
  severity : Severity
  code : Code
  message : String
  span? : Option Span := none
  notes : List String := []
  suggestion? : Option String := none
deriving DecidableEq, Repr, Inhabited

namespace Diagnostic

def ofCode (code : Code) (message : String) : Diagnostic :=
  { severity := code.severity, code, message }

def located (code : Code) (span : Span) (message : String) : Diagnostic :=
  { ofCode code message with span? := some span }

def error (message : String) : Diagnostic :=
  ofCode .unknown message

def warning (message : String) : Diagnostic :=
  { ofCode .unknown message with severity := .warning }

def isError (diagnostic : Diagnostic) : Bool :=
  diagnostic.severity == .error

def render (diagnostic : Diagnostic) : String :=
  let text := s!"{diagnostic.severity.render} {diagnostic.code.render}: {diagnostic.message}"
  match diagnostic.span? with
  | some span => s!"{text} at {span.render}"
  | none => text

end Diagnostic

/-- What a report belongs to. A configuration may switch off all topics but
the first. -/
inductive Topic where
  | always
  | unreachable
  | constantCondition
  | emptyProc
  /-- Said only where a `set` statement with a wrong value is not an error. -/
  | lenientSet
deriving DecidableEq, Repr, Inhabited

structure Report where
  diagnostic : Diagnostic
  topic : Topic := .always
deriving DecidableEq, Repr, Inhabited

namespace Report

def located (code : Code) (span : Span) (message : String) : Report :=
  { diagnostic := .located code span message }

def about (report : Report) (topic : Topic) : Report :=
  { report with topic }

def as (report : Report) (severity : Severity) : Report :=
  { report with diagnostic := { report.diagnostic with severity } }

end Report

end DreamMaker
