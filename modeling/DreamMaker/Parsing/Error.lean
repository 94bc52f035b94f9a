import DreamMaker.Diagnostic.Report

namespace DreamMaker

inductive ParseError.Kind
  | unexpectedToken
  | expectedToken
  | expectedExpression
  | expectedIdentifier
  | invalidPath
  | invalidSyntax
  | invalidArgumentCount
  | unexpectedEof
deriving DecidableEq, Repr, Inhabited

def ParseError.Kind.code : ParseError.Kind → Code
  | .expectedExpression => .missingExpression
  | .invalidArgumentCount => .invalidArgumentCount
  | .invalidPath => .badExpression
  | _ => .badToken

/-- An error that gives up the statement being read. -/
structure ParseError where
  kind : ParseError.Kind
  message : String
  span : Span
  expected : List String := []
  found? : Option String := none
deriving DecidableEq, Repr, Inhabited

namespace ParseError

def render (error : ParseError) : String :=
  let text := s!"{error.message} at {error.span.render}"
  let expected := ", ".intercalate error.expected
  let text := if error.expected.isEmpty then text else s!"{text} (expected: {expected})"
  match error.found? with
  | some found => s!"{text} (found: {found})"
  | none => text

def toDiagnostic (error : ParseError) : Diagnostic :=
  let expected := ", ".intercalate error.expected
  let expected := if error.expected.isEmpty then [] else [s!"expected: {expected}"]
  let found := match error.found? with
    | some found => [s!"found: {found}"]
    | none => []
  { Diagnostic.located error.kind.code error.span error.message with notes := expected ++ found }

def toReport (error : ParseError) : Report :=
  .located error.kind.code error.span error.message

end ParseError

end DreamMaker
