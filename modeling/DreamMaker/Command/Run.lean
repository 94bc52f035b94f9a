import DreamMaker.Code.Compile
import DreamMaker.Command.Options
import DreamMaker.Source.Lines

namespace DreamMaker

structure Outcome where
  code : Nat := 0
  stdout : String := ""
  stderr : String := ""
deriving DecidableEq, Repr, Inhabited

namespace Options

def info (options : Options) (message : String) : List String :=
  if options.verbose && !options.quiet then [s!"[INFO  dmfront] {message}"] else []

def warning (options : Options) (part message : String) : List String :=
  if options.quiet then [] else [s!"[WARN  dmfront::{part}] {message}"]

def configWarnings (options : Options) : List String :=
  (options.suppressed.filter Code.isForced).flatMap fun code =>
    options.warning "utils::config" s!"{code.render} cannot be reconfigured"

def skipWarnings (options : Options) (skips : Array (Span × Span)) : List String :=
  skips.toList.flatMap fun (start, stop) =>
    options.warning "frontend::parser" s!"error recovery skipped from {start.render} to {stop.render}"

end Options

namespace Command

def unlines (lines : List String) : String :=
  String.join (lines.map (· ++ "\n"))

def showDiagnostic (lines : Lines) (diagnostic : Diagnostic) : List String :=
  match diagnostic.span?.filter fun span => !span.isUnknown with
  | none => [diagnostic.render]
  | some span =>
    let severity := diagnostic.severity.render
    let head := s!"{lines.describe span}: {severity} {diagnostic.code.render}: {diagnostic.message}"
    head :: ((lines.line? span.start.line).toList ++ diagnostic.notes.map ("= " ++ ·)).map ("    " ++ ·)

def showSink (options : Options) (lines : Lines) (sink : Sink) : List String :=
  sink.items.toList.flatMap fun diagnostic =>
    if options.quiet && !diagnostic.isError then [] else showDiagnostic lines diagnostic

def listProc (proc : CompiledProc) : List String :=
  s!"{proc.path.render} ({proc.localCount} locals, {proc.termination.render})" ::
    proc.ops.toList.map fun (op, _) => op.render

def showTokens (options : Options) (source : List Lexeme) : Outcome :=
  let line := fun (token : Token) => s!"{token.kind.label} {token.render}"
  { stdout := unlines ((Token.ofLexemes source).map line)
    stderr := unlines (options.info "dmfront v0.1.0") }

def compile (options : Options) (lines : Lines) (source : List Lexeme) : Outcome :=
  let parsed := SourceFile.parse source { config := options.config }
  let compiled := parsed.result.fold.compile { config := options.config, reports := parsed.reports }
  let sink := Sink.ofReports options.config compiled.reports
  let listing := compiled.procs.flatMap fun proc => listProc proc ++ [""]
  let summary := s!"{compiled.procs.length} procs, {sink.errorCount} errors, {sink.warningCount} warnings"
  let failure := s!"Error: compilation failed with {sink.errorCount} errors"
  { code := if sink.hasErrors then 1 else 0
    stdout := if options.emit = .ops then unlines listing ++ "\n" else ""
    stderr := unlines <|
      options.info "dmfront v0.1.0" ++ options.configWarnings ++ options.info "Parsing..." ++
      options.skipWarnings parsed.skips ++ options.info "Compiling procs..." ++
      showSink options lines sink ++ options.info summary ++ if sink.hasErrors then [failure] else [] }

def run (options : Options) (name text : String) : Outcome :=
  let source := Lexeme.scan (.file 0) text
  if options.emit = .tokens then showTokens options source
  else compile options (.ofText name text) source

end Command

end DreamMaker
