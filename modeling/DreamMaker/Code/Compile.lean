import DreamMaker.Code.Loop
import DreamMaker.Code.Switch
import DreamMaker.Resolution.Global
import DreamMaker.TypeTree.Declare

namespace DreamMaker

structure Setting where
  name : String
  value : Expr
  wasIn : Bool
  span : Span

namespace Statement

mutual

def isSet : Statement → Bool
  | .mk (.set _ _ _) _ => true
  | .mk (.group inner) _ => !inner.isEmpty && areSets inner
  | _ => false

def areSets : List Statement → Bool
  | [] => true
  | statement :: rest => statement.isSet && areSets rest

end

mutual

/-- The attributes that a statement sets outside of its blocks. -/
def settings : Statement → List Setting
  | .mk (.set name value wasIn) span => [{ name, value, wasIn, span }]
  | .mk (.group inner) _ => allSettings inner
  | _ => []

def allSettings : List Statement → List Setting
  | [] => []
  | statement :: rest => statement.settings ++ allSettings rest

end

end Statement

namespace Assembly

/-! Attributes. -/

def reportSetting (setting : Setting) (topic : Topic) : Assemble Unit :=
  (Attributes.reports setting.name setting.span).forM fun found => report (found.about topic)

def applySetting (setting : Setting) (value : Term) (topic : Topic) : Assemble Unit := do
  match (← get).settings.apply setting.name value setting.span with
  | .error error => report (error.toReport.about topic)
  | .ok settings =>
    reportSetting setting topic
    modify fun s => { s with settings }

/-- Refuses a value that is not constant. Where this is no error, the value
accepted before is taken once more, and if there is none, that is an error. -/
def refuseSetting (setting : Setting) : Assemble Unit := do
  report (.located .invalidSetStatement setting.value.span
    s!"'{setting.name}' attribute should be a constant")
  let s ← get
  match s.settings.values setting.name with
  | some value =>
    if s.config.covers .lenientSet then applySetting setting value .lenientSet
    else reportSetting setting .lenientSet
  | none =>
    let message := s!"'{setting.name}' attribute must be a constant"
    report (((Report.located .invalidSetStatement setting.value.span message).as .error).about .lenientSet)

def runSetting (setting : Setting) : Assemble Unit := do
  if setting.name = "src" then
    report (.located .unimplementedAccess setting.span "'set src' is unimplemented")
  else
    if setting.wasIn then
      let message := "Use of 'in' keyword is illegal here. Did you mean '='?"
      report ((Report.located .invalidSetStatement setting.span message).as .warning)
    match ← (resolve setting.value none).run with
    | .error error => report error.toReport
    | .ok value => if value.isConstant then applySetting setting value .always else refuseSetting setting

/-! Simple statements. -/

/-- Declares a var of a proc. One that is static is a global var. -/
def declareVar (var : LocalVar) : Attempt Unit := do
  if var.modifiers.isStatic then
    modify fun s =>
      let (id, tree) := s.tree.registerGlobal s.frame.path var.name var.type? var.value?
      { s with tree, frame := s.frame.addGlobal var.name id }
  else
    let value? ← resolveOption var.value? var.type?
    if var.modifiers.isConst then
      unless (value?.map Term.isConstant).getD false do fail .constVarNotConstant var.span
      if (← declare? var.name var.type? value?).isNone then duplicateVar var.name var.span
    else
      match ← declare? var.name var.type? none with
      | none => duplicateVar var.name var.span
      | some declared =>
        emit (.push (value?.getD (.null var.span))) var.span
        emit (.assign (.localVar var.name declared.id var.type? var.span)) var.span
        emit .pop var.span

def operate (operands : List Expr) (op : Op) (span : Span) : Attempt Termination := do
  operands.forM push
  emit op span
  return .none

def readInto (source target : Expr) (span : Span) : Attempt Termination := do
  let from_ ← resolve source none
  let into ← resolve target none
  unless from_.isPlace do fail .sourceNotPlace source.span
  unless into.isPlace do fail .targetNotPlace target.span
  emit (.input from_ into) span
  return .none

def returnValue (value? : Option Expr) (span : Span) : Attempt Termination := do
  match value? with
  | some value => push value
  | none => emit (.push (.plain (.ambient .result) span)) span
  emit .return_ span
  return .procReturn

/-! Blocks. -/

/-- Parts one after another. What cannot be reached is reported and left out. -/
def sequence (known : Termination) : List Part → Assemble Termination
  | [] => return known
  | part :: rest => do
    if known.isUnconditional then
      report ((Report.located .unreachableCode part.span "Unreachable code detected").about .unreachable)
      return known
    else sequence (known.union (← part.code)) rest

def together (known : Termination) : List Part → Assemble Termination
  | [] => return known
  | part :: rest => do together (known.union (← part.code)) rest

def checkBlock (statements : List Statement) (span : Span) : Assemble Unit := do
  if statements.isEmpty then report (.located .emptyBlock span "Empty block detected")
  else if Statement.areSets statements then
    report (.located .emptyBlock span
      "Empty block detected - set statements are executed outside of, before, and unconditional to, this block")

mutual

/-- Compiles a statement. If it fails, the next one is compiled all the same. -/
def statement : Statement → Assemble Termination
  | .mk action span => settle (compileAction span action)

def compileAction (span : Span) : Action → Attempt Termination
  | .expression value => operate [value] .pop span
  | .declare var => do
    declareVar var
    return .none
  | .group inner => together .none (parts inner)
  | .set _ _ _ => return .none
  | .return_ value? => returnValue value? span
  | .break_ label? => breakOut label? span
  | .continue_ label? => continueOn label? span
  | .goto label => goto label span
  | .label name none => placeLabel name none span
  | .label name (some body) => placeLabel name (some (block body)) span
  | .del value => operate [value] .delete span
  | .throw value => operate [value] .throw span
  | .if_ condition body none => ifElse condition (block body) none
  | .if_ condition body (some other) => ifElse condition (block body) (some (block other))
  | .for_ start? condition? next? body => forLoop start? condition? next? (block body) span
  | .forIn binder types? list body => forInLoop binder types? list (block body) span
  | .forRange binder start stop step? body => forRangeLoop binder start stop step? (block body) span
  | .forType binder body => forTypeLoop binder (block body) span
  | .forever body => endless (block body) span
  | .while_ condition body => whileLoop condition (block body) span
  | .doWhile body condition => doWhileLoop (block body) condition span
  | .switch value cases => switch value (branches cases) span
  | .spawn delay? body => spawn delay? (block body) span
  | .tryCatch body binder? none => protect (block body) binder? none span
  | .tryCatch body binder? (some handler) => protect (block body) binder? (some (block handler)) span
  | .output receiver message => operate [receiver, message] .output span
  | .input source target => readInto source target span
  | .transfer kind receiver first second => operate [receiver, first, second] (.transfer kind) span
  | .link receiver url => operate [receiver, url] .link span

/-- A block in a scope of its own. The attributes that it sets are set before
anything else is done. -/
def block : Block → Part
  | .mk statements span =>
    { span
      code := inScope span do
        (Statement.allSettings statements).forM runSetting
        checkBlock statements span
        sequence .none (parts statements) }

def parts : List Statement → List Part
  | [] => []
  | .mk action span :: rest =>
    if Statement.isSet (.mk action span) then parts rest
    else { span, code := statement (.mk action span) } :: parts rest

def branches : List Case → List Branch
  | [] => []
  | .mk values? body span :: rest => { values?, body := block body, span } :: branches rest

end

/-! Procs. -/

def missingLabels (assembly : Assembly) : List NamedLabel :=
  (assembly.labels.filter fun label => !label.placed).mergeSort fun a b => a.name ≤ b.name

def procBody (statements : List Statement) : Assemble Termination := do
  (Statement.allSettings statements).forM runSetting
  let termination ← sequence .none (parts statements)
  (← get).missingLabels.forM fun label =>
    report (.located .itemDoesntExist label.firstUse s!"Unknown label {label.name}")
  return termination

def parameterDefault (parameter : Parameter) (var : Local) (value : Expr) : Attempt Unit := do
  let value' ← resolve value parameter.type?
  let skip ← newLabel
  let place := Term.localVar parameter.name var.id parameter.type? parameter.span
  emit (.push place) value.span
  emit .isNull value.span
  emit (.jumpIfFalse skip) value.span
  emit (.push value') value.span
  emit (.assign place) value.span
  emit .pop value.span
  emit (.mark skip) value.span

def declareParameter (parameter : Parameter) : Assemble Unit := do
  match ← declare? parameter.name parameter.type? none with
  | none => report (.located .duplicateVariable parameter.span s!"Duplicate parameter {parameter.name}")
  | some var =>
    if let some value := parameter.default? then
      let _ ← settle do
        parameterDefault parameter var value
        return .none

def proc (definition : ProcDefinition) : Assemble Termination := do
  if definition.isVerb then
    modify fun s => { s with tree := s.tree.addVerb definition.owner definition.path }
  definition.parameters.forM declareParameter
  match (definition.body?.map Block.statements).getD [] with
  | [] =>
    report ((Report.located .emptyProc definition.span
      "Empty proc detected - add an explicit \"return\" statement").about .emptyProc)
    return .none
  | statements => procBody statements

end Assembly

structure CompiledProc where
  path : TypePath
  attributes : Attributes
  termination : Termination
  locals : List Local
  labelCount : Nat
  ops : Array (Op × Span)

def CompiledProc.localCount (proc : CompiledProc) : Nat := proc.locals.length

/-- The state in which the compilation of a proc starts. -/
def ProcDefinition.start (definition : ProcDefinition) (tree : TypeTree) (log : Log) : Assembly :=
  { tree, frame := { owner := definition.owner.toAbsolute, name := definition.name }, reports := log.reports,
    config := log.config }

/-- What is kept of the state in which the compilation of a proc ends. -/
def ProcDefinition.finish (definition : ProcDefinition) (termination : Termination) (s : Assembly) :
    CompiledProc × TypeTree × Array Report :=
  ({ path := definition.path, attributes := s.attributes, termination, locals := s.frame.locals
     labelCount := s.labelCount, ops := s.ops }, s.tree, s.reports)

def ProcDefinition.compile (definition : ProcDefinition) (tree : TypeTree) (log : Log := {}) :
    CompiledProc × TypeTree × Array Report :=
  let (termination, s) := (Assembly.proc definition).run (definition.start tree log)
  definition.finish termination s

/-- Compiles procs in order, each with the tree and the reports that the one
before it leaves. -/
def ProcDefinition.compileAll (tree : TypeTree) (log : Log) :
    List ProcDefinition → List CompiledProc × TypeTree × Array Report
  | [] => ([], tree, log.reports)
  | definition :: rest =>
    let (compiled, tree, reports) := definition.compile tree log
    let (others, tree, reports) := compileAll tree { log with reports } rest
    (compiled :: others, tree, reports)

structure Compiled where
  procs : List CompiledProc
  initializers : Array (Nat × Term)
  tree : TypeTree
  reports : Array Report

def SourceFile.compile (file : SourceFile) (log : Log := {}) : Compiled :=
  let tree := TypeTree.ofFile file
  let (initializers, reports) := tree.resolveGlobals log.reports
  let (procs, tree, reports) := ProcDefinition.compileAll tree { log with reports } file.procs
  { procs, initializers, tree, reports }

end DreamMaker
