import DreamMaker.Code.Jump

namespace DreamMaker.Assembly

/-- The labels of a loop: where it starts, where it goes on, and where it ends. -/
structure LoopLabels where
  start : Label
  next : Label
  stop : Label

def newLoop : Assemble LoopLabels := do
  let start ← newLabel
  let next ← newLabel
  let stop ← newLabel
  return { start, next, stop }

/-- Opens a loop. It is the first loop of the labels around that had none so far. -/
def openLoop (next stop : Label) : Assemble Unit :=
  modify fun s =>
    { s with
      loops := { next, stop } :: s.loops
      labels := s.labels.map fun label =>
        if s.active.contains label.name && label.next?.isNone then
          { label with next? := some (next, s.loops.length) }
        else label }

/-- Closes the innermost loop and says whether something jumped out of it. -/
def closeLoop : Assemble Bool :=
  modifyGet fun s => match s.loops with
    | [] => (false, s)
    | loop :: loops => (loop.escaped, { s with loops })

def loopBody (labels : LoopLabels) (body : Part) : Assemble (Termination × Bool) := do
  openLoop labels.next labels.stop
  let termination ← body.code
  let escaped ← closeLoop
  return (termination, escaped)

def sleepCall (span : Span) : Term :=
  .plain (.call (.global "sleep") [.mk none (.number (-1) span)]) span

def jumpBack (start : Label) (span : Span) : Assemble Unit := do
  if (← get).attributes.isBackground then
    emit (.push (sleepCall span)) span
    emit .pop span
  emit (.jump start) span

def endless (body : Part) (span : Span) : Assemble Termination :=
  inScope span do
    let labels ← newLoop
    emit (.loopStart labels.start) span
    emit (.loopContinue labels.next) span
    let (termination, escaped) ← loopBody labels body
    jumpBack labels.start span
    emit (.loopEnd labels.stop) span
    return termination.leaveLoop !escaped

def whileLoop (condition : Expr) (body : Part) (span : Span) : Attempt Termination := do
  let condition ← resolve condition none
  match condition.truth? with
  | some true => endless body span
  | some false =>
    discard body.span "the loop condition is always false"
    return .none
  | none =>
    let labels ← newLoop
    emit (.loopStart labels.start) span
    emit (.loopContinue labels.next) span
    emit (.push condition) condition.span
    emit (.jumpIfFalse labels.stop) condition.span
    let (termination, _) ← loopBody labels body
    jumpBack labels.start span
    emit (.loopEnd labels.stop) span
    return termination.leaveLoop false

/-- A loop whose condition stands behind its body. It is closed even if the
condition fails. -/
def doWhileLoop (body : Part) (condition : Expr) (span : Span) : Attempt Termination := do
  let labels ← newLoop
  emit (.loopStart labels.start) span
  let (termination, escaped) ← loopBody labels body
  emit (.loopContinue labels.next) span
  let condition ←
    try resolve condition none
    catch error =>
      emit (.loopEnd labels.stop) span
      throw error
  emit (.push condition) condition.span
  emit (.jumpIfFalse labels.stop) condition.span
  jumpBack labels.start span
  emit (.loopEnd labels.stop) span
  return termination.leaveLoop !escaped

/-- The var that a loop sets: a new one, or what can be written to anyway. -/
def loopVar (binder : Expr) : Attempt Term :=
  match binder.node with
  | .declare name type? => bindLocal name type? binder.span .invalidLoopVar
  | _ => do
    let target ← resolve binder none
    if target.isPlace then return target else fail .loopVarNotPlace binder.span

def loopInit (start : Expr) : Attempt Unit := do
  match start.node with
  | .declare _ _ =>
    let var ← loopVar start
    emit (.push (.null start.span)) start.span
    emit (.assign var) start.span
  | .assign .assign (.mk (.declare name type?) place) value =>
    let value ← resolve value type?
    let var ← loopVar (.mk (.declare name type?) place)
    emit (.push value) start.span
    emit (.assign var) start.span
  | _ => push start
  emit .pop start.span

/-- The rounds of a loop with a condition before and a step behind each. Without
a condition they go on for ever. -/
def rounds (condition? next? : Option Term) (body : Part) (span : Span) : Assemble Termination := do
  let labels ← newLoop
  emit (.loopStart labels.start) span
  if let some condition := condition? then
    emit (.push condition) condition.span
    emit (.jumpIfFalse labels.stop) condition.span
  let (termination, escaped) ← loopBody labels body
  emit (.loopContinue labels.next) span
  if let some next := next? then
    emit (.push next) next.span
    emit .pop next.span
  jumpBack labels.start span
  emit (.loopEnd labels.stop) span
  return termination.leaveLoop (condition?.isNone && !escaped)

def forLoop (start? condition? next? : Option Expr) (body : Part) (span : Span) : Attempt Termination :=
  tryInScope span do
    if let some start := start? then loopInit start
    let condition? ← resolveOption condition? none
    match condition?.bind Term.truth? with
    | some false =>
      discard body.span "the loop condition is always false"
      return .none
    | some true => rounds none (← resolveOption next? none) body span
    | none => rounds condition? (← resolveOption next? none) body span

def enumerate (target : Term) (body : Part) (span : Span) : Assemble Termination := do
  let labels ← newLoop
  emit (.loopStart labels.start) span
  emit (.loopContinue labels.next) span
  emit (.enumerate target labels.stop) span
  let (termination, _) ← loopBody labels body
  jumpBack labels.start span
  emit (.loopEnd labels.stop) span
  return termination.leaveLoop false

/-- Runs through an enumerator that has been created, and destroys it in any case. -/
def enumeratorLoop (binder : Expr) (body : Part) (span : Span) : Attempt Termination :=
  ExceptT.mk do
    let result ← (tryInScope span do enumerate (← loopVar binder) body span).run
    emit .destroyEnumerator span
    return result

def clauseFilter? (types : ValueTypes) (span : Span) : Assemble (Option TypePath) := do
  let names := ["obj", "mob", "turf", "area"]
  match names.find? fun name => types = .ofWords [name] with
  | some name => return some (.absolute [name])
  | none =>
    unless types.isAnything do
      report (.located .unimplementedAccess span
        "This \"as\" filter is not supported in for loops, no type check will be performed")
    return none

/-- The type that a loop over a list looks for. An `as` clause comes before the type
of the var. -/
def listFilter? (binder : Expr) : Option ValueTypes → Assemble (Option TypePath)
  | some types => clauseFilter? types binder.span
  | none => return match binder.node with
    | .declare _ type? => type?
    | _ => none

def forInLoop (binder : Expr) (types? : Option ValueTypes) (list : Expr) (body : Part) (span : Span) :
    Attempt Termination := do
  push list
  let enumerator ← match ← listFilter? binder types? with
    | none => pure Enumerator.list
    | some type =>
      if (← get).tree.hasType type then pure (.filteredList type)
      else do
        let message := s!"Cannot filter enumeration by type {type.render}, it does not exist"
        report ((Report.located .itemDoesntExist binder.span message).as .warning)
        pure .list
  emit (.createEnumerator enumerator) span
  enumeratorLoop binder body span

def forRangeLoop (binder start stop : Expr) (step? : Option Expr) (body : Part) (span : Span) :
    Attempt Termination := do
  push start
  push stop
  match step? with
  | some step => push step
  | none => emit (.push (.number 1 span)) span
  emit (.createEnumerator .range) span
  enumeratorLoop binder body span

def forTypeLoop (binder : Expr) (body : Part) (span : Span) : Attempt Termination := do
  match binder.node with
  | .declare _ (some type) =>
    unless (← get).tree.hasType type do fail (.noType type) binder.span
    emit (.createEnumerator (.objects type)) span
    enumeratorLoop binder body span
  | _ => fail .untypedEnumeration binder.span

end DreamMaker.Assembly
