import DreamMaker.Code.Assembly

namespace DreamMaker.Assembly

/-- Notes that something jumps out of so many loops, from the innermost on. -/
def escape (count : Nat) : Assemble Unit :=
  modify fun s => { s with loops := (s.loops.take count).map ({ · with escaped := true }) ++ s.loops.drop count }

def label? (assembly : Assembly) (name : String) : Option NamedLabel :=
  assembly.labels.find? (·.name == name)

def changeLabel (name : String) (change : NamedLabel → NamedLabel) : Assemble Unit :=
  modify fun s => { s with labels := s.labels.map fun label => if label.name == name then change label else label }

def activeLabel (name : String) (span : Span) : Attempt NamedLabel := do
  let s ← get
  match s.label? name with
  | some label =>
    if label.placed && s.active.contains name then return label else fail (.unknownLabel name) span
  | none => fail (.unknownLabel name) span

/-- Where `break` goes: out of the innermost loop, or out of the block of a label. -/
def breakTarget (span : Span) : Option String → Attempt Label
  | none => do
    match (← get).loops with
    | [] => fail .breakOutsideLoop span
    | loop :: _ =>
      escape 1
      return loop.stop
  | some name => do
    let label ← activeLabel name span
    match label.stop? with
    | none => fail (.labelWithoutBlock name) span
    | some stop =>
      changeLabel name fun label => { label with broken := true }
      escape ((← get).loops.length - label.depth)
      return stop

def breakOut (label? : Option String) (span : Span) : Attempt Termination := do
  emit (.jump (← breakTarget span label?)) span
  return .loopExit

/-- Where `continue` goes: to the next round of the innermost loop, or of the first
loop in the block of a label. There is none if the block has no loop around here. -/
def continueTarget? (span : Span) : Option String → Attempt (Option Label)
  | none => do
    match (← get).loops with
    | [] => fail .continueOutsideLoop span
    | loop :: _ => return some loop.next
  | some name => do
    let label ← activeLabel name span
    let count := (← get).loops.length
    match label.next? with
    | some (next, depth) =>
      if depth < count then
        escape (count - (depth + 1))
        return some next
      else return none
    | none => return none

def continueOn (label? : Option String) (span : Span) : Attempt Termination := do
  match ← continueTarget? span label? with
  | some next =>
    emit (.jump next) span
    return .loopExit
  | none =>
    let name := label?.getD ""
    report (.located .badLabel span s!"Label {name} does not label a loop")
    return .none

def labelStart (name : String) (span : Span) : Assemble Label := do
  match (← get).label? name with
  | some label => return label.start
  | none =>
    let start ← newLabel
    modify fun s => { s with labels := { name, start, placed := false, firstUse := span } :: s.labels }
    return start

def goto (name : String) (span : Span) : Assemble Termination := do
  let start ← labelStart name span
  escape (← get).loops.length
  emit (.jump start) span
  return .none

/-- Compiles the block of a label. What it returns is certain only if nothing
jumps out of it. -/
def labelBlock (name : String) (body : Part) : Assemble Termination := do
  let stop ← newLabel
  changeLabel name fun label => { label with stop? := some stop }
  modify fun s => { s with active := name :: s.active }
  let termination ← body.code
  modify fun s => { s with active := s.active.tail }
  emit (.mark stop) body.span
  match (← get).label? name with
  | some label => return if label.broken then termination.leaveLoop false else termination
  | none => return termination

/-- Places a label, unless one of that name has been placed. -/
def placeLabel (name : String) (body? : Option Part) (span : Span) : Assemble Termination := do
  let s ← get
  if (s.label? name).any NamedLabel.placed then
    report (.located .duplicateVariable span s!"A label with the name \"{name}\" already exists")
    return .none
  let start ← labelStart name span
  changeLabel name fun label => { label with placed := true, depth := s.loops.length }
  emit (.mark start) span
  match body? with
  | none => return .none
  | some body => labelBlock name body

/-- Compiles a part that is run later. It cannot break out of what is around it. -/
def spawn (delay? : Option Expr) (body : Part) (span : Span) : Attempt Termination := do
  match delay? with
  | some delay => push delay
  | none => emit (.push (.null span)) span
  let after ← newLabel
  emit (.spawn after) span
  let outer ← get
  modify fun s => { s with loops := [], active := [] }
  let _ ← body.code
  modify fun s => { s with loops := outer.loops, active := outer.active }
  emit (.push (.null span)) span
  emit .return_ span
  emit (.mark after) span
  return .none

def protect (body : Part) (binder? : Option LocalVar) (handler? : Option Part) (span : Span) :
    Attempt Termination := do
  let binder? ← match binder? with
    | none => pure none
    | some var => some <$> bindLocal var.name var.type? var.span .invalidCatchVar
  let handler ← newLabel
  let stop ← newLabel
  emit (.tryStart handler binder?) span
  let tried ← body.code
  emit .tryEnd span
  emit (.jump stop) span
  emit (.mark handler) span
  let handled ← match handler? with
    | some part => part.code
    | none => pure .none
  emit (.mark stop) span
  return tried.branch handled

/-- Compiles one of two parts, or both if the condition is not constant. -/
def ifElse (condition : Expr) (body : Part) (else? : Option Part) : Attempt Termination := do
  let condition ← resolve condition none
  match condition.truth? with
  | some true =>
    if let some part := else? then discard part.span "the condition is always true"
    body.code
  | some false =>
    discard body.span "the condition is always false"
    match else? with
    | some part => part.code
    | none => return .none
  | none =>
    let span := condition.span
    let stop ← newLabel
    let other ← if else?.isSome then newLabel else pure stop
    emit (.push condition) span
    emit (.jumpIfFalse other) span
    let first ← body.code
    let second ← match else? with
      | some part => do
        emit (.jump stop) body.span
        emit (.mark other) part.span
        part.code
      | none => pure .none
    emit (.mark stop) span
    return first.branch second

end DreamMaker.Assembly
