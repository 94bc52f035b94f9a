import DreamMaker.Code.Attributes
import DreamMaker.Diagnostic.Config
import DreamMaker.Code.Op
import DreamMaker.Code.Termination
import DreamMaker.Resolution.Expr

namespace DreamMaker

structure OpenLoop where
  next : Label
  stop : Label
  escaped : Bool := false
deriving DecidableEq, Repr, Inhabited

structure NamedLabel where
  name : String
  start : Label
  stop? : Option Label := none
  /-- Where the first loop in the block goes on, and how many loops are around it. -/
  next? : Option (Label × Nat) := none
  depth : Nat := 0
  /-- Whether the label has been placed, or only jumped to so far. -/
  placed : Bool
  broken : Bool := false
  firstUse : Span
deriving DecidableEq, Repr, Inhabited

structure Assembly where
  tree : TypeTree
  frame : Frame
  reports : Array Report := #[]
  ops : Array (Op × Span) := #[]
  labelCount : Nat := 0
  settings : Settings := {}
  loops : List OpenLoop := []
  labels : List NamedLabel := []
  active : List String := []
  config : Config := {}

abbrev Assemble := StateM Assembly

/-- A step of compiling that may give up the statement it belongs to. -/
abbrev Attempt := ExceptT SemanticError Assemble

structure Part where
  span : Span
  code : Assemble Termination

namespace Assembly

def context (assembly : Assembly) : Context :=
  { tree := assembly.tree, owner := assembly.frame.owner, frame? := some assembly.frame }

def attributes (assembly : Assembly) : Attributes := assembly.settings.attributes

def emit (op : Op) (span : Span) : Assemble Unit :=
  modify fun s => { s with ops := s.ops.push (op, span) }

def report (report : Report) : Assemble Unit :=
  modify fun s => { s with reports := s.reports.push report }

def newLabel : Assemble Label :=
  modifyGet fun s => (⟨s.labelCount⟩, { s with labelCount := s.labelCount + 1 })

def fail {α : Type} (cause : SemanticError.Cause) (span : Span) : Attempt α :=
  throw { cause, span }

def resolving {α : Type} (action : Context → Resolve α) : Attempt α :=
  ExceptT.mk <| modifyGet fun s =>
    let (result, reports) := (action s.context).run.run s.reports
    (result, { s with reports })

def resolve (e : Expr) (inferred? : Option TypePath) : Attempt Term :=
  resolving fun context => e.resolve context inferred?

def resolveOption (e? : Option Expr) (inferred? : Option TypePath) : Attempt (Option Term) :=
  match e? with
  | none => return none
  | some e => return some (← resolve e inferred?)

def push (e : Expr) : Attempt Unit := do
  let value ← resolve e none
  emit (.push value) e.span

def settle (attempt : Attempt Termination) : Assemble Termination := do
  match ← attempt.run with
  | .ok termination => return termination
  | .error error =>
    report error.toReport
    return .none

def inScope {α : Type} (span : Span) (inner : Assemble α) : Assemble α := do
  emit .enterScope span
  modify fun s => { s with frame := s.frame.openScope }
  let result ← inner
  modify fun s => { s with frame := s.frame.closeScope }
  emit .exitScope span
  return result

/-- The same for something that may fail. The scope is closed in any case. -/
def tryInScope {α : Type} (span : Span) (inner : Attempt α) : Attempt α :=
  ExceptT.mk (inScope span inner.run)

def discard (span : Span) (reason : String) : Assemble Unit :=
  report ((Report.located .unreachableCode span s!"Unreachable code: {reason}").about .constantCondition)

/-! Locals. -/

def declare? (name : String) (type? : Option TypePath) (constant? : Option Term) : Assemble (Option Local) :=
  modifyGet fun s => match s.frame.declare name type? constant? with
    | some (var, frame) => (some var, { s with frame })
    | none => (none, s)

def duplicateVar (name : String) (span : Span) : Assemble Unit :=
  report (.located .duplicateVariable span s!"Duplicate var {name}")

/-- Declares a local and gives it as a term. If there is one of that name already
in the scope, this is reported and it is taken. -/
def bindLocal (name : String) (type? : Option TypePath) (span : Span) (missing : SemanticError.Cause) :
    Attempt Term := do
  match ← declare? name type? none with
  | some var => return .localVar name var.id type? span
  | none =>
    duplicateVar name span
    match (← get).frame.local? name with
    | some var => return .localVar name var.id var.type? span
    | none => fail missing span

end Assembly

end DreamMaker
