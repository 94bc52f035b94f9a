import DreamMaker.Proofs.Emission.Shape
import DreamMaker.Proofs.Syntax.Actions

/-!
Traversals of the statements of a proc, which are compiled as they are or under a monitor, which sees every
statement that is compiled and may step in.
-/

namespace DreamMaker

/-- Whether a statement has no statements in it. -/
def Action.isLeaf : Action → Bool
  | .expression _ | .declare _ | .set _ _ _ | .return_ _ | .break_ _ | .continue_ _ | .goto _ | .label _ none | .del _
  | .throw _ | .output _ _ | .input _ _ | .transfer _ _ _ _ | .link _ _ => true
  | _ => false

namespace Assembly

/-- What compiling a statement gives: how it ends or why it fails, and the state behind it. -/
abbrev Outcome := Except SemanticError Termination × Assembly

/-- Looks at a statement, its place, the state before it and the outcome, and decides on the outcome. -/
abbrev Monitor := Action → Span → Assembly → Outcome → Outcome

mutual

/-- Compiles a statement under a monitor. -/
def statementUnder (monitor : Monitor) : Statement → Assemble Termination
  | .mk action span => settle (ExceptT.mk fun s => monitor action span s (actionUnder monitor span action s))

/-- Compiles a statement whose inner statements are under a monitor. -/
def actionUnder (monitor : Monitor) (span : Span) : Action → Attempt Termination
  | .group inner => together .none (partsUnder monitor inner)
  | .label name (some body) => placeLabel name (some (blockUnder monitor body)) span
  | .if_ condition body none => ifElse condition (blockUnder monitor body) none
  | .if_ condition body (some other) => ifElse condition (blockUnder monitor body) (some (blockUnder monitor other))
  | .for_ start? condition? next? body => forLoop start? condition? next? (blockUnder monitor body) span
  | .forIn binder types? list body => forInLoop binder types? list (blockUnder monitor body) span
  | .forRange binder start stop step? body => forRangeLoop binder start stop step? (blockUnder monitor body) span
  | .forType binder body => forTypeLoop binder (blockUnder monitor body) span
  | .forever body => endless (blockUnder monitor body) span
  | .while_ condition body => whileLoop condition (blockUnder monitor body) span
  | .doWhile body condition => doWhileLoop (blockUnder monitor body) condition span
  | .switch value cases => switch value (branchesUnder monitor cases) span
  | .spawn delay? body => spawn delay? (blockUnder monitor body) span
  | .tryCatch body binder? none => protect (blockUnder monitor body) binder? none span
  | .tryCatch body binder? (some handler) =>
    protect (blockUnder monitor body) binder? (some (blockUnder monitor handler)) span
  | action => compileAction span action

def blockUnder (monitor : Monitor) : Block → Part
  | .mk statements span =>
    { span
      code := inScope span do
        (Statement.allSettings statements).forM runSetting
        checkBlock statements span
        sequence .none (partsUnder monitor statements) }

def partsUnder (monitor : Monitor) : List Statement → List Part
  | [] => []
  | .mk action span :: rest =>
    if Statement.isSet (.mk action span) then partsUnder monitor rest
    else { span, code := statementUnder monitor (.mk action span) } :: partsUnder monitor rest

def branchesUnder (monitor : Monitor) : List Case → List Branch
  | [] => []
  | .mk values? body span :: rest => { values?, body := blockUnder monitor body, span } :: branchesUnder monitor rest

end

/-- A statement does with its blocks what a step of some shape does, also under a monitor. -/
structure Holds (span : Span) (action : Action) (blocks : ι → Block)
    (f : (ι → Part) → Attempt Termination) : Prop where
  shape : Shape 0 f
  code : compileAction span action = f fun i => block (blocks i)
  under : ∀ monitor, actionUnder monitor span action = f fun i => blockUnder monitor (blocks i)
  inner : ∀ {part}, part ∈ action.inner ↔ ∃ i, part ∈ (blocks i).actions

/-- What it takes to prove something of all statements, blocks, lists of statements and lists of cases. -/
structure Traversal (A : Span → Action → Prop) (B : Block → Prop) (P : List Statement → Prop)
    (C : List Case → Prop) :
    Prop where
  leaf : ∀ span action, action.isLeaf = true → A span action
  group : ∀ span inner, P inner → A span (.group inner)
  label : ∀ span name body, B body → A span (.label name (some body))
  switch : ∀ span value cases, C cases → A span (.switch value cases)
  held : ∀ {ι : Type} {span action f} {blocks : ι → Block}, Holds span action blocks f →
    (∀ i, B (blocks i)) →
    A span action
  body : ∀ statements span, P statements → B (.mk statements span)
  done : P []
  next : ∀ action span rest, A span action → P rest → P (.mk action span :: rest)
  decided : C []
  branch : ∀ values? body span rest, B body → C rest → C (.mk values? body span :: rest)

theorem Holds.one {f : (Unit → Part) → Attempt Termination} (shape : Shape 0 f)
    (code : compileAction span action = f fun _ => block body)
    (under : ∀ monitor, actionUnder monitor span action = f fun _ => blockUnder monitor body)
    (inner : action.inner = body.actions) : Holds span action (fun _ => body) f :=
  ⟨shape, code, under, by simp [inner]⟩

theorem Holds.two {f : (Bool → Part) → Attempt Termination} (shape : Shape 0 f)
    (code : compileAction span action = f fun i => block (bif i then body else other))
    (under : ∀ monitor, actionUnder monitor span action = f fun i => blockUnder monitor (bif i then body else other))
    (inner : action.inner = body.actions ++ other.actions) :
    Holds span action (fun i => bif i then body else other) f :=
  ⟨shape, code, under, by simp [inner, or_comm]⟩

namespace Traversal

variable {A : Span → Action → Prop} {B : Block → Prop} {P : List Statement → Prop} {C : List Case → Prop}

mutual

theorem of_action (each : Traversal A B P C) : (action : Action) → A span action
  | .expression _ | .declare _ | .set _ _ _ | .return_ _ | .break_ _ | .continue_ _ | .goto _ | .label _ none | .del _
  | .throw _ | .output _ _ | .input _ _ | .transfer _ _ _ _ | .link _ _ => each.leaf span _ rfl
  | .group inner => each.group span inner (each.of_statements inner)
  | .label name (some body) => each.label span name body (each.of_block body)
  | .switch value cases => each.switch span value cases (each.of_cases cases)
  | .if_ condition body none =>
    each.held (.one (ifElse_shape condition sole_or) rfl (fun _ => rfl) rfl) fun _ => each.of_block body
  | .if_ condition body (some other) =>
    each.held (.two (ifElse_shape condition either) rfl (fun _ => rfl) rfl)
      (Bool.forall_bool.2 ⟨each.of_block other, each.of_block body⟩)
  | .for_ start? condition? next? body =>
    each.held (.one (forLoop_shape sole start? condition? next? span) rfl (fun _ => rfl) rfl) fun _ =>
      each.of_block body
  | .forIn binder types? list body =>
    each.held (.one (forInLoop_shape sole binder types? list span) rfl (fun _ => rfl) rfl) fun _ => each.of_block body
  | .forRange binder start stop step? body =>
    each.held (.one (forRangeLoop_shape sole binder start stop step? span) rfl (fun _ => rfl) rfl) fun _ =>
      each.of_block body
  | .forType binder body =>
    each.held (.one (forTypeLoop_shape sole binder span) rfl (fun _ => rfl) rfl) fun _ => each.of_block body
  | .forever body => each.held (.one (endless_shape sole span) rfl (fun _ => rfl) rfl) fun _ => each.of_block body
  | .while_ condition body =>
    each.held (.one (whileLoop_shape sole condition span) rfl (fun _ => rfl) rfl) fun _ => each.of_block body
  | .doWhile body _ => each.held (.one (.doWhile sole) rfl (fun _ => rfl) rfl) fun _ => each.of_block body
  | .spawn delay? body =>
    each.held (.one (spawn_shape sole delay? span) rfl (fun _ => rfl) rfl) fun _ => each.of_block body
  | .tryCatch body binder? none =>
    each.held (.one (protect_shape binder? sole_or span) rfl (fun _ => rfl) rfl) fun _ => each.of_block body
  | .tryCatch body binder? (some handler) =>
    each.held (.two (protect_shape binder? either span) rfl (fun _ => rfl) rfl)
      (Bool.forall_bool.2 ⟨each.of_block handler, each.of_block body⟩)

theorem of_block (each : Traversal A B P C) : (block : Block) → B block
  | .mk statements span => each.body statements span (each.of_statements statements)

theorem of_statements (each : Traversal A B P C) : (statements : List Statement) → P statements
  | [] => each.done
  | .mk action span :: rest => each.next action span rest (each.of_action action) (each.of_statements rest)

theorem of_cases (each : Traversal A B P C) : (cases : List Case) → C cases
  | [] => each.decided
  | .mk values? body span :: rest => each.branch values? body span rest (each.of_block body) (each.of_cases rest)

end

end Traversal

end Assembly

end DreamMaker
