import DreamMaker.Proofs.Emission.Alike

/-!
Procs compiled under a monitor. A monitor that steps in only where something is wrong does nothing if and only if
nothing is wrong there.
-/

namespace DreamMaker

namespace Assembly

variable {last : Marks}

/-- Compiles the statements of a proc under a monitor. -/
def procBodyUnder (monitor : Monitor) (statements : List Statement) : Assemble Termination := do
  (Statement.allSettings statements).forM runSetting
  let termination ← sequence .none (partsUnder monitor statements)
  (← get).missingLabels.forM fun label =>
    report (.located .itemDoesntExist label.firstUse s!"Unknown label {label.name}")
  return termination

def procUnder (monitor : Monitor) (definition : ProcDefinition) : Assemble Termination := do
  if definition.isVerb then
    modify fun s => { s with tree := s.tree.addVerb definition.owner definition.path }
  definition.parameters.forM declareParameter
  match (definition.body?.map Block.statements).getD [] with
  | [] =>
    report ((Report.located .emptyProc definition.span
      "Empty proc detected - add an explicit \"return\" statement").about .emptyProc)
    return .none
  | statements => procBodyUnder monitor statements

/-! Whole procs. -/

/-- A monitor that does not step in anywhere in a proc. -/
def Monitor.Accepts (monitor : Monitor) (last : Marks) : Prop :=
  ∀ action span s, Stands Mode.any last .statements s.marks s.ops.toList (compileAction span action s).2.marks →
    monitor action span s (compileAction span action s) = compileAction span action s

theorem block_compiles : Compiles Mode.any .statements (block body).code :=
  (statements_compile.of_block body fun _ _ => Mode.any_admits).compiles

theorem parts_compile {inner : List Statement} : ∀ part ∈ parts inner, Compiles Mode.any .statements part.code :=
  statements_compile.of_statements inner fun _ _ => Mode.any_admits

theorem branches_compile : ∀ branch ∈ branches cases, Compiles Mode.any .statements branch.body.code :=
  statements_compile.of_cases cases fun _ _ => Mode.any_admits

theorem statementsUnder_alike (accepts : monitor.Accepts last) : Traversal
    (fun span action => Alike last .statements (compileAction span action) (actionUnder monitor span action))
    (fun body => AlikeParts last (block body) (blockUnder monitor body))
    (fun inner => List.Forall₂ (AlikeParts last) (parts inner) (partsUnder monitor inner))
    (fun cases => List.Forall₂ (AlikeBranches last) (branches cases) (branchesUnder monitor cases)) where
  leaf span action leaf := by
    cases action with
    | label _ body? =>
      cases body? with
      | none => exact .refl _
      | some => cases leaf
    | group | if_ | for_ | forIn | forRange | forType | forever | while_ | doWhile | switch | spawn | tryCatch =>
      cases leaf
    | _ => exact .refl _
  group span inner alike := by
    rw [compileAction, actionUnder, together_eq, together_eq]
    exact .lift (chain_alike alike parts_compile false .none)
  label span name body alike := .lift (placeLabel_alike alike)
  switch span value cases alike := switch_alike alike (branches_compile)
  held {_ _ _ _ blocks} holds alike := by
    rw [holds.code, holds.under]
    exact holds.shape.alike (fun i => block_compiles) alike
  body statements span alike := by
    have inner := sequence_alike alike parts_compile
    rw [blockUnder]
    refine ⟨rfl, .inScope ?_ span⟩
    refine .then (fun s => (Silent.forM runSetting_silent _ s).passes) fun _ => ?_
    exact .then (fun s => (checkBlock_silent s).passes) fun _ => inner
  done := .nil
  next action span rest alike later := by
    have first : Alike last .statements (statement (.mk action span)) (statementUnder monitor (.mk action span)) := by
      rw [statementUnder]
      refine .settle fun s stands => ?_
      show monitor action span s (actionUnder monitor span action s) = _
      rw [alike s stands]
      exact accepts action span s stands
    rw [parts, partsUnder]
    split
    · exact later
    · exact .cons ⟨rfl, first⟩ later
  decided := .nil
  branch values? body span rest first later := by
    rw [branchesUnder]
    exact .cons ⟨rfl, rfl, first⟩ later

theorem procBodyUnder_alike (accepts : monitor.Accepts last) :
    Alike last .statements (procBody statements) (procBodyUnder monitor statements) := by
  refine .then (fun s => (Silent.forM runSetting_silent _ s).passes) fun _ s stands => ?_
  let result := sequence .none (parts statements) s
  have reports : Silent (result.2.missingLabels.forM fun label => report (missing label)) :=
    .forM (fun label => report_silent _) _
  have same : sequence .none (partsUnder monitor statements) s = result := by
    refine sequence_alike ((statementsUnder_alike accepts).of_statements statements) parts_compile s ?_
    rw [← (reports result.2).marks]
    exact stands
  exact congrArg (fun result : Termination × Assembly =>
    (result.1, (result.2.missingLabels.forM (fun label => report (missing label)) result.2).2)) same

theorem procUnder_eq
    (accepts : monitor.Accepts (proc definition s).2.marks) (marks : s.marks = Marks.initial) (ops : s.ops = #[]) :
    procUnder monitor definition s = proc definition s := by
  let bare : ProcDefinition := { definition with isVerb := false, parameters := [] }
  have run : proc definition s = proc bare (s.ready definition) := by
    unfold ready proc
    cases definition.isVerb <;> rfl
  have run' : procUnder monitor definition s = procUnder monitor bare (s.ready definition) := by
    unfold ready procUnder
    cases definition.isVerb <;> rfl
  have alike {last : Marks} (accepts : monitor.Accepts last) :
      Alike last .statements (proc bare) (procUnder monitor bare) := by
    unfold proc procUnder
    cases (bare.body?.map Block.statements).getD [] with
    | nil => exact .refl _
    | cons _ _ => exact procBodyUnder_alike accepts
  have stands : Stands Mode.any (proc definition s).2.marks .statements (s.ready definition).marks
      (s.ready definition).ops.toList (proc definition s).2.marks := by
    refine ready_prepares.emits.stands_behind ?_
    rw [marks, ops]
    exact .whole
  rw [run', run]
  refine alike accepts (s.ready definition) ?_
  rw [← run]
  exact stands

end Assembly

namespace ProcDefinition

open Assembly

/-- The state in which the compilation of a proc ends. -/
def assembled (definition : ProcDefinition) (tree : TypeTree) (log : Log) : Assembly :=
  (proc definition (definition.start tree log)).2

theorem lowered_start (definition : ProcDefinition) (tree : TypeTree) (log : Log) :
    Lowered Mode.any (definition.start tree log) (proc definition (definition.start tree log)) :=
  proc_lowered (fun _ _ => Mode.any_admits) rfl tolerates_any

/-- The code of every proc follows the rules. -/
theorem assembled_lowers (definition : ProcDefinition) {tree : TypeTree} :
    ∃ t, Lowers Mode.any .statements Marks.initial (definition.assembled tree log).ops.toList t
      (definition.assembled tree log).marks := by
  obtain ⟨code, ops, lowers⟩ := (definition.lowered_start tree log).emits
  obtain rfl : (definition.assembled tree log).ops.toList = code := ops.trans (List.nil_append code)
  exact ⟨_, lowers⟩

/-- Compiles a proc under a monitor. -/
def compileUnder (monitor : Monitor) (definition : ProcDefinition) (tree : TypeTree) (log : Log) :
    CompiledProc × TypeTree × Array Report :=
  let (termination, s) := procUnder monitor definition (definition.start tree log)
  definition.finish termination s

/-- This holds of every statement that is compiled, the state before it and the outcome: no monitor that accepts it
makes a difference. -/
def Always (definition : ProcDefinition) (tree : TypeTree) (log : Log)
    (holds : Action → Span → Assembly → Assembly.Outcome → Prop) : Prop :=
  ∀ monitor : Monitor, (∀ action span s outcome, holds action span s outcome →
    monitor action span s outcome = outcome) → definition.compileUnder monitor tree log = definition.compile tree log

/-- What holds of every statement in a proc holds whenever one is compiled. -/
theorem always_of_stands {definition : ProcDefinition} {tree : TypeTree}
    (right : ∀ action span s, Stands Mode.any (definition.assembled tree log).marks .statements s.marks s.ops.toList
      (compileAction span action s).2.marks → holds action span s (compileAction span action s)) :
    definition.Always tree log holds := by
  intro _ accepts
  have same := procUnder_eq (fun action span s stands => accepts action span s _ (right action span s stands)) rfl rfl
  rw [compileUnder, same]
  rfl

end ProcDefinition

end DreamMaker
