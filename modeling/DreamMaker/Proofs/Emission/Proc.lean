import DreamMaker.Proofs.Emission.Compile

namespace DreamMaker

variable {definition : ProcDefinition} {s : Assembly}

namespace Assembly

variable {s' : Assembly} {mode : Mode}

/-! Parameters. -/

/-- Nothing but simple code is emitted, and no name is mentioned. -/
structure Prepares (mode : Mode) (s s' : Assembly) : Prop where
  keeps : Keeps s s'
  labels : s'.marks.labels = s.marks.labels
  emits : Emits mode .statements s .none s'

theorem Quiet.prepares (quiet : Quiet s s') : Prepares mode s s' :=
  ⟨quiet.keeps, by rw [quiet.marks], quiet.emits_nothing⟩

theorem Prepares.trans (first : Prepares mode s s₁) (second : Prepares mode s₁ s₂) : Prepares mode s s₂ :=
  ⟨first.keeps.trans second.keeps, second.labels.trans first.labels, first.emits.append second.emits nofun⟩

theorem parameterDefault_prepares (parameter : Parameter) (var : Local) (s : Assembly) :
    Prepares mode s (parameterDefault parameter var value s).2 := by
  have quiet := (resolve_silent value parameter.type?).quiet s
  rw [parameterDefault, Run.bind_eq]
  rcases run : resolve value parameter.type? s with ⟨error | value', s'⟩ <;> rw [run] at quiet
  · exact quiet.prepares
  refine quiet.prepares.trans ?_
  let place := Term.localVar parameter.name var.id parameter.type? parameter.span
  let check : Listing :=
    [(.push place, value.span), (.isNull, value.span), (.jumpIfFalse ⟨s'.marks.count⟩, value.span)]
  let store : Listing := [(.push value', value.span), (.assign place, value.span), (.pop, value.span)]
  let code := check ++ store ++ [(.mark ⟨s'.marks.count⟩, value.span)]
  show Prepares mode s' ((s'.withMarks (s'.marks.fresh 1)).writes code)
  exact ⟨writes_keeps (s'.withMarks (s'.marks.fresh 1)), rfl, code, writes_ops _ _, .skip .null (.line .store)⟩

theorem settle_prepares (prepares : ∀ s, Prepares mode s (x s).2) (s : Assembly) :
    Prepares mode s (settle (do x; return .none) s).2 := by
  have prepared := prepares s
  rw [settle_eq, Run.bind_eq]
  rcases run : x s with ⟨error | _, s'⟩ <;> rw [run] at prepared
  · exact prepared.trans (report_silent error.toReport s').prepares
  · exact prepared

theorem declareParameter_prepares (parameter : Parameter) (s : Assembly) :
    Prepares mode s (declareParameter parameter s).2 := by
  have quiet := declare?_silent parameter.name parameter.type? none s
  rw [declareParameter, Run.state_bind]
  refine quiet.prepares.trans ?_
  cases (declare? parameter.name parameter.type? none s).1 with
  | none => exact (report_silent _ _).prepares
  | some var =>
    cases parameter.default? with
    | none => exact (Quiet.refl _).prepares
    | some value => exact settle_prepares (parameterDefault_prepares parameter var) _

theorem forM_declareParameter_prepares (parameters : List Parameter) (s : Assembly) :
    Prepares mode s (parameters.forM declareParameter s).2 := by
  induction parameters generalizing s with
  | nil => exact (Quiet.refl s).prepares
  | cons parameter _ ih => exact (declareParameter_prepares parameter s).trans (ih _)

/-- The state in which the parameters of a proc have been declared. -/
def ready (s : Assembly) (definition : ProcDefinition) : Assembly :=
  (definition.parameters.forM declareParameter (if definition.isVerb then
    { s with tree := s.tree.addVerb definition.owner definition.path } else s)).2

theorem ready_prepares : Prepares mode s (s.ready definition) := by
  refine Prepares.trans (Quiet.prepares ?_) (forM_declareParameter_prepares definition.parameters _)
  split
  · exact ⟨rfl, rfl, .refl s⟩
  · exact .refl s

/-! Whole procs. -/

/-- The report that a label is jumped to but not placed. -/
def missing (label : NamedLabel) : Report :=
  .located .itemDoesntExist label.firstUse s!"Unknown label {label.name}"

theorem forM_report_reports {α : Type} (f : α → Report) (values : List α) (s : Assembly) :
    (values.forM (fun value => report (f value)) s).2.reports.toList = s.reports.toList ++ values.map f := by
  induction values generalizing s with
  | nil => exact (List.append_nil _).symm
  | cons first rest ih =>
    have pushed : (report (f first) s).2.reports.toList = s.reports.toList ++ [f first] := Array.toList_push
    refine (ih (report (f first) s).2).trans ?_
    rw [pushed, List.append_assoc]
    rfl

theorem missingLabels_congr (same : s'.labels = s.labels) : s'.missingLabels = s.missingLabels := by
  rw [missingLabels, missingLabels, same]

/-- What a proc is compiled to. The last reports are those about labels that are not placed. -/
structure Lowered (mode : Mode) (s : Assembly) (result : Termination × Assembly) : Prop where
  emits : Emits mode .statements s result.1 result.2
  told : ∃ earlier, result.2.reports.toList = earlier ++ result.2.missingLabels.map missing

theorem Lowered.missing (lowered : Lowered mode s result) {label : NamedLabel} (member : label ∈ result.2.labels)
    (unplaced : label.placed = false) : Assembly.missing label ∈ result.2.reports := by
  obtain ⟨earlier, told⟩ := lowered.told
  have known : label ∈ result.2.missingLabels := by
    rw [missingLabels, List.mem_mergeSort, List.mem_filter]
    exact ⟨member, by simp [unplaced]⟩
  rw [← Array.mem_toList_iff, told]
  exact List.mem_append_right _ (List.mem_map_of_mem known)

theorem procBody_lowered (admitted : ∀ action ∈ Statement.allActions statements, mode.Admits action)
    (tolerated : Tolerates mode.failing (procBody statements s).2.reports) :
    Lowered mode s (procBody statements s) := by
  have compiles : Compiles mode .statements (do
      (Statement.allSettings statements).forM runSetting
      sequence .none (parts statements)) :=
    .silent_bind (.forM runSetting_silent _) fun _ =>
      sequence_compiles (statements_compile.of_statements statements admitted)
  let result := (do
      (Statement.allSettings statements).forM runSetting
      sequence .none (parts statements) : Assemble Termination) s
  have reports : Silent (result.2.missingLabels.forM fun label => report (missing label)) :=
    .forM (fun label => report_silent _) _
  refine ⟨(compiles.emits s ((reports result.2).keeps.tolerates tolerated)).quiet (reports result.2),
    result.2.reports.toList, ?_⟩
  have same : (procBody statements s).2.missingLabels = result.2.missingLabels :=
    missingLabels_congr (congrArg Marks.labels (reports result.2).marks)
  rw [same]
  exact forM_report_reports missing _ result.2

end Assembly

open Assembly

variable {mode : Mode}

theorem proc_lowered (admitted : ∀ action ∈ definition.actions, mode.Admits action) (unnamed : s.marks.labels = [])
    (tolerated : Tolerates mode.failing (proc definition s).2.reports) : Lowered mode s (proc definition s) := by
  let ready := s.ready definition
  have prepared : Prepares mode s ready := ready_prepares
  let empty : Report := (Report.located .emptyProc definition.span
    "Empty proc detected - add an explicit \"return\" statement").about .emptyProc
  have run : proc definition s = proc { definition with isVerb := false, parameters := [] } ready := by
    unfold ready Assembly.ready proc
    cases definition.isVerb <;> rfl
  have actions : definition.actions =
      Statement.allActions ((definition.body?.map Block.statements).getD []) := by
    unfold ProcDefinition.actions
    cases definition.body? with
    | none => rfl
    | some body =>
      obtain ⟨statements, _⟩ := body
      rfl
  rw [run, proc] at tolerated ⊢
  rw [actions] at admitted
  generalize (definition.body?.map Block.statements).getD [] = statements at tolerated admitted ⊢
  cases statements with
  | nil =>
    have quiet := report_silent empty ready
    refine ⟨prepared.emits.quiet quiet, (report empty ready).2.reports.toList, ?_⟩
    have none_missing : (report empty ready).2.missingLabels = [] := by
      rw [missingLabels, show (report empty ready).2.labels = [] from prepared.labels.trans unnamed, List.filter_nil,
        List.mergeSort_nil]
    exact (List.append_nil _).symm.trans (congrArg _ (congrArg (List.map missing) none_missing).symm)
  | cons _ _ =>
    obtain ⟨emits, told⟩ := procBody_lowered admitted tolerated
    exact ⟨prepared.emits.append emits nofun, told⟩

/-- Everything may happen. -/
def Mode.any : Mode := ⟨True, True, True⟩

theorem Mode.any_admits {action : Action} : Mode.any.Admits action := ⟨fun _ => trivial, fun _ _ => .inl trivial⟩

theorem tolerates_any {reports : Array Report} : Tolerates Mode.any.failing reports := fun _ _ => .inr trivial

/-- The code of every proc follows the rules, from the first operation to the last. -/
theorem ProcDefinition.compile_lowers (admitted : ∀ action ∈ definition.actions, mode.Admits action)
    {tree : TypeTree} (tolerated : Tolerates mode.failing (definition.compile tree).2.2) :
    ∃ m, Lowers mode .statements Marks.initial (definition.compile tree).1.ops.toList
        (definition.compile tree).1.termination m ∧ m.count = (definition.compile tree).1.labelCount ∧
      ∀ label ∈ m.labels, label.placed = false → Assembly.missing label ∈ (definition.compile tree).2.2 := by
  have lowered := proc_lowered admitted rfl tolerated
  obtain ⟨code, ops, lowers⟩ := lowered.emits
  have whole : (definition.compile tree).1.ops.toList = code := ops.trans (List.nil_append code)
  rw [whole]
  exact ⟨_, lowers, rfl, fun _ => lowered.missing⟩

end DreamMaker
