import DreamMaker.Proofs.Congruence.Flow

namespace DreamMaker.Assembly.Congruence

open List

variable {φ : Prop} {ids : Nat → Nat} {fits : Term.Form → Prop} {R : Relation}

section

variable (rel : Congruence ids fits R)

include rel

/-! Statements. -/

theorem declareVar (var : LocalVar) : Kept R φ (declareVar var) := by
  unfold Assembly.declareVar
  split
  · exact rel.lift (rel.registerGlobal _ _ _)
  refine rel.andThen rel.resolveOption fun _ value? _ => ?_
  split
  · have known : (Numbered.renumber ids value?).map Term.isConstant = value?.map Term.isConstant := by
      cases value? with
      | none => rfl
      | some value => exact congrArg some (value.isConstant_renumber ids)
    rw [known]
    split
    · rename_i constant
      obtain ⟨value, rfl⟩ : ∃ value, value? = some value := by
        cases value? with
        | none => cases constant
        | some value => exact ⟨value, rfl⟩
      rw [show Numbered.renumber ids (some value) = some value from
        congrArg some (value.renumber_of_isConstant ids constant)]
      refine rel.declareConstThen constant fun _ => ?_
      split
      · exact rel.lift (rel.report _)
      · exact rel.giveDone _
    · exact rel.failThen _ _
  · refine rel.declareThen ?_ ?_
    · exact rel.lift (rel.report _)
    · intro id
      have place (fit : fits (.var (.local var.name id))) :
        (Term.localVar var.name id var.type? var.span).Each fits :=
        Term.each_mk.2 ⟨fit, nofun⟩
      have pushed : R ((φ ∧ Numbered.AllFit fits value?) ∧ fits (.var (.local var.name id)))
          (emit (.push (value?.getD (.null var.span))) var.span)
          (emit (.push ((Numbered.renumber ids value?).getD (.null var.span))) var.span) := by
        cases value? with
        | none => exact rel.pushAtom
        | some value => exact rel.pushTerm (fun holds => holds.1.2 value mem_cons_self) _
      refine rel.liftThen pushed fun _ => ?_
      exact rel.liftThen (rel.assignLocal (fun holds => place holds.2) ⟨_, _, rfl⟩) fun _ => rel.lift (rel.op rfl)

theorem operate (operands : List Expr) (op : Op) (span : Span) (bare : op.operands = []) :
    Kept R φ (operate operands op span) := by
  have pushed : Kept R φ (operands.forM Assembly.push) := by
    induction operands with
    | nil => exact rel.giveDone _
    | cons _ _ ih => exact rel.stepThen rel.push fun _ => ih
  exact rel.stepThen pushed fun _ => rel.liftThen (rel.op bare) fun _ => rel.giveDone _

theorem readInto {source target : Expr} {span : Span} : Kept R φ (readInto source target span) := by
  refine rel.andThen (rel.resolve source none) fun _ from_ _ => ?_
  refine rel.andThen (rel.resolve target none) fun _ into _ => ?_
  have input : R ((φ ∧ Numbered.AllFit fits from_) ∧ Numbered.AllFit fits into)
      (emit (.input from_ into) span)
      (emit (.input (from_.renumber ids) (into.renumber ids)) span) := by
    refine rel.emit (fun holds => ⟨?_, fun _ held => by cases held⟩) span
    exact forall_mem_cons.2 ⟨holds.1.2 from_ mem_cons_self, holds.2⟩
  rw [numbered_term, numbered_term, from_.isPlace_renumber, into.isPlace_renumber]
  dsimp only
  split
  · split
    · exact rel.liftThen input fun _ => rel.giveDone _
    · exact rel.failThen _ _
  · exact rel.failThen _ _

theorem returnValue (value? : Option Expr) (span : Span) : Kept R φ (returnValue value? span) := by
  have ending : Kept R φ (do
      emit .return_ span
      return Termination.procReturn : Attempt Termination) := rel.opThen rfl fun _ => rel.giveDone _
  have result : (Term.plain (.ambient .result) span).Each fits := Term.each_mk.2 ⟨rel.neutral _ rfl, nofun⟩
  cases value? with
  | none => exact rel.liftThen (rel.pushTerm (fun _ => result) span) fun _ => ending
  | some _ => exact rel.stepThen rel.push fun _ => ending

theorem sequence (known : Termination) {parts : List Part} (inner : ∀ part ∈ parts, Kept R φ part.code) :
    Kept R φ (sequence known parts) := by
  induction parts generalizing known with
  | nil => exact rel.done _
  | cons part _ ih =>
    unfold Assembly.sequence
    split
    · exact rel.step (rel.report _) fun _ => rel.done _
    · refine rel.step (inner part mem_cons_self) fun _ => ?_
      exact ih _ fun later member => inner later (mem_cons_of_mem _ member)

theorem together (known : Termination) {parts : List Part} (inner : ∀ part ∈ parts, Kept R φ part.code) :
    Kept R φ (together known parts) := by
  induction parts generalizing known with
  | nil => exact rel.done _
  | cons part _ ih =>
    refine rel.step (inner part mem_cons_self) fun _ => ?_
    exact ih _ fun later member => inner later (mem_cons_of_mem _ member)

theorem checkBlock (statements : List Statement) (span : Span) : Kept R φ (checkBlock statements span) := by
  unfold Assembly.checkBlock
  split
  · exact rel.report _
  · split
    · exact rel.report _
    · exact rel.done ()

end

mutual

theorem statement (rel : Congruence ids fits R) : (s : Statement) → Kept R φ (statement s)
  | .mk action span => by
    rw [Assembly.statement]
    exact rel.settle (rel.action_kept span action)

theorem action_kept (rel : Congruence ids fits R) (span : Span) :
    (action : Action) → Kept R φ (compileAction span action)
  | .expression _ => rel.operate _ _ _ rfl
  | .declare var => rel.stepThen (rel.declareVar var) fun _ => rel.giveDone _
  | .group inner => rel.lift (rel.together _ (rel.parts_kept inner))
  | .set _ _ _ => rel.giveDone _
  | .return_ value? => rel.returnValue value? span
  | .break_ name? => rel.breakOut name? span
  | .continue_ name? => rel.continueOn name? span
  | .goto name => rel.lift (rel.goto name span)
  | .label name none => rel.lift (rel.placeLabel name (by simp) span)
  | .label name (some body) => by
    have inner := rel.block_kept body
    exact rel.lift (rel.placeLabel name (by rintro _ ⟨⟩; exact inner) span)
  | .del _ => rel.operate _ _ _ rfl
  | .throw _ => rel.operate _ _ _ rfl
  | .if_ condition body none => by rw [compileAction]; exact rel.ifElse condition (rel.block_kept body) (by simp)
  | .if_ condition body (some other) => by
    rw [compileAction]
    have second := rel.block_kept other
    exact rel.ifElse condition (rel.block_kept body) (by rintro _ ⟨⟩; exact second)
  | .for_ _ _ _ body => rel.forLoop _ _ _ (rel.block_kept body) span
  | .forIn _ _ _ body => rel.forInLoop _ _ _ (rel.block_kept body) span
  | .forRange _ _ _ _ body => rel.forRangeLoop (rel.block_kept body)
  | .forType _ body => rel.forTypeLoop (rel.block_kept body)
  | .forever body => rel.lift (rel.endless (rel.block_kept body))
  | .while_ _ body => rel.whileLoop (rel.block_kept body)
  | .doWhile body _ => rel.doWhileLoop (rel.block_kept body)
  | .switch value cases => rel.switch (rel.branches_kept cases)
  | .spawn _ body => rel.spawn (rel.block_kept body)
  | .tryCatch body _ none => by rw [compileAction]; exact rel.protect (rel.block_kept body) (by simp)
  | .tryCatch body _ (some handler) => by
    rw [compileAction]
    have handles := rel.block_kept handler
    exact rel.protect (rel.block_kept body) (by rintro _ ⟨⟩; exact handles)
  | .output _ _ => rel.operate _ _ _ rfl
  | .input _ _ => rel.readInto
  | .transfer _ _ _ _ => rel.operate _ _ _ rfl
  | .link _ _ => rel.operate _ _ _ rfl

theorem block_kept (rel : Congruence ids fits R) : (body : Block) → Kept R φ (block body).code
  | .mk statements span => by
    rw [block]
    refine rel.inScope (rel.step (rel.forM rel.runSetting _) fun _ => rel.step (rel.checkBlock _ _) fun _ => ?_) span
    exact rel.sequence _ (rel.parts_kept statements)

theorem parts_kept (rel : Congruence ids fits R) :
    (statements : List Statement) → ∀ part ∈ parts statements, Kept R φ part.code
  | [] => by simp [parts]
  | .mk action span :: rest => by
    have first := rel.statement (.mk action span)
    have others := rel.parts_kept rest
    rw [parts]
    split
    · exact others
    · exact forall_mem_cons.mpr ⟨first, others⟩

theorem branches_kept (rel : Congruence ids fits R) :
    (cases : List Case) → ∀ branch ∈ branches cases, Kept R φ branch.body.code
  | [] => by simp [branches]
  | .mk values? body span :: rest => by
    exact forall_mem_cons.mpr ⟨rel.block_kept body, rel.branches_kept rest⟩

end

section

variable (rel : Congruence ids fits R)

include rel

/-! Procs. -/

theorem procBody : Kept R φ (procBody statements) := by
  refine rel.step (rel.forM rel.runSetting _) fun _ =>
    rel.step (rel.sequence _ (rel.parts_kept statements)) fun _ => ?_
  exact rel.look (fun _ _ => rfl) fun _ => rel.step (rel.forM (fun _ => rel.report _) _) fun _ => rel.done _

theorem parameterDefault (fit : φ → fits (.var (.local parameter.name var.id))) :
    Kept R φ (parameterDefault parameter var value) := by
  have place (holds : φ) : (Term.localVar parameter.name var.id parameter.type? parameter.span).Each fits :=
    Term.each_mk.2 ⟨fit holds, nofun⟩
  refine rel.andThen (rel.resolve _ _) fun _ _ _ => rel.liftThen rel.newLabel fun _ => ?_
  refine rel.liftThen (rel.pushTerm (fun holds => place holds.1) _) fun _ => rel.opThen rfl fun _ => ?_
  refine rel.opThen rfl fun _ => ?_
  refine rel.liftThen rel.pushGiven fun _ => ?_
  refine rel.liftThen (rel.assignLocal (fun holds => place holds.1) ⟨_, _, rfl⟩) fun _ => ?_
  exact rel.opThen rfl fun _ => rel.lift (rel.op rfl)

theorem declareParameter (parameter : Parameter) : Kept R φ (declareParameter parameter) := by
  refine rel.declare _ _ (rel.report _) fun _ => ?_
  dsimp only
  split
  · refine rel.step (rel.settle ?_) fun _ => rel.done _
    exact rel.stepThen (rel.parameterDefault (fun holds => holds.2)) fun _ => rel.giveDone _
  · exact rel.done _

/-- What every step of compiling keeps, compiling a proc keeps, if listing it as a verb does. -/
theorem proc (definition : ProcDefinition) (verb : definition.isVerb → Kept R φ (MonadState.modifyGet fun s =>
      ((), { s with tree := s.tree.addVerb definition.owner definition.path }) : Assemble Unit)) :
    Kept R φ (proc definition) := by
  unfold Assembly.proc
  by_cases listed : definition.isVerb <;> simp only [listed, if_true]
  case' pos => refine rel.step (verb listed) fun _ => ?_
  all_goals
    refine rel.step (rel.forM rel.declareParameter _) fun _ => ?_
    split
    · exact rel.step (rel.report _) fun _ => rel.done _
    · exact rel.procBody

end

end DreamMaker.Assembly.Congruence
