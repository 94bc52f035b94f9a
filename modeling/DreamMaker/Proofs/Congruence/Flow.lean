import DreamMaker.Proofs.Congruence.Basic

namespace DreamMaker.Assembly

open List Numbered

/-- What is labelled is among the cases. -/
theorem mem_caseTests {branches : List Branch} (member : entry ∈ (caseTests branches s).1) :
    entry.2 ∈ branches := by
  induction branches generalizing s with
  | nil => exact absurd member not_mem_nil
  | cons branch _ ih =>
    rcases given : branch.values? with _ | values <;> rw [caseTests, given] at member
    · exact mem_cons_of_mem _ (ih member)
    · rcases mem_cons.mp member with rfl | later
      · exact mem_cons_self
      · exact mem_cons_of_mem _ (ih later)

/-- What a handler sets is a local. -/
theorem isLocal_of_bindHandler {var : LocalVar}
    (given : ((some <$> bindLocal var.name var.type? var.span .invalidCatchVar : Attempt (Option Term)) s).1 =
      .ok bound?) :
    ∀ bound ∈ bound?, ∃ name id, bound.form = .var (.local name id) := by
  intro term held
  cases held
  have run := Run.bind_eq (bindLocal var.name var.type? var.span .invalidCatchVar)
    (fun term => (Pure.pure (some term) : Attempt (Option Term))) s
  rcases result : bindLocal var.name var.type? var.span .invalidCatchVar s with ⟨error | place, s'⟩ <;>
    rw [result] at run <;> cases (congrArg Prod.fst run).symm.trans given
  exact isLocal_of_bindLocal (congrArg Prod.fst result)

theorem isConstant_of_resolveConstant {e : Expr} {context : Context} {reports : Array Report}
    (run : (e.resolveConstant context none reports).1 = .ok term) : term.isConstant := by
  unfold Expr.resolveConstant at run
  rw [Run.bind_eq] at run
  rcases resolved : e.resolve context none reports with ⟨error | value, after⟩ <;> rw [resolved] at run
  · cases run
  dsimp only at run
  by_cases constant : value.isConstant
  · rw [if_pos constant] at run
    cases run
    exact constant
  · rw [if_neg constant] at run
    cases run

theorem isConstant_caseConstant (e : Expr) (s : Assembly) : (caseConstant e s).1.isConstant := by
  unfold caseConstant
  rw [Run.state_bind]
  have given : ((resolving fun context => e.resolveConstant context none).run s).1 =
    (e.resolveConstant s.context none s.reports).1 := rfl
  rw [given]
  rcases resolved : (e.resolveConstant s.context none s.reports).1 with _ | _
  · rfl
  · exact isConstant_of_resolveConstant resolved

theorem isConstant_rangeBound (e : Expr) (s : Assembly) : (rangeBound e which s).1.isConstant := by
  have known := isConstant_caseConstant e s
  unfold rangeBound
  rw [Run.state_bind]
  generalize caseConstant e s = given at known ⊢
  cases given.1.atom? with
  | none => rfl
  | some atom =>
    cases atom with
    | number => exact known
    | _ => rfl

namespace Congruence

variable {R : Relation} {body : Part} {fits : Term.Form → Prop} {ids : Nat → Nat} {φ : Prop}
  (rel : Congruence ids fits R) [Numbered α] {value : Term} {branches : List Branch} {span : Span}

include rel

/-! Jumps. -/

theorem escape {count : Nat} : Kept R φ (escape count) := rel.modify fun _ _ => rfl

theorem changeLabel (change : NamedLabel → NamedLabel) : Kept R φ (changeLabel name change) :=
  rel.modify fun _ _ => rfl

theorem activeLabel {name : String} : Kept R φ (activeLabel name span) := by
  refine rel.lookThen (fun _ _ => rfl) fun _ => ?_
  split
  · split
    · exact rel.giveDone _
    · exact rel.fail
  · exact rel.fail

theorem breakTarget {name? : Option String} : Kept R φ (breakTarget span name?) := by
  cases name? with
  | none =>
    refine rel.lookThen (fun _ _ => rfl) fun s => ?_
    split
    · exact rel.fail
    · exact rel.liftThen rel.escape fun _ => rel.giveDone _
  | some _ =>
    refine rel.stepThen rel.activeLabel fun _ => ?_
    split
    · exact rel.fail
    · refine rel.liftThen (rel.changeLabel _) fun _ => rel.lookThen (fun _ _ => rfl) fun s => ?_
      exact rel.liftThen rel.escape fun _ => rel.giveDone _

theorem breakOut (name? : Option String) (span : Span) : Kept R φ (breakOut name? span) :=
  rel.stepThen rel.breakTarget fun _ => rel.opThen rfl fun _ => rel.giveDone _

theorem continueTarget? {name? : Option String} : Kept R φ (continueTarget? span name?) := by
  cases name? with
  | none =>
    refine rel.lookThen (fun _ _ => rfl) fun s => ?_
    split
    · exact rel.fail
    · exact rel.giveDone _
  | some _ =>
    refine rel.stepThen rel.activeLabel fun _ => rel.lookThen (fun _ _ => rfl) fun s => ?_
    split
    · dsimp only
      split
      · exact rel.liftThen rel.escape fun _ => rel.giveDone _
      · exact rel.giveDone _
    · exact rel.giveDone _

theorem continueOn (name? : Option String) (span : Span) : Kept R φ (continueOn name? span) := by
  refine rel.stepThen rel.continueTarget? fun next? => ?_
  cases next? with
  | some _ => exact rel.opThen rfl fun _ => rel.giveDone _
  | none => exact rel.liftThen (rel.report _) fun _ => rel.giveDone _

theorem labelStart {name : String} : Kept R φ (labelStart name span) := by
  refine rel.look (fun _ _ => rfl) fun _ => ?_
  split
  · exact rel.done _
  · exact rel.step rel.newLabel fun _ => rel.step (rel.modify fun _ _ => rfl) fun _ => rel.done _

theorem goto (name : String) (span : Span) : Kept R φ (goto name span) := by
  refine rel.step rel.labelStart fun _ => rel.look (fun _ _ => rfl) fun _ => ?_
  exact rel.step rel.escape fun _ => rel.opStep rfl fun _ => rel.done _

theorem labelBlock (inner : Kept R φ body.code) : Kept R φ (labelBlock name body) := by
  refine rel.step rel.newLabel fun _ => rel.step (rel.changeLabel _) fun _ => ?_
  refine rel.step (rel.modify fun _ _ => rfl) fun _ => rel.step inner fun _ =>
    rel.step (rel.modify fun _ _ => rfl) fun _ => ?_
  refine rel.opStep rfl fun _ => rel.look (fun _ _ => rfl) fun _ => ?_
  split <;> exact rel.done _

theorem placeLabel (name : String) (inner : ∀ body ∈ body?, Kept R φ body.code) (span : Span) :
    Kept R φ (placeLabel name body? span) := by
  refine rel.look (fun _ _ => rfl) fun _ => ?_
  split
  · exact rel.step (rel.report _) fun _ => rel.done _
  refine rel.step rel.labelStart fun _ => rel.step (rel.changeLabel _) fun _ => ?_
  refine rel.opStep rfl fun _ => ?_
  cases body? with
  | none => exact rel.done _
  | some body => exact rel.labelBlock (inner body rfl)

theorem spawn {delay? : Option Expr} (inner : Kept R φ body.code) :
    Kept R φ (spawn delay? body span) := by
  have rest : Kept R φ (do
      let after ← Assembly.newLabel
      emit (.spawn after) span
      let outer ← get
      MonadState.modifyGet fun s => ((), { s with loops := [], active := [] })
      let _ ← body.code
      MonadState.modifyGet fun s => ((), { s with loops := outer.loops, active := outer.active })
      emit (.push (.null span)) span
      emit .return_ span
      emit (.mark after) span
      return Termination.none : Attempt Termination) := by
    refine rel.liftThen rel.newLabel fun after => rel.opThen rfl fun _ => ?_
    refine rel.lookThen (fun _ _ => rfl) fun outer => rel.liftThen (rel.modify fun _ _ => rfl) fun _ => ?_
    refine rel.liftThen inner fun _ => rel.liftThen (rel.modify fun _ _ => rfl) fun _ => ?_
    refine rel.liftThen rel.pushAtom fun _ => rel.opThen rfl fun _ => ?_
    exact rel.opThen rfl fun _ => rel.giveDone _
  cases delay? with
  | none => exact rel.liftThen rel.pushAtom fun _ => rest
  | some _ => exact rel.stepThen rel.push fun _ => rest

theorem protect (inner : Kept R φ body.code) {binder? : Option LocalVar} {handler? : Option Part}
    (handles : ∀ handler ∈ handler?, Kept R φ handler.code) :
    Kept R φ (protect body binder? handler? span) := by
  cases binder?
  case' none =>
    refine rel.andThen (rel.give none nofun) fun s bound? given => ?_
    have isLocal : ∀ bound ∈ bound?, ∃ name id, bound.form = .var (.local name id) := by
      cases given
      exact fun _ held => by cases held
  case' some var =>
    have handed : Kept R φ (some <$> Assembly.bindLocal var.name var.type? var.span .invalidCatchVar : Attempt _) :=
      rel.andThen (rel.bindLocal _ _ _ _) fun _ term _ => rel.give (some term) And.right
    refine rel.andThen handed fun s bound? given => ?_
    have isLocal := isLocal_of_bindHandler given
  all_goals
    have start (handler : Label) : R (φ ∧ Numbered.AllFit fits bound?)
        (emit (.tryStart handler bound?) span)
        (emit (.tryStart handler (renumber ids bound?)) span) := by
      refine rel.emit (fun holds => ?_) span
      exact ⟨holds.2, isLocal⟩
    refine rel.liftThen rel.newLabel fun handler => rel.liftThen rel.newLabel fun _ => ?_
    refine rel.liftThen (start handler) fun _ => rel.liftThen (rel.under inner) fun _ => ?_
    refine rel.opThen rfl fun _ => rel.opThen rfl fun _ => ?_
    refine rel.opThen rfl fun _ => ?_
    cases handler? with
    | none =>
      exact rel.stepThen (rel.giveDone _) fun _ => rel.opThen rfl fun _ => rel.giveDone _
    | some part =>
      refine rel.liftThen (rel.under (handles part rfl)) fun _ => ?_
      exact rel.opThen rfl fun _ => rel.giveDone _

theorem ifElse (condition : Expr) (inner : Kept R φ body.code)
    (other : ∀ part ∈ else?, Kept R φ part.code) : Kept R φ (ifElse condition body else?) := by
  refine rel.andThen (rel.resolve condition none) fun _ term _ => ?_
  rw [numbered_term, term.truth?_renumber, term.span_renumber]
  split
  · cases else? with
    | none => exact rel.lift (rel.under inner)
    | some part => exact rel.liftThen (rel.report _) fun _ => rel.lift (rel.under inner)
  · refine rel.liftThen (rel.report _) fun _ => ?_
    cases else? with
    | none => exact rel.giveDone _
    | some part => exact rel.lift (rel.under (other part rfl))
  · refine rel.liftThen rel.newLabel fun _ => ?_
    cases else? with
    | none =>
      refine rel.stepThen (rel.giveDone _) fun _ => rel.liftThen rel.pushGiven fun _ => ?_
      refine rel.opThen rfl fun _ => rel.liftThen (rel.under inner) fun first => ?_
      exact rel.opThen rfl fun _ => rel.giveDone _
    | some part =>
      refine rel.liftThen rel.newLabel fun _ => rel.liftThen rel.pushGiven fun _ => ?_
      refine rel.opThen rfl fun _ => rel.liftThen (rel.under inner) fun first => ?_
      refine rel.opThen rfl fun _ => rel.opThen rfl fun _ => ?_
      refine rel.liftThen (rel.under (other part rfl)) fun _ => ?_
      exact rel.opThen rfl fun _ => rel.giveDone _

/-! Loops. -/

theorem newLoop : Kept R φ newLoop :=
  rel.step rel.newLabel fun _ => rel.step rel.newLabel fun _ => rel.step rel.newLabel fun _ => rel.done _

theorem closeLoop : Kept R φ closeLoop := by
  refine rel.flow fun s shared => ?_
  rw [Assembly.closeLoop, Run.modifyGet_eq, Run.modifyGet_eq, show (s.withShared shared).loops = s.loops from rfl]
  cases s.loops <;> rfl

theorem loopBody (labels : LoopLabels) (inner : Kept R φ body.code) : Kept R φ (loopBody labels body) := by
  have opened : Kept R φ (openLoop labels.next labels.stop) :=
    rel.modify fun _ _ => rfl
  exact rel.step opened fun _ => rel.step inner fun _ => rel.step rel.closeLoop fun _ => rel.done _

theorem jumpBack {start : Label} : Kept R φ (jumpBack start span) := by
  have sleep : Kept R φ (emit (.push (sleepCall span)) span) := by
    have number : (Term.number (-1) span).Each fits := Term.each_mk.2 ⟨rel.neutral _ rfl, nofun⟩
    have call : (sleepCall span).Each fits :=
      Term.each_mk.2 ⟨rel.neutral _ rfl, forall_mem_singleton.2 number⟩
    exact rel.pushTerm (fun _ => call) span
  refine rel.look (fun _ _ => rfl) fun _ => ?_
  split
  · exact rel.step sleep fun _ => rel.opStep rfl fun _ => rel.op rfl
  · exact rel.op rfl

theorem endless (inner : Kept R φ body.code) : Kept R φ (endless body span) := by
  refine rel.inScope (rel.step rel.newLoop fun labels => rel.opStep rfl fun _ => ?_) span
  refine rel.opStep rfl fun _ => rel.step (rel.loopBody labels inner) fun _ => ?_
  exact rel.step rel.jumpBack fun _ => rel.opStep rfl fun _ => rel.done _

theorem whileLoop {condition : Expr} (inner : Kept R φ body.code) :
    Kept R φ (whileLoop condition body span) := by
  refine rel.andThen (rel.resolve condition none) fun _ term _ => ?_
  rw [numbered_term, term.truth?_renumber, term.span_renumber]
  split
  · exact rel.lift (rel.endless (rel.under inner))
  · exact rel.liftThen (rel.report _) fun _ => rel.giveDone _
  refine rel.liftThen rel.newLoop fun labels => rel.opThen rfl fun _ => ?_
  refine rel.opThen rfl fun _ => rel.liftThen rel.pushGiven fun _ => ?_
  refine rel.opThen rfl fun _ => ?_
  refine rel.liftThen (rel.loopBody labels (rel.under inner)) fun _ => ?_
  exact rel.liftThen rel.jumpBack fun _ => rel.opThen rfl fun _ => rel.giveDone _

theorem doWhileLoop (inner : Kept R φ body.code) {condition : Expr} :
    Kept R φ (doWhileLoop body condition span) := by
  refine rel.liftThen rel.newLoop fun labels => rel.opThen rfl fun _ => ?_
  refine rel.liftThen (rel.loopBody labels inner) fun _ => rel.opThen rfl fun _ => ?_
  refine rel.andThen (rel.orElse (rel.resolve condition none) fun _ => ?_) fun _ term _ => ?_
  · exact rel.opThen rfl fun _ => rel.fail
  · rw [numbered_term, term.span_renumber]
    refine rel.liftThen rel.pushGiven fun _ => rel.opThen rfl fun _ => ?_
    exact rel.liftThen rel.jumpBack fun _ => rel.opThen rfl fun _ => rel.giveDone _

theorem loopVar {binder : Expr} : Kept R φ (loopVar binder) := by
  unfold Assembly.loopVar
  split
  · exact rel.bindLocal _ _ _ _
  refine rel.andThen (rel.resolve binder none) fun _ target _ => ?_
  rw [numbered_term, target.isPlace_renumber]
  split
  · exact rel.give target And.right
  · exact rel.fail

/-- A var that is declared in the head of a loop gets its first value. -/
theorem assignFirst {name : String} {type? : Option TypePath} {place : Span} (fit : φ → value.Each fits) :
    let first (value : Term) : Attempt Unit := do
      let var ← Assembly.loopVar (.mk (.declare name type?) place)
      emit (.push value) span
      emit (.assign var) span
      emit .pop span
    R φ (first value) (first (value.renumber ids)) := by
  refine rel.andThen rel.loopVar fun _ var given => ?_
  have isLocal := isLocal_of_bindLocal given
  refine rel.liftThen (rel.pushTerm (fun holds => fit holds.1) _) fun _ => ?_
  refine rel.liftThen (rel.assignLocal (fun holds => holds.2 var mem_cons_self) isLocal) fun _ => ?_
  exact rel.lift (rel.op rfl)

theorem loopInit {start : Expr} : Kept R φ (loopInit start) := by
  obtain ⟨_, span⟩ := start
  unfold Assembly.loopInit
  split
  · rename_i name type? given
    cases given
    have null : (Term.null span).Each fits := Term.each_mk.2 ⟨rel.neutral _ rfl, nofun⟩
    exact rel.assignFirst fun _ => null
  · rename_i name type? place value given
    refine rel.andThen (rel.resolve _ _) fun _ value _ => ?_
    exact rel.assignFirst fun holds => holds.2 value mem_cons_self
  · exact rel.stepThen rel.push fun _ => rel.lift (rel.op rfl)

/-- A value that may be missing is pushed for an operation. -/
theorem pushThen (value? : Option Term) (op : Op) (bare : op.operands = [])
    {f g : Unit → Assemble α} (rest : R φ (f ()) (g ())) :
    (φ → Numbered.AllFit fits value?) →
    R φ (match value? with
        | some value => do
          emit (.push value) value.span
          let done ← emit op value.span
          f done
        | _ => f () : Assemble α)
      (match renumber ids value? with
        | some value => do
          emit (.push value) value.span
          let done ← emit op value.span
          g done
        | _ => g () : Assemble α) := by
  intro fit
  rcases value? with _ | value
  · exact rest
  have place := value.span_renumber ids
  show R φ _ (do
      emit (.push (value.renumber ids)) (value.renumber ids).span
      let done ← emit op (value.renumber ids).span
      g done : Assemble α)
  rw [place]
  exact rel.step (rel.pushTerm (fun holds => fit holds value mem_cons_self) _) fun _ =>
    rel.step (rel.op bare) fun _ => rest

theorem rounds {next? : Option Term} (fit : φ → Numbered.AllFit fits condition?)
    (fit' : φ → Numbered.AllFit fits next?) (inner : Kept R φ body.code) :
    R φ (rounds condition? next? body span)
      (rounds (renumber ids condition?) (renumber ids next?) body span) := by
  have same : (renumber ids condition?).isNone = condition?.isNone := by cases condition? <;> rfl
  unfold Assembly.rounds
  rw [same]
  refine rel.step rel.newLoop fun labels => rel.opStep rfl fun _ => rel.pushThen condition? _ rfl ?_ fit
  refine rel.step (rel.loopBody labels inner) fun _ => rel.opStep rfl fun _ => rel.pushThen next? _ rfl ?_ fit'
  exact rel.step rel.jumpBack fun _ => rel.opStep rfl fun _ => rel.done _

theorem forLoop (start? condition? next? : Option Expr) (inner : Kept R φ body.code) (span : Span) :
    Kept R φ (forLoop start? condition? next? body span) := by
  refine rel.tryInScope ?_ span
  cases start?
  case' some start => refine rel.stepThen rel.loopInit fun _ => ?_
  all_goals
    refine rel.andThen rel.resolveOption fun _ condition? _ => ?_
    have same : (renumber ids condition?).bind Term.truth? = condition?.bind Term.truth? := by
      cases condition? with
      | none => rfl
      | some term => exact term.truth?_renumber ids
    rw [same]
    split
    · exact rel.liftThen (rel.report _) fun _ => rel.giveDone _
    · refine rel.andThen rel.resolveOption fun _ next? _ => ?_
      have none_fits : Numbered.AllFit fits (none : Option Term) := nofun
      exact rel.lift (rel.rounds (fun _ => none_fits) And.right (rel.under (rel.under inner)))
    · refine rel.andThen rel.resolveOption fun _ next? _ => ?_
      exact rel.lift (rel.rounds (fun holds => holds.1.2) And.right (rel.under (rel.under inner)))

theorem enumerate (fit : φ → target.Each fits) (inner : Kept R φ body.code) :
    R φ (enumerate target body span) (enumerate (target.renumber ids) body span) := by
  have moved (exit : Label) : R φ (emit (.enumerate target exit) span)
      (emit (.enumerate (target.renumber ids) exit) span) := by
    refine rel.emit (fun holds => ?_) span
    exact ⟨forall_mem_singleton.2 (fit holds), fun _ held => by cases held⟩
  refine rel.step rel.newLoop fun labels => rel.opStep rfl fun _ => rel.opStep rfl fun _ => ?_
  refine rel.step (moved labels.stop) fun _ => rel.step (rel.loopBody labels inner) fun _ => ?_
  exact rel.step rel.jumpBack fun _ => rel.opStep rfl fun _ => rel.done _

theorem enumeratorLoop {binder : Expr} (inner : Kept R φ body.code) :
    Kept R φ (enumeratorLoop binder body span) := by
  have scope : Kept R φ (Assembly.tryInScope span do Assembly.enumerate (← Assembly.loopVar binder) body span) := by
    refine rel.tryInScope ?_ span
    exact rel.andThen rel.loopVar fun _ target _ =>
      rel.lift (rel.enumerate (fun holds => holds.2 target mem_cons_self) (rel.under inner))
  have passed : Kept R φ (do
      let result ← (Assembly.tryInScope span do Assembly.enumerate (← Assembly.loopVar binder) body span).run
      emit .destroyEnumerator span
      return result : Assemble (Except SemanticError Termination)) :=
    rel.step scope fun _ => rel.opStep rfl fun _ => rel.done _
  exact passed

theorem enumeration (binder : Expr) (span : Span) (inner : Kept R φ body.code)
    (enumerator : Enumerator) : Kept R φ (do
    emit (.createEnumerator enumerator) span
    Assembly.enumeratorLoop binder body span : Attempt Termination) :=
  rel.opThen rfl fun _ => rel.enumeratorLoop inner

theorem listFilter? : Kept R φ (listFilter? binder types?) := by
  rcases types? with _ | types
  · exact rel.done _
  show Kept R φ (clauseFilter? types binder.span)
  simp only [clauseFilter?]
  split
  · exact rel.done _
  · split
    · exact rel.done _
    · exact rel.step (rel.report _) fun _ => rel.done _

theorem forInLoop (binder : Expr) (types? : Option ValueTypes) (list : Expr) (inner : Kept R φ body.code)
    (span : Span) : Kept R φ (forInLoop binder types? list body span) := by
  have rest := rel.enumeration binder span inner
  refine rel.stepThen rel.push fun _ => rel.liftThen rel.listFilter? fun filter? => ?_
  cases filter? with
  | none => exact rel.stepThen (rel.giveDone _) rest
  | some _ =>
    refine rel.hasTypeThen ?_ ?_
    · exact rel.stepThen (rel.giveDone _) rest
    · exact rel.liftThen (rel.report _) fun _ => rel.stepThen (rel.giveDone _) rest

theorem forRangeLoop {binder start stop : Expr} {step? : Option Expr} (inner : Kept R φ body.code)
    : Kept R φ (forRangeLoop binder start stop step? body span) := by
  have rest := rel.enumeration binder span inner .range
  refine rel.stepThen rel.push fun _ => rel.stepThen rel.push fun _ => ?_
  cases step? with
  | none => exact rel.liftThen rel.pushAtom fun _ => rest
  | some _ => exact rel.stepThen rel.push fun _ => rest

theorem forTypeLoop {binder : Expr} (inner : Kept R φ body.code) :
    Kept R φ (forTypeLoop binder body span) := by
  have rest := rel.enumeration binder span inner
  unfold Assembly.forTypeLoop
  split
  · refine rel.hasTypeThen ?_ ?_
    · exact rest _
    · exact rel.stepThen rel.fail fun _ => rest _
  · exact rel.fail

/-! Switches. -/

theorem caseConstant (e : Expr) : Kept R φ (caseConstant e) := by
  refine rel.run_bind (rel.resolveConstant e) (fun _ => ?_) fun constant => rel.pure constant And.right
  have zero : (Term.number 0 e.span).Each fits := Term.each_mk.2 ⟨rel.neutral _ rfl, nofun⟩
  exact rel.step (rel.report _) fun _ => rel.pure _ fun _ => forall_mem_singleton.2 zero

theorem constant (known : value.isConstant) : value.Each fits :=
  Term.each_of_isConstant (fun _ => rel.neutral _ rfl) (fun _ => rel.neutral _ rfl) value known

/-- A constant is the same in both runs. -/
theorem constantThen {x : Assemble Term} (first : Kept R φ x)
    (known : ∀ s, (x s).1.isConstant) {g : Term → Assemble α}
    (rest : ∀ constant : Term, constant.isConstant → R φ (f constant) (g constant)) :
      R φ (x >>= f) (x >>= g) := by
  refine rel.bind first fun s => ?_
  rw [show renumber ids (x s).1 = (x s).1 from Term.renumber_of_isConstant ids _ (known s)]
  exact rel.under (rest _ (known s))

theorem rangeBound (e : Expr) (which : String) : Kept R φ (rangeBound e which) := by
  have zero : Kept R φ (Pure.pure (.number 0 e.span) : Assemble Term) :=
    rel.pure _ fun _ => forall_mem_singleton.2 (Term.each_mk.2 ⟨rel.neutral _ rfl, nofun⟩)
  refine rel.constantThen (rel.caseConstant e) (isConstant_caseConstant e) fun constant known => ?_
  split
  · have given : R φ (Pure.pure constant : Assemble Term) (Pure.pure (renumber ids constant) : Assemble Term) :=
      rel.pure constant fun _ => forall_mem_singleton.2 (rel.constant known)
    rwa [show renumber ids constant = constant from constant.renumber_of_isConstant ids known] at given
  · exact rel.step (rel.report _) fun _ => zero
  · exact rel.step (rel.report _) fun _ => zero

theorem caseTest (target : Label) (value : CaseValue) : Kept R φ (caseTest target value) := by
  have pushed {constant : Term} (known : constant.isConstant) (span : Span) :
      Kept R φ (emit (.push constant) span) := by
    have pushed : R φ _ _ := rel.pushTerm (fun _ => rel.constant known) span
    rwa [constant.renumber_of_isConstant ids known] at pushed
  cases value with
  | single e =>
    refine rel.constantThen (rel.caseConstant e) (isConstant_caseConstant e) fun _ known => ?_
    exact rel.step (pushed known _) fun _ => rel.op rfl
  | range start stop =>
    refine rel.constantThen (rel.rangeBound start _) (isConstant_rangeBound start) fun _ known => ?_
    refine rel.constantThen (rel.rangeBound stop _) (isConstant_rangeBound stop) fun _ known' => ?_
    exact rel.step (pushed known _) fun _ => rel.step (pushed known' _) fun _ => rel.op rfl

theorem caseTests : Kept R φ (caseTests branches) := by
  induction branches with
  | nil => exact rel.done _
  | cons _ _ ih =>
    unfold Assembly.caseTests
    split
    · exact ih
    · refine rel.step rel.newLabel fun label => rel.step (rel.forM (rel.caseTest label) _) fun _ => ?_
      exact rel.step ih fun _ => rel.done _

theorem caseBodies (stop : Label) (known : Termination)
    (inner : ∀ entry ∈ entries, Kept R φ entry.2.body.code) : Kept R φ (caseBodies stop known entries) := by
  induction entries generalizing known with
  | nil => exact rel.done _
  | cons entry _ ih =>
    refine rel.opStep rfl fun _ => rel.step (inner entry mem_cons_self) fun _ => ?_
    exact rel.opStep rfl fun _ => ih _ fun later member => inner later (mem_cons_of_mem _ member)

theorem openSwitch (fit : φ → value.Each fits) (inner : ∀ branch ∈ branches, Kept R φ branch.body.code) :
    R φ (openSwitch value branches span) (Assembly.openSwitch (value.renumber ids) branches span) := by
  refine rel.step (rel.pushTerm fit span) fun _ => rel.bind rel.caseTests fun s => ?_
  refine rel.under ?_
  have ending (stop : Label) (default : Termination) : Kept R φ (do
      emit (.jump stop) span
      let termination ← Assembly.caseBodies stop default (Assembly.caseTests branches s).1
      emit (.mark stop) span
      return termination : Assemble Termination) := by
    refine rel.opStep rfl fun _ => rel.step (rel.caseBodies stop default fun _ member => ?_) fun _ => ?_
    · exact inner _ (mem_caseTests member)
    · exact rel.opStep rfl fun _ => rel.done _
  refine rel.opStep rfl fun _ => rel.step rel.newLabel fun stop => ?_
  split
  next branch found =>
    exact rel.step (inner branch (mem_reverse.mp (mem_of_find?_eq_some found))) fun _ => ending stop _
  next => exact rel.step (rel.done _) fun _ => ending stop _

theorem constantMatches : Kept R φ (constantMatches value looked) := by
  cases looked with
  | single e => exact rel.constantThen (rel.caseConstant e) (isConstant_caseConstant e) fun _ _ => rel.done _
  | range start stop =>
    refine rel.constantThen (rel.rangeBound start _) (isConstant_rangeBound start) fun _ _ => ?_
    refine rel.constantThen (rel.rangeBound stop _) (isConstant_rangeBound stop) fun _ _ => ?_
    split <;> exact rel.done _

theorem matchesAny (value : Term) (values : List CaseValue) : Kept R φ (matchesAny value values) := by
  induction values with
  | nil => exact rel.done _
  | cons _ _ ih => exact rel.step rel.constantMatches fun _ => rel.step ih fun _ => rel.done _

theorem matchingCase? (value : Term) (index : Nat) (branches : List Branch) :
    Kept R φ (matchingCase? value index branches) := by
  induction branches generalizing index with
  | nil => exact rel.done _
  | cons _ _ ih =>
    unfold Assembly.matchingCase?
    split
    · exact ih (index + 1)
    refine rel.step (rel.matchesAny value _) fun _ => ?_
    split
    · exact rel.done _
    · exact ih (index + 1)

theorem onlyCase (selected? : Option Nat) (index : Nat) (known : Termination)
    (inner : ∀ branch ∈ branches, Kept R φ branch.body.code) :
      Kept R φ (onlyCase selected? index known branches) := by
  induction branches generalizing index known with
  | nil => exact rel.done _
  | cons branch rest ih =>
    have others (known : Termination) : Kept R φ (Assembly.onlyCase selected? (index + 1) known rest) :=
      ih _ _ fun later member => inner later (mem_cons_of_mem _ member)
    unfold Assembly.onlyCase
    split
    · exact rel.step (inner branch mem_cons_self) others
    · exact rel.step (rel.report _) fun _ => others known

theorem switch {value : Expr} (inner : ∀ branch ∈ branches, Kept R φ branch.body.code)
    : Kept R φ (switch value branches span) := by
  refine rel.andThen (rel.resolve value none) fun _ term _ => ?_
  have inner (branch) (member : branch ∈ branches) : R (φ ∧ Numbered.AllFit fits term)
    branch.body.code branch.body.code := rel.under (inner branch member)
  rw [numbered_term, term.isConstant_renumber]
  by_cases constant : term.isConstant
  · rw [if_pos constant, if_pos constant, term.renumber_of_isConstant ids constant]
    exact rel.lift (rel.step (rel.matchingCase? term 0 branches) fun _ => rel.onlyCase _ _ _ inner)
  · rw [if_neg constant, if_neg constant]
    exact rel.lift (rel.openSwitch (fun holds => holds.2 term mem_cons_self) inner)

end Congruence

end DreamMaker.Assembly
