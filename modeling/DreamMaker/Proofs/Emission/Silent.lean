import DreamMaker.Proofs.Code.Marks
import DreamMaker.Proofs.Resolution.Reports

namespace DreamMaker.Assembly

variable {α : Type} {x : Assemble α}

/-- Reports are added, and none is taken back. -/
def Keeps (s s' : Assembly) : Prop := ∀ report ∈ s.reports, report ∈ s'.reports

theorem Keeps.refl (s : Assembly) : Keeps s s := fun _ member => member

theorem Keeps.trans (first : Keeps s s₁) (second : Keeps s₁ s₂) : Keeps s s₂ :=
  fun report member => second report (first report member)

/-- Nothing is emitted, and labels stay as they are. -/
structure Quiet (s s' : Assembly) : Prop where
  ops : s'.ops = s.ops
  marks : s'.marks = s.marks
  keeps : Keeps s s'

theorem Quiet.refl (s : Assembly) : Quiet s s := ⟨rfl, rfl, .refl s⟩

theorem Quiet.trans (first : Quiet s s₁) (second : Quiet s₁ s₂) : Quiet s s₂ :=
  ⟨second.ops.trans first.ops, second.marks.trans first.marks, first.keeps.trans second.keeps⟩

/-- A step that is quiet wherever it is taken. -/
def Silent (x : Assemble α) : Prop := ∀ s, Quiet s (x s).2

/-- The same for a step that may fail. It does not fail for want of a label. -/
structure SilentAttempt (x : Attempt α) : Prop where
  quiet : ∀ s, Quiet s (x s).2
  cause : ∀ s error, (x s).1 = .error error → ∀ name, error.cause ≠ .unknownLabel name

theorem Silent.pure (a : α) : Silent (Pure.pure a : Assemble α) := Quiet.refl

theorem Silent.bind (first : Silent x) (second : ∀ a, Silent (f a)) : Silent (x >>= f) :=
  fun s => (first s).trans (second _ _)

theorem Silent.get_bind (second : ∀ s, Silent (f s)) : Silent (get >>= f) :=
  fun s => second s s

theorem Silent.forM (each : ∀ a, Silent (f a)) (values : List α) : Silent (values.forM f) := by
  induction values with
  | nil => exact .pure ()
  | cons value _ ih => exact .bind (each value) fun _ => ih

theorem report_silent (r : Report) : Silent (report r) :=
  fun _ => ⟨rfl, rfl, fun _ member => Array.mem_push_of_mem _ member⟩

theorem discard_silent : Silent (discard span reason) := report_silent _

theorem SilentAttempt.pure (a : α) : SilentAttempt (Pure.pure a : Attempt α) where
  quiet := Quiet.refl
  cause _ _ failed := nomatch failed

theorem SilentAttempt.fail {cause : SemanticError.Cause}
    (other : ∀ name, cause ≠ .unknownLabel name) : SilentAttempt (fail cause span : Attempt α) where
  quiet := Quiet.refl
  cause s error failed := by
    have same : (⟨cause, span⟩ : SemanticError) = error := by
      simpa [Assembly.fail] using failed
    subst same
    exact other

theorem SilentAttempt.lift (silent : Silent x) : SilentAttempt (liftM x : Attempt α) where
  quiet s := silent s
  cause _ _ failed := nomatch failed

theorem SilentAttempt.bind {x : Attempt α} (first : SilentAttempt x)
    (second : ∀ a, SilentAttempt (f a)) : SilentAttempt (x >>= f) where
  quiet := Run.bind_rel Quiet.trans first.quiet fun a => (second a).quiet
  cause := Run.bind_cause first.cause fun a => (second a).cause

/-! Names and locals. -/

theorem resolving_silent {action : Context → Resolve α} (tame : ∀ context, (action context).Tame) :
    SilentAttempt (resolving action) where
  quiet s := ⟨rfl, rfl, (tame s.context).keeps s.reports⟩
  cause s error failed := (tame s.context).cause s.reports error failed

theorem resolve_silent (e : Expr) (inferred? : Option TypePath) : SilentAttempt (resolve e inferred?) :=
  resolving_silent fun _ => e.resolve_tame

theorem resolveOption_silent : SilentAttempt (resolveOption e? inferred?) := by
  cases e? with
  | none => exact .pure _
  | some e => exact .bind (resolve_silent e inferred?) fun _ => .pure _

theorem declare?_silent (name : String) (type? : Option TypePath) (constant? : Option Term) :
    Silent (declare? name type? constant?) := by
  intro s
  rw [declare?, Run.modifyGet_eq]
  split
  · exact ⟨rfl, rfl, .refl s⟩
  · exact .refl s

theorem bindLocal_silent
    (other : ∀ name, missing ≠ .unknownLabel name) : SilentAttempt (bindLocal name type? span missing) := by
  refine .bind (.lift (declare?_silent name type? none)) fun var? => ?_
  cases var? with
  | some var => exact .pure _
  | none =>
    refine .bind (.lift (report_silent _)) fun _ => .bind (.lift Quiet.refl) fun s => ?_
    cases s.frame.local? name with
    | some var => exact .pure _
    | none => exact .fail other

theorem loopVar_silent (binder : Expr) : SilentAttempt (loopVar binder) := by
  unfold loopVar
  split
  · exact bindLocal_silent nofun
  refine .bind (resolve_silent binder none) fun _ => ?_
  split
  · exact .pure _
  · exact .fail nofun

/-- A step that reports its failure and goes on. -/
theorem Silent.run_bind {x : Attempt α} (first : SilentAttempt x)
    (second : ∀ result, Silent (f result)) : Silent (x.run >>= f) :=
  fun s => (first.quiet s).trans (second _ _)

/-! Attributes. -/

theorem reportSetting_silent : Silent (reportSetting setting topic) :=
  .forM (fun _ => report_silent _) _

theorem applySetting_silent : Silent (applySetting setting value topic) := by
  refine .get_bind fun s => ?_
  split
  · exact report_silent _
  · exact .bind reportSetting_silent fun _ s => ⟨rfl, rfl, .refl s⟩

theorem refuseSetting_silent : Silent (refuseSetting setting) := by
  refine .bind (report_silent _) fun _ => .get_bind fun _ => ?_
  split
  · split
    · exact applySetting_silent
    · exact reportSetting_silent
  · exact report_silent _

theorem runSetting_silent (setting : Setting) : Silent (runSetting setting) := by
  have resolved (value : Term) :
      Silent (if value.isConstant then applySetting setting value .always else refuseSetting setting) := by
    split
    · exact applySetting_silent
    · exact refuseSetting_silent
  unfold runSetting
  split
  · exact report_silent _
  split
  refine .bind (report_silent _) fun _ => ?_
  all_goals
    refine .run_bind (resolve_silent _ _) fun result => ?_
    cases result with
    | error error => exact report_silent _
    | ok value => exact resolved value

theorem checkBlock_silent : Silent (checkBlock statements span) := by
  unfold checkBlock
  split
  · exact report_silent _
  · split
    · exact report_silent _
    · exact .pure ()

/-! Constants of cases. -/

theorem caseConstant_silent : Silent (caseConstant e) := by
  refine .run_bind (resolving_silent fun _ => e.resolveConstant_tame) fun result => ?_
  cases result with
  | ok _ => exact .pure _
  | error error => exact .bind (report_silent _) fun _ => .pure _

theorem rangeBound_silent : Silent (rangeBound e which) := by
  refine .bind caseConstant_silent fun _ => ?_
  split
  · exact .pure _
  · exact .bind (report_silent _) fun _ => .pure _
  · exact .bind (report_silent _) fun _ => .pure _

theorem constantMatches_silent : Silent (constantMatches value looked) := by
  cases looked with
  | single _ => exact .bind caseConstant_silent fun _ => .pure _
  | range _ _ =>
    refine .bind rangeBound_silent fun _ => .bind rangeBound_silent fun _ => ?_
    split <;> exact .pure _

theorem matchesAny_silent : Silent (matchesAny value values) := by
  induction values with
  | nil => exact .pure _
  | cons _ _ ih =>
    exact .bind constantMatches_silent fun _ => .bind ih fun _ => .pure _

theorem matchingCase?_silent (index : Nat) (branches : List Branch) :
    Silent (matchingCase? value index branches) := by
  induction branches generalizing index with
  | nil => exact .pure _
  | cons _ _ ih =>
    unfold matchingCase?
    split
    · exact ih (index + 1)
    refine .bind (matchesAny_silent) fun _ => ?_
    split
    · exact .pure _
    · exact ih (index + 1)

/-! Filters of loops over lists. -/

theorem listFilter?_silent : Silent (listFilter? binder types?) := by
  rcases types? with _ | types
  · exact .pure _
  show Silent (clauseFilter? types binder.span)
  simp only [clauseFilter?]
  rcases List.find? _ _ with _ | _
  · dsimp only
    split
    · exact .pure _
    · exact .bind (report_silent _) fun _ => .pure _
  · exact .pure _

end DreamMaker.Assembly
