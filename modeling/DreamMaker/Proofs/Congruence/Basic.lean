import DreamMaker.Code.Compile
import DreamMaker.Proofs.Run
import DreamMaker.Proofs.Term.Parts

/-!
What holds of every step of compiling holds of compiling a whole proc. The statement is about two runs at once, whose
terms differ in the ids of global vars, and about what the terms of the first one are made of.
-/

namespace DreamMaker

open Numbered

namespace Op

/-- Gives the global vars in an operation other ids. -/
def renumber (ids : Nat → Nat) : Op → Op
  | .push value => .push (value.renumber ids)
  | .assign target => .assign (target.renumber ids)
  | .enumerate target exit => .enumerate (target.renumber ids) exit
  | .tryStart handler binder? => .tryStart handler (Term.renumberOption ids binder?)
  | .input source target => .input (source.renumber ids) (target.renumber ids)
  | op => op

/-- What an operation stores a value into that is no more than stored. -/
def stored? : Op → Option Term
  | .assign target => some target
  | .tryStart _ binder? => binder?
  | _ => none

/-- The terms of an operation are made of what fits, and it stores values into locals only. -/
structure Fits (fits : Term.Form → Prop) (op : Op) : Prop where
  operands : ∀ term ∈ op.operands, term.Each fits
  stored : ∀ target ∈ op.stored?, ∃ name id, target.form = .var (.local name id)

theorem renumber_id (op : Op) : op.renumber id = op := by
  cases op with
  | push value => exact congrArg push value.renumber_id
  | assign target => exact congrArg assign target.renumber_id
  | enumerate target exit => exact congrArg (enumerate · exit) target.renumber_id
  | tryStart handler binder? => exact congrArg (tryStart handler) (Term.renumberOption_id binder?)
  | input source target => rw [renumber, source.renumber_id, target.renumber_id]
  | _ => rfl

theorem stores_nothing {op : Op} (bare : op.operands = []) (ids : Nat → Nat) :
    op.stored? = none ∧ op.renumber ids = op := by
  cases op with
  | push | assign | enumerate | input => cases bare
  | tryStart _ binder? =>
    cases binder? with
    | none => exact ⟨rfl, rfl⟩
    | some => cases bare
  | _ => exact ⟨rfl, rfl⟩

end Op

namespace Numbered

/-- There is nothing in it that has an id. -/
class Plain (α : Type) [Numbered α] : Prop where
  renumber_eq (ids : Nat → Nat) (a : α) : renumber ids a = a
  terms_eq (a : α) : terms a = []

theorem allFit_plain [Numbered α] [Plain α] {a : α} : AllFit fits a := by
  rw [AllFit, Plain.terms_eq]
  nofun

instance (α : Type) : @Plain α (plain α) := ⟨fun _ _ => rfl, fun _ => rfl⟩

instance {ε α : Type} [Numbered α] [Plain α] : Plain (Except ε α) where
  renumber_eq ids result := by
    cases result with
    | error => rfl
    | ok a => exact congrArg Except.ok (Plain.renumber_eq ids a)
  terms_eq result := by
    cases result with
    | error => rfl
    | ok a => exact Plain.terms_eq a

end Numbered

theorem numbered_term (term : Term) : renumber ids term = term.renumber ids := rfl

namespace Assembly

/-- What steps share with what is around them: types, names, operations and reports. -/
def withShared (s : Assembly) (shared : Assembly) : Assembly :=
  { s with tree := shared.tree, frame := shared.frame, reports := shared.reports, ops := shared.ops,
           config := shared.config }

/-- A relation between two steps, as far as something holds. -/
abbrev Relation := Prop → {α : Type} → [Numbered α] → (Assembly → α × Assembly) →
    (Assembly → α × Assembly) → Prop

/-- A step that is related to itself. -/
abbrev Kept (R : Relation) (φ : Prop) {α : Type} [Numbered α] (x : Assembly → α × Assembly) : Prop := R φ x x

/-- A relation that steps keep which are made of others. -/
structure Congruence (ids : Nat → Nat) (fits : Term.Form → Prop) (R : Relation) : Prop where
  neutral (form : Term.Form) : form.isNeutral → fits form
  weaken {φ ψ : Prop} (holds : ψ → φ) {α : Type} [Numbered α]
    {x y : Assembly → α × Assembly} (related : R φ x y) :
    R ψ x y
  pure {α : Type} [Numbered α] (a : α) (fit : φ → Numbered.AllFit fits a) :
    R φ (Pure.pure a : Assemble α) (Pure.pure (renumber ids a) : Assemble α)
  /-- What the first step gives may be taken to fit. -/
  bind {α β : Type} [Numbered α] [Numbered β] {x y : Assemble α} {f g : α → Assemble β}
    (first : R φ x y)
    (rest : ∀ s, R (φ ∧ Numbered.AllFit fits (x s).1) (f (x s).1)
      (g (renumber ids (x s).1))) : R φ (x >>= f) (y >>= g)
  /-- A step that has to do only with labels, loops and attributes. -/
  flow {α : Type} [Numbered α] [Numbered.Plain α] {x : Assembly → α × Assembly}
    (apart : ∀ s shared, x (s.withShared shared) = ((x s).1, (x s).2.withShared shared)) : Kept R φ x
  /-- A step that goes by labels, loops and attributes only. -/
  look {β : Type} [Numbered β] {f : Assembly → Assemble β}
    (apart : ∀ s shared, f (s.withShared shared) = f s) (rest : ∀ s, Kept R φ (f s)) : Kept R φ
      (get >>= f : Assemble β)
  hasType {β : Type} [Numbered β] (path : TypePath) {yes no : Assemble β}
    (has : Kept R φ yes) (lacks : Kept R φ no) :
    Kept R φ (get >>= fun s => if s.tree.hasType path then yes else no : Assemble β)
  report (report : Report) : Kept R φ (Assembly.report report)
  protected emit {op : Op} (fit : φ → op.Fits fits) (span : Span) :
    R φ (emit op span) (emit (op.renumber ids) span)
  resolve (e : Expr) (inferred? : Option TypePath) : Kept R φ (resolve e inferred?)
  resolveConstant (e : Expr) : Kept R φ (resolving fun context => e.resolveConstant context none)
  openScope : Kept R φ (modify fun s => { s with frame := s.frame.openScope } : Assemble Unit)
  closeScope : Kept R φ (modify fun s => { s with frame := s.frame.closeScope } : Assemble Unit)
  /-- A local that is declared may be used. -/
  declare {β : Type} [Numbered β] (name : String) (type? : Option TypePath)
    {f g : Option Local → Assemble β} (refused : R φ (f none) (g none))
    (declared : ∀ id, R (φ ∧ fits (.var (.local name id))) (f (some { name, id, type?, constant? := none }))
      (g (some { name, id, type?, constant? := none }))) :
    R φ (declare? name type? none >>= f) (declare? name type? none >>= g)
  declareConst {β : Type} [Numbered β] (name : String) (type? : Option TypePath) {constant : Term}
    (known : constant.isConstant) {f g : Option Local → Assemble β} (rest : ∀ var?, R φ (f var?) (g var?)) :
    R φ (declare? name type? (some constant) >>= f) (declare? name type? (some constant) >>= g)
  bindLocal (name : String) (type? : Option TypePath) (span : Span) (missing : SemanticError.Cause) :
    Kept R φ (bindLocal name type? span missing)
  refuseSetting (setting : Setting) (reported : Kept R φ (reportSetting setting .lenientSet))
    (applied : ∀ value, Kept R φ (applySetting setting value .lenientSet)) : Kept R φ (refuseSetting setting)
  registerGlobal (name : String) (type? : Option TypePath) (value? : Option Expr) :
    Kept R φ (modify fun s =>
      let (id, tree) := s.tree.registerGlobal s.frame.path name type? value?
      { s with tree, frame := s.frame.addGlobal name id } : Assemble Unit)

/-! Locals. -/

/-- The same proc with one more local in the innermost scope. -/
def withLocal (s : Assembly) (var : Local) : Assembly :=
  { s with frame := { s.frame with scope := var :: s.frame.scope, locals := var :: s.frame.locals } }

section Locals

theorem declare?_taken (taken : s.frame.scope.any (·.name == name)) :
    declare? name type? constant? s = (none, s) := by
  rw [declare?, Run.modifyGet_eq, Frame.declare, if_pos taken]

theorem declare?_free (free : ¬s.frame.scope.any (·.name == name)) :
    declare? name type? constant? s = (some { name, id := s.frame.locals.length, type?, constant? },
      s.withLocal { name, id := s.frame.locals.length, type?, constant? }) := by
  rw [declare?, Run.modifyGet_eq, Frame.declare, if_neg free]
  rfl

end Locals

/-- Takes the local that has a name, which is reported. -/
def reuseLocal (name : String) (span : Span) (missing : SemanticError.Cause) : Attempt Term := do
  duplicateVar name span
  match (← get).frame.local? name with
  | some var => return .localVar name var.id var.type? span
  | none => fail missing span

/-- A local is bound by declaring it, or by taking the one that has its name. -/
theorem bindLocal_eq :
    bindLocal name type? span missing = (declare? name type? none >>= fun var? => ExceptT.run (match var? with
      | some var => Pure.pure (.localVar name var.id type? span)
      | none => reuseLocal name span missing : Attempt Term) : Assemble (Except SemanticError Term)) :=
  rfl

theorem reuseLocal_run : reuseLocal name span missing s = (match s.frame.local? name with
      | some var => .ok (.localVar name var.id var.type? span) | none =>
        .error { cause :=missing, span }, (duplicateVar name span s).2) := by
  show (match s.frame.local? name with
    | some var => Pure.pure (.localVar name var.id var.type? span)
    | none => fail missing span : Attempt Term) (duplicateVar name span s).2 = _
  cases s.frame.local? name <;> rfl

/-- What a loop or a handler sets is a local. -/
theorem isLocal_of_bindLocal (bound : (bindLocal name type? span missing s).1 = .ok term) :
    ∃ name id, term.form = .var (.local name id) := by
  rw [bindLocal_eq, Run.state_bind] at bound
  cases declared : (declare? name type? none s).1 with
  | some var =>
    rw [declared] at bound
    cases bound
    exact ⟨_, _, rfl⟩
  | none =>
    rw [declared] at bound
    change (reuseLocal name span missing _).1 = _ at bound
    rw [reuseLocal_run] at bound
    cases found : (declare? name type? none s).2.frame.local? name with
    | none =>
      rw [found] at bound
      cases bound
    | some var =>
      rw [found] at bound
      cases bound
      exact ⟨_, _, rfl⟩

namespace Congruence

variable (rel : Congruence ids fits R) [Numbered α] [Numbered β] {x y : Attempt α}

include rel

theorem under {x y : Assembly → α × Assembly} (related : R φ x y) : R (φ ∧ ψ) x y :=
  rel.weaken And.left related

/-- Data without ids is passed on as it is. -/
theorem step [Numbered.Plain α] {x y : Assemble α} {g : α → Assemble β} (first : R φ x y)
    (rest : ∀ a, R φ (f a) (g a)) :
    R φ (x >>= f) (y >>= g) := by
  refine rel.bind first fun _ => ?_
  rw [Numbered.Plain.renumber_eq]
  exact rel.under (rest _)

theorem done [Numbered.Plain α] (a : α) : Kept R φ (Pure.pure a : Assemble α) := by
  have same : R φ (Pure.pure a : Assemble α) (Pure.pure (renumber ids a) : Assemble α) :=
    rel.pure a fun _ => allFit_plain
  rwa [Numbered.Plain.renumber_eq] at same

theorem modify (apart : ∀ s shared, f (s.withShared shared) = (f s).withShared shared) :
    R φ (modify f : Assemble Unit) (MonadState.modifyGet fun s => ((), f s) : Assemble Unit) :=
  rel.flow fun s shared => congrArg (Prod.mk ()) (apart s shared)

theorem forM {f : γ → Assemble Unit} (each : ∀ c, Kept R φ (f c)) (values : List γ) :
    Kept R φ (values.forM f) := by
  induction values with
  | nil => exact rel.done ()
  | cons value values ih => exact rel.step (each value) fun _ => ih

/-! Steps that may fail. -/

theorem lift {x y : Assemble α} (first : R φ x y) : R φ (liftM x : Attempt α) (liftM y : Attempt α) := by
  have passed : R φ (x >>= fun a => Pure.pure (Except.ok a) : Assemble (Except SemanticError α))
      (y >>= fun a => Pure.pure (Except.ok a) : Assemble (Except SemanticError α)) :=
    rel.bind first fun _ => rel.pure (Except.ok _) And.right
  exact passed

theorem andThen {f g : α → Attempt β} (first : R φ x y)
    (rest : ∀ s a, (x s).1 = .ok a → R (φ ∧ Numbered.AllFit fits a) (f a)
      (g (renumber ids a))) : R φ (x >>= f) (y >>= g) := by
  have passed : R φ (x.run >>= ExceptT.bindCont f) (y.run >>= ExceptT.bindCont g) := by
    refine rel.bind first fun s => ?_
    cases given : (x.run s).1 with
    | ok a => exact rest s a given
    | error error => exact rel.pure (Except.error error) nofun
  exact passed

theorem stepThen [Numbered.Plain α] {g : α → Attempt β} (first : R φ x y)
    (rest : ∀ a, R φ (f a) (g a)) : R φ (x >>= f) (y >>= g) := by
  refine rel.andThen first fun _ a _ => ?_
  rw [Numbered.Plain.renumber_eq]
  exact rel.under (rest a)

theorem liftThen [Numbered.Plain α] {x y : Assemble α} (first : R φ x y) (rest : ∀ a, R φ (f a) (g a)) :
    R φ (liftM x >>= f : Attempt β) (liftM y >>= g : Attempt β) :=
  rel.stepThen (rel.lift first) rest

theorem give (a : α) (fit : φ → Numbered.AllFit fits a) :
    R φ (Pure.pure a : Attempt α) (Pure.pure (renumber ids a) : Attempt α) :=
  rel.pure (Except.ok a) fit

theorem giveDone [Numbered.Plain α] (a : α) : Kept R φ (Pure.pure a : Attempt α) :=
  rel.done (Except.ok a)

theorem fail : Kept R φ (fail cause span : Attempt α) :=
  rel.pure (Except.error { cause, span } : Except SemanticError α) nofun

/-- Behind an error nothing is done. -/
theorem failThen (f g : γ → Attempt α) :
    R φ (Assembly.fail cause span >>= f : Attempt α) (Assembly.fail cause span >>= g : Attempt α) := by
  have failed : Kept R φ (Assembly.fail cause span : Attempt α) := rel.fail
  exact failed

theorem lookThen (apart : ∀ s shared, f (s.withShared shared) = f s)
    (rest : ∀ s, Kept R φ (f s)) : Kept R φ (get >>= f : Attempt β) := by
  have passed := rel.look apart rest
  exact passed

theorem hasTypeThen {yes no : Attempt β} (has : Kept R φ yes) (lacks : Kept R φ no) :
    Kept R φ (get >>= fun s => if s.tree.hasType path then yes else no : Attempt β) := by
  have passed := rel.hasType path has lacks
  exact passed

theorem declareThen (refused : R φ (f none) (g none))
    (declared : ∀ id, R (φ ∧ fits (.var (.local name id))) (f (some { name, id, type?, constant? := none }))
      (g (some { name, id, type?, constant? := none }))) :
    R φ (liftM (declare? name type? none) >>= f : Attempt β)
      (liftM (declare? name type? none) >>= g : Attempt β) := by
  have passed := rel.declare name type? refused declared
  exact passed

theorem declareConstThen (known : constant.isConstant) (rest : ∀ var?, R φ (f var?) (g var?)) :
    R φ (liftM (declare? name type? (some constant)) >>= f : Attempt β)
      (liftM (declare? name type? (some constant)) >>= g : Attempt β) := by
  have passed := rel.declareConst name type? known rest
  exact passed

/-- What comes of a step, whether it fails or not. -/
theorem run_bind {g : Except SemanticError α → Assemble β} (first : R φ x y)
    (failed : ∀ error, R φ (f (.error error)) (g (.error error)))
    (rest : ∀ a, R (φ ∧ Numbered.AllFit fits a) (f (.ok a))
      (g (.ok (renumber ids a)))) : R φ (x.run >>= f) (y.run >>= g) := by
  refine rel.bind first fun s => ?_
  cases given : (x.run s).1 with
  | ok a => exact rest a
  | error error => exact rel.under (failed error)

theorem orElse (first : R φ x y)
    (rest : ∀ error, R φ (f error) (g error)) : R φ (tryCatch x f) (tryCatch y g) := by
  have unfolded (x : Attempt α) (f : SemanticError → Attempt α) : (tryCatch x f : Attempt α) =
      (x.run >>= fun result => match result with
        | .ok a => Pure.pure (Except.ok a)
        | .error error => (f error).run : Assemble (Except SemanticError α)) := by
    funext s
    rw [Run.tryCatch_eq]
    show _ = (match (x s).1 with
      | .ok a => Pure.pure (Except.ok a)
      | .error error => (f error).run : Assemble (Except SemanticError α)) (x s).2
    rcases x s with ⟨_ | a, s'⟩ <;> rfl
  rw [unfolded x f, unfolded y g]
  exact rel.run_bind first rest fun a => rel.pure (Except.ok a) And.right

/-! Operations. -/

/-- An operation without terms. -/
theorem op {op : Op} (bare : op.operands = []) : Kept R φ (emit op span) := by
  obtain ⟨stores, same⟩ := Op.stores_nothing bare ids
  have fit : op.Fits fits := ⟨by rw [bare]; nofun, by rw [stores]; nofun⟩
  have emitted : R φ (emit op span) (emit (op.renumber ids) span) := rel.emit (fun _ => fit) span
  rwa [same] at emitted

theorem opStep {op : Op} {g : Unit → Assemble β} (bare : op.operands = [])
    (rest : ∀ a, R φ (f a) (g a)) : R φ (emit op span >>= f) (emit op span >>= g) :=
  rel.step (rel.op bare) rest

theorem opThen {op : Op} (bare : op.operands = []) (rest : ∀ a, R φ (f a) (g a)) :
    R φ (liftM (emit op span) >>= f : Attempt β) (liftM (emit op span) >>= g : Attempt β) :=
  rel.liftThen (rel.op bare) rest

theorem pushTerm (fit : φ → value.Each fits) (span : Span) :
    R φ (emit (.push value) span) (emit (.push (value.renumber ids)) span) := by
  refine rel.emit (fun holds => ?_) span
  exact ⟨List.forall_mem_singleton.2 (fit holds), fun _ held => by cases held⟩

/-- What a step has given is pushed. -/
theorem pushGiven : R (φ ∧ Numbered.AllFit fits value) (emit (.push value) span)
      (emit (.push (renumber ids value)) span) :=
  rel.pushTerm (fun holds => holds.2 value List.mem_cons_self) span

theorem pushAtom {value : Atom} {place : Span} : Kept R φ (emit (.push (.plain (.atom value) place)) span) := by
  have fit : (Term.plain (.atom value) place).Each fits := Term.each_mk.2 ⟨rel.neutral _ rfl, List.forall_mem_nil _⟩
  exact rel.pushTerm (fun _ => fit) span

theorem assignLocal (fit : φ → target.Each fits) (isLocal : ∃ name id, target.form = .var (.local name id)) :
    R φ (emit (.assign target) span) (emit (.assign (target.renumber ids)) span) := by
  refine rel.emit (fun holds => ?_) span
  exact ⟨List.forall_mem_singleton.2 (fit holds), by rintro _ ⟨⟩; exact isLocal⟩

/-! Names and scopes. -/

theorem resolveOption : Kept R φ (resolveOption e? inferred?) := by
  cases e? with
  | none => exact rel.give none nofun
  | some e => exact rel.andThen (rel.resolve e inferred?) fun _ term _ => rel.give (some term) And.right

theorem push {e : Expr} : Kept R φ (push e) :=
  rel.andThen (rel.resolve e none) fun _ _ _ => rel.lift rel.pushGiven

theorem settle {x : Attempt Termination} (inner : Kept R φ x) : Kept R φ (settle x) :=
  rel.run_bind inner (fun _ => rel.step (rel.report _) fun _ => rel.done _) fun termination => rel.done termination

theorem inScope [Numbered.Plain α] {x : Assemble α} (inner : Kept R φ x) (span : Span) :
    Kept R φ (inScope span x) := by
  refine rel.opStep rfl fun _ => rel.step rel.openScope fun _ => rel.step inner fun result => ?_
  exact rel.step rel.closeScope fun _ => rel.opStep rfl fun _ => rel.done result

theorem tryInScope [Numbered.Plain α] (inner : Kept R φ x) (span : Span) : Kept R φ (tryInScope span x) := by
  have passed := rel.inScope inner span
  exact passed

theorem newLabel : Kept R φ newLabel := rel.flow fun _ _ => rfl

/-! Attributes. -/

theorem reportSetting : Kept R φ (reportSetting setting topic) :=
  rel.forM (fun _ => rel.report _) _

theorem applySetting : Kept R φ (applySetting setting value topic) := by
  refine rel.look (fun _ _ => rfl) fun s => ?_
  cases s.settings.apply setting.name value setting.span with
  | error error => exact rel.report _
  | ok _ => exact rel.step rel.reportSetting fun _ => rel.modify fun _ _ => rfl

theorem runSetting (setting : Setting) : Kept R φ (runSetting setting) := by
  unfold Assembly.runSetting
  split
  · exact rel.report _
  split
  case' isFalse.isTrue => refine rel.step (rel.report _) fun _ => ?_
  all_goals
    refine rel.run_bind (rel.resolve _ _) (fun _ => rel.report _) fun value => ?_
    dsimp only
    rw [numbered_term, value.isConstant_renumber]
    by_cases constant : value.isConstant
    · rw [if_pos constant, if_pos constant, value.renumber_of_isConstant ids constant]
      exact rel.applySetting
    · rw [if_neg constant, if_neg constant]
      exact rel.refuseSetting setting rel.reportSetting fun value => rel.applySetting

end Congruence

end Assembly

end DreamMaker
