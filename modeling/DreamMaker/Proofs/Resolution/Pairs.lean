import DreamMaker.Proofs.Resolution.Expressions

/-!
Two runs of binding names, on trees that differ in the ids of global vars and in verbs, make the same reports and,
apart from the ids, the same terms, to which the expressions can be bound.
-/

namespace DreamMaker

variable {context' : Context} {ids : Nat → Nat} {mild : Report → Prop} [Numbered α] [Numbered β]

namespace Resolve

/-- How two runs go: they add the same reports and come to the same end. -/
structure Meets (ids : Nat → Nat) (mild : Report → Prop) (holds : α → Prop) (before before' found : Array Report)
    (one two : Except SemanticError α × Array Report) : Prop where
  reports : one.2 = before ++ found
  reports' : two.2 = before' ++ found
  renumbered : two.1 = Numbered.renumber ids one.1
  cause : ∀ error, one.1 = .error error → ∀ name, error.cause ≠ .unknownLabel name
  holds : ∀ a, one.1 = .ok a → (∀ report ∈ found, mild report) → holds a

def Runs (ids : Nat → Nat) (mild : Report → Prop) (holds : α → Prop) (x y : Resolve α) : Prop :=
  ∀ before before', ∃ found, Meets ids mild holds before before' found (x before) (y before')

namespace Runs

theorem pure {holds : α → Prop} (here : holds a) :
    Runs ids mild holds (Pure.pure a) (Pure.pure (Numbered.renumber ids a)) := by
  refine fun _ _ => ⟨#[], Array.append_empty.symm, Array.append_empty.symm, rfl, nofun, ?_⟩
  rintro _ ⟨⟩ _
  exact here

theorem fail {holds : α → Prop} (span : Span) (other : ∀ name, cause ≠ .unknownLabel name) :
    Runs ids mild holds (Resolve.fail cause span) (Resolve.fail cause span) := by
  refine fun _ _ => ⟨#[], Array.append_empty.symm, Array.append_empty.symm, rfl, ?_, nofun⟩
  rintro _ ⟨⟩
  exact other

theorem report (report : Report) :
    Runs ids mild (fun _ => mild report) (Resolve.report report) (Resolve.report report) :=
  fun _ _ => ⟨#[report], rfl, rfl, rfl, nofun, fun _ _ told => told report (by simp)⟩

theorem mono {holds' : α → Prop} (here : Runs ids mild holds x y) (weaker : ∀ a, holds a → holds' a) :
    Runs ids mild holds' x y := by
  intro before before'
  obtain ⟨found, meets⟩ := here before before'
  exact ⟨found, { meets with holds := fun a run told => weaker a (meets.holds a run told) }⟩

theorem next {first : α → Prop} {second : β → Prop} (here : Runs ids mild first x y)
    (there : ∀ a, (∃ before, (x before).1 = .ok a) →
      Runs ids mild (fun b => first a → second b) (f a) (g (Numbered.renumber ids a))) :
    Runs ids mild second (x >>= f) (y >>= g) := by
  intro before before'
  obtain ⟨found, reports, reports', renumbered, cause, holds⟩ := here before before'
  rw [Run.bind_eq, Run.bind_eq]
  rcases run : x before with ⟨result, after⟩
  rcases run' : y before' with ⟨_, after'⟩
  rw [run] at reports cause holds
  rw [run'] at reports'
  rw [run, run'] at renumbered
  cases result with
  | error error =>
    cases renumbered
    exact ⟨found, reports, reports', rfl, fun _ same => cause _ (by cases same; rfl), nofun⟩
  | ok a =>
    cases renumbered
    obtain ⟨more, meets⟩ := there a ⟨before, by rw [run]⟩ after after'
    refine ⟨found ++ more, ?_, ?_, meets.renumbered, meets.cause, fun b run told => ?_⟩
    · rw [meets.reports, ← Array.append_assoc, ← reports]
    · rw [meets.reports', ← Array.append_assoc, ← reports']
    · exact meets.holds b run (fun report added => told report (Array.mem_append_right _ added))
        (holds a rfl fun report added => told report (Array.mem_append_left _ added))

theorem congruence : Congruence ids mild fun holds x y => Runs ids mild holds x y where
  pure := .pure
  fail := .fail
  report := .report
  mono := .mono
  next := .next

end Runs

end Resolve

open Resolve

/-- Names stand for the same in both contexts, apart from the ids of global vars. -/
structure Context.Paired (ids : Nat → Nat) (context context' : Context) : Prop
    extends context.Renumbered ids context' where
  visibility : context'.visibility = context.visibility
  path : context'.frame?.map Frame.path = context.frame?.map Frame.path
  locals (name : String) : context'.local? name = context.local? name
  globals (name : String) : context'.global? name = (context.global? name).map (GlobalVar.renumber ids)
  constant {name : String} {var : Local} {constant : Term} :
    context.local? name = some var → var.constant? = some constant → constant.renumber ids = constant

namespace Context.Paired

theorem refl (context : Context) : context.Paired id context where
  types := .refl _
  owner := rfl
  globalVars owner name := by cases context.tree.globalVar? owner name <;> rfl
  visibility := rfl
  path := rfl
  locals _ := rfl
  globals name := by cases context.global? name <;> rfl
  constant _ _ := Term.renumber_id _

variable {context : Context} (paired : context.Paired ids context')

include paired

theorem fieldOf (name : String) : context'.field? name = context.field? name := by
  unfold Context.field?
  rw [paired.visibility, paired.owner, paired.types.field?]

theorem isConstLocal (target : Expr) : context'.isConstLocal target = context.isConstLocal target := by
  unfold Context.isConstLocal
  rcases target.name? with _ | _
  · rfl
  · dsimp only
    rw [paired.locals]

theorem isConstField (place : Term) : context'.isConstField (place.renumber ids) = context.isConstField place := by
  rcases place with ⟨form, _, _, _⟩
  cases form with
  | var bound =>
    cases bound with
    | field name =>
      show ((context'.tree.field? context'.owner name).map Field.isConst).getD false = _
      rw [paired.types.field?, paired.owner]
      rfl
    | «local» | global | initial => rfl
  | _ => rfl

theorem frame?_isNone : context'.frame?.isNone = context.frame?.isNone := by
  have paths := congrArg Option.isNone paired.path
  rwa [Option.isNone_map, Option.isNone_map] at paths

theorem declared (name : String) (span : Span) :
    Runs ids mild (context.Names name) (context.declared name span) (context'.declared name span) := by
  unfold Context.declared
  rw [paired.locals, paired.fieldOf, paired.globals]
  rcases found : context.local? name with _ | ⟨_, _, _, constant?⟩
  · rcases known : context.field? name with _ | _
    · rcases held : context.global? name with _ | _
      · exact .fail _ nofun
      · exact .pure (.global held)
    · dsimp only [Option.map_none]
      rw [paired.owner]
      exact Runs.congruence.bind (Runs.congruence.useField _ _ _) fun _ => .pure fun _ => .field known
  · rcases constant? with _ | constant
    · exact .pure (.local found rfl)
    have same : Numbered.renumber ids (constant.withSpan span) = constant.withSpan span := by
      rcases constant with ⟨form, constantType?, fuzzy, _⟩
      have form := congrArg Term.form (paired.constant found rfl)
      exact congrArg (Term.mk · constantType? fuzzy span) form
    have given : Runs ids mild (context.Names name) (Pure.pure (constant.withSpan span)) _ :=
      .pure (.constant found rfl)
    rwa [same] at given

theorem name (inferred? : Option TypePath) (name : String) (span : Span) :
    Runs ids mild (context.Names name) (context.name inferred? name span) (context'.name inferred? name span) := by
  unfold Context.name Context.reserved?
  rw [paired.owner, paired.visibility]
  split
  case h_4 =>
    split
    · exact .pure (.ambient rfl)
    · exact paired.declared _ _
  case h_5 => exact .fail _ nofun
  case h_7 =>
    have paths := paired.path
    rcases here : context.frame? with _ | frame <;> rcases there : context'.frame? with _ | frame' <;>
      rw [here, there] at paths
    · exact .fail _ nofun
    · cases paths
    · cases paths
    · have path : frame'.path = frame.path := Option.some.inj paths
      dsimp only [Option.getD_some]
      rw [path]
      exact .pure .atom
  case h_8 => exact Runs.congruence.bind (Runs.congruence.infer _ _) fun _ => .pure fun _ => .atom
  case h_9 => exact paired.declared _ _
  all_goals first | exact .pure (.ambient rfl) | exact .pure .atom

theorem procTarget (span : Span) (target : CallTarget) : Runs ids mild (fun target => ∀ name, target = .src name →
    context.visibility.seesInstance) (context.procTarget span target) (context'.procTarget span target) := by
  cases target with
  | named name =>
    simp only [Context.procTarget, paired.visibility, paired.owner, paired.types.hasProc, paired.types.hasGlobalProc]
    split
    · next both => exact .pure fun _ _ => (Bool.and_eq_true_iff.1 both).1
    · split
      · exact .pure nofun
      · exact .fail _ nofun
  | self | parent =>
    simp only [Context.procTarget, paired.frame?_isNone]
    split
    · exact .fail _ nofun
    · exact .pure nofun

theorem writable (target : Expr) (place : Term) :
    Runs ids mild (fun writes => if writes then context.Writes target place
      else mild (.located .writeToConstant target.span "Cannot change constant value"))
    (context.writable target place) (context'.writable target (place.renumber ids)) := by
  unfold Context.writable
  rw [paired.isConstLocal, paired.isConstField, place.isPlace_renumber]
  split
  · exact Runs.congruence.bind (.report _) fun _ => .pure id
  next constant =>
  obtain ⟨noLocal, noField⟩ := Bool.or_eq_false_iff.1 (Bool.eq_false_iff.2 constant)
  split
  · next isPlace => exact .pure ⟨noLocal, noField, isPlace⟩
  · exact .fail _ nofun

theorem globalField (name : String) (span : Span) :
    Runs ids mild (context.Roots name) (context.globalField name span) (context'.globalField name span) := by
  unfold Context.globalField
  by_cases isVars : name = "vars"
  · subst isVars
    exact .pure .vars
  rw [if_neg isVars, if_neg isVars, paired.globalVars, paired.visibility]
  rcases found : context.tree.globalVar? .root name with _ | _
  · exact .fail _ nofun
  dsimp only [Option.map_some]
  split
  · next sees => exact .pure (.var sees found)
  · exact .fail _ nofun

theorem steps : Steps ids mild (fun holds x y => Runs ids mild holds x y) context context' where
  toCongruence := Runs.congruence
  types := paired.types
  owner := paired.owner
  globalVars := paired.globalVars
  name := paired.name
  procTarget := paired.procTarget
  writable := paired.writable
  globalField := paired.globalField

/-- Two runs of binding names in a whole expression go in pairs, as their steps do. -/
theorem runs_expr (mild : Report → Prop) (e : Expr) (inferred? : Option TypePath) :
    Runs ids mild (Resolution.Binds context mild e) (e.resolve context inferred?) (e.resolve context' inferred?) :=
  paired.steps.runs_expr inferred? e

theorem runs_constant (mild : Report → Prop) :
    Runs ids mild (Resolution.Binds context mild e) (e.resolveConstant context inferred?)
      (e.resolveConstant context' inferred?) := by
  refine Runs.congruence.bind (paired.runs_expr mild e inferred?) fun term => ?_
  rw [show (Numbered.renumber ids term).isConstant = term.isConstant from term.isConstant_renumber _]
  split
  · exact .pure id
  · exact .fail _ nofun

end Context.Paired

/-- What an expression is bound to in a run. -/
theorem Expr.resolve_binds
    (run : (e.resolve context inferred?).run.run before = (.ok term, after)) (mild : Report → Prop)
    (reported : ∀ report ∈ after, mild report) : Resolution.Binds context mild e term := by
  obtain ⟨found, meets⟩ := (Context.Paired.refl context).runs_expr mild e inferred? before before
  have here := run
  have reports : after = before ++ found := (congrArg Prod.snd here).symm.trans meets.reports
  refine meets.holds term (congrArg Prod.fst here) fun report added => reported report ?_
  rw [reports]
  exact Array.mem_append_right _ added

end DreamMaker
