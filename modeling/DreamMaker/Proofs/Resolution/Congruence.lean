import DreamMaker.Proofs.Resolution.Binding
import DreamMaker.Proofs.Run
import DreamMaker.Proofs.TypeTree.Verbs

/-!
What holds of every step of binding names holds of binding them in a whole expression. The statement is about two runs
at once, whose terms differ in the ids of global vars, and about what the first one gives.
-/

namespace DreamMaker

open Numbered

def GlobalVar.renumber (ids : Nat → Nat) (var : GlobalVar) : GlobalVar := { var with id := ids var.id }

/-- A relation between two ways of binding names that steps keep. What the first one gives may be known to fit, as
long as all reports are mild. Errors about labels are left out. -/
structure Resolve.Congruence (ids : Nat → Nat) (mild : Report → Prop)
    (R : {α : Type} → [Numbered α] → (α → Prop) → Resolve α → Resolve α → Prop) : Prop where
  pure {α : Type} [Numbered α] {holds : α → Prop} {a : α} (here : holds a) :
    R holds (Pure.pure a) (Pure.pure (renumber ids a))
  fail {α : Type} [Numbered α] {holds : α → Prop} {cause : SemanticError.Cause} (span : Span)
    (other : ∀ name, cause ≠ .unknownLabel name) : R holds (Resolve.fail cause span) (Resolve.fail cause span)
  report (report : Report) : R (fun _ => mild report) (Resolve.report report) (Resolve.report report)
  mono {α : Type} [Numbered α] {holds holds' : α → Prop} {x y : Resolve α} (here : R holds x y)
    (weaker : ∀ a, holds a → holds' a) : R holds' x y
  next {α β : Type} [Numbered α] [Numbered β] {first : α → Prop} {second : β → Prop} {x y : Resolve α}
    {f g : α → Resolve β} (here : R first x y) (there : ∀ a, (∃ before, (x before).1 = .ok a) →
      R (fun b => first a → second b) (f a) (g (renumber ids a))) : R second (x >>= f) (y >>= g)

/-- Two contexts with the same types, and global vars that differ in their ids. -/
structure Context.Renumbered (ids : Nat → Nat) (context context' : Context) : Prop where
  types : context.tree.SameTypes context'.tree
  owner : context'.owner = context.owner
  globalVars (owner : TypePath) (name : String) :
    context'.tree.globalVar? owner name = (context.tree.globalVar? owner name).map (GlobalVar.renumber ids)

/-- Names are related in both contexts. -/
structure Context.Steps (ids : Nat → Nat) (mild : Report → Prop)
    (R : {α : Type} → [Numbered α] → (α → Prop) → Resolve α → Resolve α → Prop)
    (context context' : Context) : Prop
    extends Resolve.Congruence ids mild R, context.Renumbered ids context' where
  name (inferred? : Option TypePath) (name : String) (span : Span) :
    R (context.Names name) (context.name inferred? name span) (context'.name inferred? name span)
  procTarget (span : Span) (target : CallTarget) : R (fun target => ∀ name, target = .src name →
    context.visibility.seesInstance) (context.procTarget span target) (context'.procTarget span target)
  /-- What cannot be written to is reported. -/
  writable (target : Expr) (place : Term) : R (fun writes => if writes then context.Writes target place else
      mild (.located .writeToConstant target.span "Cannot change constant value"))
    (context.writable target place) (context'.writable target (place.renumber ids))
  globalField (name : String) (span : Span) :
    R (context.Roots name) (context.globalField name span) (context'.globalField name span)

variable [Numbered α] [Numbered β]

namespace Resolve.Congruence

variable (rel : Congruence ids mild R)

include rel

theorem bind {first : α → Prop} {second : β → Prop} (here : R first x y)
    (there : ∀ a, R (fun b => first a → second b) (f a) (g (renumber ids a))) :
    R second (x >>= f) (y >>= g) :=
  rel.next here fun a _ => there a

/-- Behind an error nothing is done. -/
theorem failed (span : Span) (f g : γ → Resolve α) (other : ∀ name, cause ≠ .unknownLabel name) :
    R holds (Resolve.fail cause span >>= f) (Resolve.fail cause span >>= g) := by
  have fails : R holds (Resolve.fail cause span : Resolve α) (Resolve.fail cause span) := rel.fail span other
  exact fails

theorem useField (owner : TypePath) (field : Field) (span : Span) :
    R (fun _ => True) (Resolve.useField owner field span) (Resolve.useField owner field span) := by
  unfold Resolve.useField
  split
  · exact rel.mono (rel.report _) fun _ _ => trivial
  · exact rel.pure trivial

theorem infer (inferred? : Option TypePath) (span : Span) :
    R (fun _ => True) (Resolve.infer inferred? span) (Resolve.infer inferred? span) := by
  unfold Resolve.infer
  split
  · exact rel.pure trivial
  · exact rel.fail _ nofun

end Resolve.Congruence

namespace Context.Steps

variable (steps : Steps ids mild R context context') {name : String}

include steps

theorem constantPath (path : TypePath) (span : Span)
    (atom : ∀ value type?, holds (.mk (.atom value) type? false span)) :
    R holds (context.constantPath path span) (context'.constantPath path span) := by
  have place : context'.place path = context.place path := by
    unfold Context.place
    rw [steps.owner]
  simp only [Context.constantPath, place, steps.types.names]
  split
  · exact steps.pure (atom _ _)
  · exact steps.pure (atom _ _)
  · exact steps.fail _ nofun
  · exact steps.fail _ nofun

theorem scopedVar (owner : TypePath) (span : Span)
    (scopes : ∀ form type?, context.Scopes base? name form → holds (.mk form type? false span)) :
    R holds (context.scopedVar owner name span) (context'.scopedVar owner name span) := by
  unfold Context.scopedVar
  rw [steps.types.field?, steps.globalVars]
  rcases noField : (if owner.isRoot then none else context.tree.field? owner name) with _ | _
  · rcases found : context.tree.globalVar? owner name with _ | _
    · exact steps.fail _ nofun
    · exact steps.pure (scopes _ _ (.global noField found))
  · exact steps.pure (scopes _ _ .initial)

theorem scopeOwner (base : Term) (span : Span) :
    R (fun _ => True) (Context.scopeOwner base span) (Context.scopeOwner (base.renumber ids) span) := by
  unfold Context.scopeOwner
  rw [base.path?_renumber, base.type?_renumber]
  split
  · exact steps.pure trivial
  · exact steps.fail _ nofun

theorem knownType (type? : Option TypePath) (name : String) (span : Span) :
    R (fun owner => type? = some owner ∧ context.tree.hasType owner) (context.knownType type? name span)
      (context'.knownType type? name span) := by
  unfold Context.knownType
  split
  · exact steps.fail _ nofun
  rw [steps.types.hasType]
  split
  · next isType => exact steps.pure ⟨rfl, isType⟩
  · exact steps.fail _ nofun

theorem fieldLink (walk : Walk) (name : String) (searched safe : Bool) (span : Span) (rest : List Link) :
    R (fun next => ∀ last, Resolution.Follows context mild next rest last →
        Resolution.Follows context mild walk (.mk (.field name searched) safe span :: rest) last)
      (context.fieldLink walk name searched safe span)
      (context'.fieldLink (renumber ids walk) name searched safe span) := by
  unfold Context.fieldLink
  rw [fuzzy_renumber]
  by_cases search : (searched || walk.fuzzy) = true
  · rw [if_pos search, if_pos search]
    exact steps.pure fun _ there => .search search there
  obtain ⟨rfl, known⟩ := Bool.or_eq_false_iff.1 (Bool.eq_false_iff.2 search)
  rw [if_neg search, if_neg search]
  refine steps.bind (steps.knownType _ _ _) fun owner => ?_
  rw [steps.types.field?, steps.globalVars]
  rcases noField : context.tree.field? owner name with _ | _
  · rcases found : context.tree.globalVar? owner name with _ | _
    · exact steps.fail _ nofun
    · exact steps.pure fun type last there => .global known type.1 noField found there
  · exact steps.bind (steps.useField _ _ _) fun _ =>
      steps.pure fun _ type last there => .field known type.1 type.2 noField there

theorem callSearched (walk : Walk) (name : String) (searched : Bool) (span : Span) :
    R (fun searched => searched = false → walk.fuzzy = false ∧ ∃ owner, walk.type? = some owner ∧
        context.tree.hasType owner ∧ context.tree.hasProc owner name) (context.callSearched walk name searched span)
      (context'.callSearched (renumber ids walk) name searched span) := by
  unfold Context.callSearched
  rw [fuzzy_renumber]
  by_cases search : (searched || walk.fuzzy) = true
  · rw [if_pos search, if_pos search]
    exact steps.pure nofun
  rw [if_neg search, if_neg search]
  refine steps.bind (steps.knownType _ _ _) fun owner => ?_
  rw [steps.types.hasProc, renumber_typePath]
  split
  · next isProc =>
    exact steps.pure fun type _ =>
      ⟨(Bool.or_eq_false_iff.1 (Bool.eq_false_iff.2 search)).2, owner, type.1, type.2, isProc⟩
  · exact steps.fail _ nofun

/-- A chain is the term it starts from if there are no links. -/
theorem finish (walk : Walk) (span : Span) (here : holds (walk.finish span)) :
    R holds (pure (walk.finish span)) (pure ((renumber ids walk).finish span)) := by
  have same : (renumber ids walk).finish span = renumber ids (walk.finish span) := by
    rcases walk with ⟨_, _ | ⟨last, rest⟩, _, _⟩
    · rfl
    have reversed : (Term.renumberLinks ids (last :: rest)).reverse = Term.renumberLinks ids
        (last :: rest).reverse := by
      rw [Term.renumberLinks_eq_map, Term.renumberLinks_eq_map, List.map_reverse]
    have nonempty : (Term.renumberLinks ids (last :: rest)).isEmpty = false := by
      rw [Term.renumberLinks_eq_map]
      rfl
    simp only [Walk.finish, renumber, nonempty, reversed]
    rfl
  rw [same]
  exact steps.pure here

end Context.Steps

end DreamMaker
