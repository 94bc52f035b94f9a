import DreamMaker.Proofs.Resolution.Pairs
import DreamMaker.Resolution.Global

namespace DreamMaker

namespace Resolve

/-- Where the first way of binding names succeeds, the second one gives the same and adds the same reports. -/
def Extends (x y : Resolve α) : Prop :=
  ∀ reports a after, x reports = (.ok a, after) →
    ∃ found, after = reports ++ found ∧ ∀ before, y before = (.ok a, before ++ found)

variable {y : Resolve α}

theorem Extends.of_error (failed : ∀ reports, x reports = (.error error, reports)) : Extends x y := by
  intro reports _ _ run
  rw [failed reports] at run
  cases run

theorem Extends.pure (a : α) : Extends (Pure.pure a) (Pure.pure a) := by
  intro _ _ _ run
  cases run
  exact ⟨#[], by rw [Array.append_empty], fun _ => by rw [Array.append_empty]; rfl⟩

theorem Extends.report (r : Report) : Extends (Resolve.report r) (Resolve.report r) := by
  intro _ _ _ run
  cases run
  exact ⟨#[r], Array.push_eq_append, fun _ => by rw [← Array.push_eq_append]; rfl⟩

theorem Extends.bind (first : Extends x y)
    (second : ∀ a, (∃ before, (x before).1 = .ok a) → Extends (f a) (g a)) :
    Extends (x >>= f) (y >>= g) := by
  intro reports b after run
  rw [Run.bind_eq] at run
  rcases half : x reports with ⟨error | a, between⟩ <;> rw [half] at run
  · cases run
  obtain ⟨found, rfl, same⟩ := first reports a between half
  obtain ⟨more, rfl, rest⟩ := second a ⟨reports, by rw [half]⟩ _ b after run
  refine ⟨found ++ more, by rw [Array.append_assoc], fun before => ?_⟩
  rw [Run.bind_of_ok (same before), rest, Array.append_assoc]

theorem Extends.congruence : Congruence id mild fun _ x y => Extends x y where
  pure _ := by
    rw [Numbered.renumber_id]
    exact .pure _
  fail _ _ := .of_error fun _ => rfl
  report := .report
  mono here _ := here
  next here there := .bind here fun a given => by
    have rest := there a given
    rwa [Numbered.renumber_id] at rest

theorem Runs.extends [Numbered α] (runs : Runs id (fun _ => True) holds x y) : Extends x y := by
  intro reports _ _ run
  obtain ⟨found, here⟩ := runs reports reports
  rw [run] at here
  refine ⟨found, here.reports, fun before => ?_⟩
  obtain ⟨found', there⟩ := runs reports before
  rw [run] at there
  obtain rfl : found = found' := (Array.append_right_inj reports).1 (here.reports.symm.trans there.reports)
  exact Prod.ext (there.renumbered.trans (Numbered.renumber_id _)) there.reports'

end Resolve

namespace Context

open Resolve

variable (context : Context)

theorem name_extends (inferred? : Option TypePath) (name : String) (span : Span) :
    Extends ({ context with visibility := .globalProcs }.name inferred? name span)
      ({ context with visibility := .static }.name inferred? name span) := by
  unfold Context.name
  unfold Context.reserved?
  -- `world` is the one reserved name that is a global var.
  split
  case h_7 =>
    rcases context.frame? with _ | _
    · exact .of_error fun _ => rfl
    · exact .pure _
  case h_8 => exact .bind (Runs.extends (Runs.congruence.infer _ _)) fun _ _ => .pure _
  all_goals first
    | exact .pure _
    | exact .of_error fun _ => rfl

theorem globalField_extends (name : String) (span : Span) :
    Extends ({ context with visibility := .globalProcs }.globalField name span)
      ({ context with visibility := .static }.globalField name span) := by
  unfold Context.globalField
  by_cases vars : name = "vars"
  · rw [if_pos vars, if_pos vars]
    exact .pure _
  · rw [if_neg vars]
    rcases context.tree.globalVar? .root name with _ | var <;> exact .of_error fun _ => rfl

/-- Procs are found in the same way, and no local can be seen that could be constant. -/
theorem steps_static : Steps id (fun _ => True) (fun _ x y => Extends x y)
    { context with visibility := .globalProcs } { context with visibility := .static } where
  toCongruence := Extends.congruence
  types := .refl _
  owner := rfl
  globalVars := (Paired.refl context).globalVars
  name := context.name_extends
  procTarget span target :=
    Runs.extends ((Paired.refl { context with visibility := .globalProcs }).procTarget span target)
  writable target place :=
    Runs.extends ((Paired.refl { context with visibility := .globalProcs }).writable target place)
  globalField := context.globalField_extends

end Context

theorem Expr.resolve_extends (e : Expr) (context : Context) (inferred? : Option TypePath) :
    Resolve.Extends (e.resolve { context with visibility := .globalProcs } inferred?)
      (e.resolve { context with visibility := .static } inferred?) :=
  context.steps_static.runs_expr inferred? e

/-- Trying global procs alone before all global vars makes no difference. -/
theorem GlobalVar.resolve_eq_static (var : GlobalVar) (value : Expr) :
    var.resolve tree value reports =
      (value.resolve { tree, owner := var.owner, visibility := .static } var.type?).run.run reports := by
  have wider := value.resolve_extends { tree, owner := var.owner, visibility := .globalProcs } var.type?
  unfold GlobalVar.resolve
  dsimp only
  split
  · next term found first =>
    obtain ⟨_, rfl, same⟩ := wider #[] term found first
    rw [Array.empty_append]
    exact (same reports).symm
  · rfl

/-- The values of global vars, each bound once with all of them in sight, and the reports. -/
def TypeTree.bindEach (tree : TypeTree) : List GlobalVar → Array Report → List (Nat × Term) × Array Report
  | [], reports => ([], reports)
  | var :: rest, reports => match var.value? with
    | none => tree.bindEach rest reports
    | some value =>
      match (value.resolve { tree, owner := var.owner, visibility := .static } var.type?).run.run reports with
      | (.ok term, reports) =>
        let (values, reports) := tree.bindEach rest reports
        ((var.id, term) :: values, reports)
      | (.error error, reports) => tree.bindEach rest (reports.push error.toReport)

theorem TypeTree.resolveGlobals_eq_bindEach (tree : TypeTree) (reports : Array Report) : tree.resolveGlobals reports =
      ((tree.bindEach tree.globals.toList reports).1.toArray, (tree.bindEach tree.globals.toList reports).2) := by
  unfold TypeTree.resolveGlobals
  rw [← Array.foldl_toList, ← @Array.empty_append _ (tree.bindEach tree.globals.toList reports).1.toArray]
  -- The values found so far stand before those that the rest of the table gives.
  generalize (#[] : Array (Nat × Term)) = values
  induction tree.globals.toList generalizing values reports with
  | nil => simp [bindEach]
  | cons var _ ih =>
    rw [List.foldl_cons, bindEach]
    rcases var.value? with _ | value
    · exact ih reports values
    dsimp only
    rw [var.resolve_eq_static]
    rcases (value.resolve { tree, owner := var.owner, visibility := .static } var.type?).run.run reports with
      ⟨error | term, after⟩
    · exact ih _ values
    · rw [ih]
      simp

/-- The table of global vars gives the same values and reports as if each value were bound once with all global
vars in sight. For what binds with global procs alone binds to the same term, with the same reports, when global
vars are visible too. -/
theorem TypeTree.resolveGlobals_static (tree : TypeTree) (reports : Array Report) :
    (tree.resolveGlobals reports).1.toList = (tree.bindEach tree.globals.toList reports).1 ∧
      (tree.resolveGlobals reports).2 = (tree.bindEach tree.globals.toList reports).2 ∧
      ∀ (e : Expr) (context : Context) (inferred? : Option TypePath) (before after : Array Report) (term : Term),
        (e.resolve { context with visibility := .globalProcs } inferred?).run.run before = (.ok term, after) →
        (e.resolve { context with visibility := .static } inferred?).run.run before = (.ok term, after) := by
  rw [resolveGlobals_eq_bindEach]
  refine ⟨rfl, rfl, fun e context inferred? before after term run => ?_⟩
  obtain ⟨_, rfl, same⟩ := e.resolve_extends context inferred? before term after run
  exact same before

/-- The call `helper(1 = null)` binds with global procs alone. Its key is reported. -/
theorem TypeTree.resolveGlobals_static_call :
    let tree : TypeTree := { types := [], globals := #[], globalProcs := ["helper"] }
    let context : Context := { tree, owner := .root }
    let e : Expr := .mk (.call (.named "helper")
      [.mk (some (.mk (.literal (.integer 1)) .unknown)) (.mk (.literal .null) .unknown)]) .unknown
    ∃ term after, after.size = 1 ∧
      (e.resolve { context with visibility := .globalProcs } none).run.run #[] = (.ok term, after) ∧
      (e.resolve { context with visibility := .static } none).run.run #[] = (.ok term, after) := by
  intro tree context e
  exact ⟨_, _, rfl, rfl, (tree.resolveGlobals_static #[]).2.2 e context none #[] _ _ rfl⟩

end DreamMaker
