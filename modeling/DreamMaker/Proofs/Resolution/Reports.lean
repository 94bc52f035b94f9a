import DreamMaker.Proofs.Resolution.Pairs

namespace DreamMaker

/-- Binding names takes no report back and does not go by reports. Its errors are not about labels. -/
structure Resolve.Tame (x : Resolve α) : Prop where
  keeps : ∀ reports : Array Report, ∀ report ∈ reports, report ∈ (x reports).2
  steady : ∀ reports reports' : Array Report, (x reports').1 = (x reports).1
  cause : ∀ (reports : Array Report) error, (x reports).1 = .error error →
    ∀ name, error.cause ≠ .unknownLabel name

/-- What goes in pairs with itself is tame. -/
theorem Resolve.Runs.tame [Numbered α] {x : Resolve α} (runs : Runs id mild holds x x) : Tame x where
  keeps reports report member := by
    obtain ⟨_, meets⟩ := runs reports reports
    rw [meets.reports]
    exact Array.mem_append_left _ member
  steady reports reports' := by
    obtain ⟨_, meets⟩ := runs reports reports'
    exact meets.renumbered.trans (Numbered.renumber_id _)
  cause reports := by
    obtain ⟨_, meets⟩ := runs reports reports
    exact meets.cause

theorem Expr.resolve_tame (e : Expr) : (e.resolve context inferred?).Tame :=
  Resolve.Runs.tame ((Context.Paired.refl context).runs_expr (fun _ => True) e inferred?)

theorem Expr.resolveConstant_tame (e : Expr) : (e.resolveConstant context inferred?).Tame :=
  Resolve.Runs.tame ((Context.Paired.refl context).runs_constant (fun _ => True))

end DreamMaker
