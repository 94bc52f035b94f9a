import DreamMaker.Syntax.Fold

namespace DreamMaker

/-! Folding goes over a tree once, from the leaves up, and looks at nothing but
constants. An operator that stays had operands without a value, and folding
them again does not give them one. -/

theorem Expr.fold_fold : (∀ e : Expr, e.fold.fold = e.fold) ∧ (∀ node : Node, node.fold.fold = node.fold) ∧
    (∀ links, foldLinks (foldLinks links) = foldLinks links) ∧ (∀ link : Link, link.fold.fold = link.fold) ∧
    (∀ args, foldArguments (foldArguments args) = foldArguments args) ∧
    (∀ arg : Argument, arg.fold.fold = arg.fold) ∧ (∀ e?, foldOption (foldOption e?) = foldOption e?) ∧
    (∀ target : NewTarget, target.fold.fold = target.fold) ∧
      ∀ holes, foldHoles (foldHoles holes) = foldHoles holes := by
  apply Expr.fold.mutual_induct
  -- Operators come in two cases each, by whether their operands give them a value.
  all_goals
    simp_all only [Expr.fold, Node.fold, foldLinks, Link.fold, foldArguments, Argument.fold,
      foldOption, NewTarget.fold,
      foldHoles, implies_true]

theorem foldOption_foldOption : foldOption (foldOption e?) = foldOption e? :=
  Expr.fold_fold.2.2.2.2.2.2.1 e?

theorem CaseValue.fold_fold (value : CaseValue) : value.fold.fold = value.fold := by
  cases value with
  | single value => simp only [fold, Expr.fold_fold.1]
  | range _ _ => simp only [fold, Expr.fold_fold.1]

theorem LocalVar.fold_fold (var : LocalVar) : var.fold.fold = var.fold := by
  simp only [fold, foldOption_foldOption]

theorem Parameter.fold_fold (parameter : Parameter) : parameter.fold.fold = parameter.fold := by
  simp only [fold, foldOption_foldOption]

/-- What settles every element settles a list of them. -/
theorem map_map_of_settled {α : Type} {fold : α → α} (settled : ∀ a, fold (fold a) = fold a) (as : List α) :
    (as.map fold).map fold = as.map fold := by
  simp [settled]

theorem Statement.fold_fold : (∀ statement : Statement, statement.fold.fold = statement.fold) ∧
    (∀ action : Action, action.fold.fold = action.fold) ∧
      (∀ cases, foldCases (foldCases cases) = foldCases cases) ∧
    (∀ case : Case, case.fold.fold = case.fold) ∧ (∀ block : Block, block.fold.fold = block.fold) ∧
    (∀ statements, foldStatements (foldStatements statements) = foldStatements statements) ∧
    ∀ block?, foldBlock (foldBlock block?) = foldBlock block? := by
  have binder : LocalVar.fold ∘ LocalVar.fold = LocalVar.fold := funext LocalVar.fold_fold
  have values : (List.map CaseValue.fold) ∘ (List.map CaseValue.fold) = List.map CaseValue.fold :=
    funext (map_map_of_settled CaseValue.fold_fold)
  apply Statement.fold.mutual_induct <;>
    simp_all only [Statement.fold, Action.fold, foldCases, Case.fold, Block.fold, foldStatements, foldBlock,
      foldOption_foldOption, LocalVar.fold_fold, Expr.fold_fold.1, Option.map_map, implies_true]

theorem ProcDefinition.fold_fold (definition : ProcDefinition) : definition.fold.fold = definition.fold := by
  simp only [fold, map_map_of_settled Parameter.fold_fold, Statement.fold_fold.2.2.2.2.2.2]

theorem Declaration.fold_fold : (∀ declaration : Declaration, declaration.fold.fold = declaration.fold) ∧
    ∀ declarations, foldDeclarations (foldDeclarations declarations) = foldDeclarations declarations := by
  apply Declaration.fold.mutual_induct <;>
    simp_all only [Declaration.fold, foldDeclarations, ProcDefinition.fold_fold, foldOption_foldOption,
      Expr.fold_fold.1, implies_true]

/-- Folding a file that is folded changes nothing, whatever stands in it. -/
theorem SourceFile.fold_idempotent (file : SourceFile) : file.fold.fold = file.fold := by
  simp only [fold, Declaration.fold_fold.2]

end DreamMaker
