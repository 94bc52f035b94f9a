import DreamMaker.Proofs.Parsing.Termination
import DreamMaker.Proofs.Steady.Basic

/-!
What a file is read as and compiled to does not depend on the log: on how problems are shown, and on what was
reported before.
-/

namespace DreamMaker

open SourceFile

section Reading

open Parsing

/-- Both runs read the same and everything is seen, but they may report different things. -/
def Parsing.Setting.unlogged : Setting where
  mode := .whole
  view := fun a => a
  sees := Mode.sees_all
  blind := Mode.not_blind
  exact := False
  exact_whole := False.elim
  exact_view := False.elim
  rest := []
  anew := Mode.not_anew

theorem SourceFile.parse_result (source : List Lexeme) (log : Log) :
    (parse source log).result = (parse source).result := by
  let tokens := Token.ofLexemes source
  have nothing : Setting.unlogged.Tells ({} : Log).reports.toList log.reports.toList :=
    ⟨fun ⟨_, member, _⟩ => absurd member (by simp), False.elim⟩
  have same :=
    (sourceFile_of_light rfl rfl rfl (rulesUpTo_sim _ 0) (Token.endsOnce_ofLexemes source)
      (sum_weight_lt_depthOf tokens) nothing False.elim).1
  have first : (Parsing.run sourceFile tokens log).1 = (Parsing.run sourceFile tokens).1 := same
  rw [parse, parse]
  dsimp only
  rw [first]

end Reading

section Compiling

theorem ProcDefinition.compile_steady (definition : ProcDefinition) (tree : TypeTree) (log log' : Log) :
    ∃ reports, definition.compile tree log' =
      ((definition.compile tree log).1, (definition.compile tree log).2.1, reports) := by
  obtain ⟨after, same⟩ := Assembly.proc_steady (definition.start tree log) log'
  exact ⟨after.reports, congrArg (fun out : Termination × Assembly => definition.finish out.1 out.2) same⟩

theorem ProcDefinition.compileAll_steady (definitions : List ProcDefinition) (tree : TypeTree) (log log' : Log) :
    ∃ reports, compileAll tree log' definitions =
      ((compileAll tree log definitions).1, (compileAll tree log definitions).2.1, reports) := by
  induction definitions generalizing tree log log' with
  | nil => exact ⟨log'.reports, rfl⟩
  | cons definition _ ih =>
    obtain ⟨found, first⟩ := definition.compile_steady tree log log'
    rcases compiled : definition.compile tree log with ⟨_, grown, reports⟩
    obtain ⟨last, others⟩ := ih grown { log with reports } { log' with reports := found }
    refine ⟨last, ?_⟩
    simp only [compileAll, first, compiled, others]

theorem GlobalVar.resolve_steady (var : GlobalVar) (tree : TypeTree) (value : Expr)
    (reports reports' : Array Report) :
    (var.resolve tree value reports').1 = (var.resolve tree value reports).1 := by
  unfold GlobalVar.resolve
  dsimp only
  split
  · rfl
  · exact value.resolve_tame.steady reports reports'

theorem TypeTree.resolveGlobals_steady (tree : TypeTree) (reports reports' : Array Report) :
    (tree.resolveGlobals reports').1 = (tree.resolveGlobals reports).1 := by
  unfold TypeTree.resolveGlobals
  rw [← Array.foldl_toList, ← Array.foldl_toList]
  generalize #[] = values
  induction tree.globals.toList generalizing values reports reports' with
  | nil => rfl
  | cons var _ ih =>
    rw [List.foldl_cons, List.foldl_cons]
    rcases given : var.value? with _ | value
    · exact ih reports reports' values
    have same := var.resolve_steady tree value reports reports'
    dsimp only
    rcases run : var.resolve tree value reports with ⟨error | term, after⟩ <;>
      rcases run' : var.resolve tree value reports' with ⟨error' | term', after'⟩ <;>
      rw [run, run'] at same <;> cases same <;> exact ih _ _ _

theorem SourceFile.compile_steady {file : SourceFile} {log log' : Log} :
    (file.compile log').procs = (file.compile log).procs ∧
      (file.compile log').initializers = (file.compile log).initializers ∧
      (file.compile log').tree = (file.compile log).tree := by
  let tree := TypeTree.ofFile file
  obtain ⟨_, procs⟩ := ProcDefinition.compileAll_steady file.procs tree
    { log with reports := (tree.resolveGlobals log.reports).2 }
      { log' with reports := (tree.resolveGlobals log'.reports).2 }
  have code := congrArg Prod.fst procs
  have grown := congrArg (fun out => out.2.1) procs
  exact ⟨code, tree.resolveGlobals_steady log.reports log'.reports, grown⟩

end Compiling

/-- Whatever the configuration, and whatever was reported before, a text is read as the same tree and compiled to
the same procs, and leaves the same types, procs and vars behind. -/
theorem SourceFile.compile_unconfigured (origin : Lexeme.Origin) (text : String) (log log' : Log) :
    let parsed := parse (Lexeme.scan origin text) log
    let parsed' := parse (Lexeme.scan origin text) log'
    parsed'.result = parsed.result ∧
      ∀ after after' : Log,
        let compiled := parsed.result.fold.compile after
        let compiled' := parsed'.result.fold.compile after'
        compiled'.procs = compiled.procs ∧ compiled'.initializers = compiled.initializers ∧
          compiled'.tree = compiled.tree := by
  have same := (parse_result (Lexeme.scan origin text) log').trans (parse_result _ log).symm
  refine ⟨same, fun after after' => ?_⟩
  rw [same]
  exact compile_steady

end DreamMaker
