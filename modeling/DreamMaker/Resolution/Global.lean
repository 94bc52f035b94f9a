import DreamMaker.Parsing.Grammar
import DreamMaker.Resolution.Expr

namespace DreamMaker

/-- Binds the names of a global var's value. If that can be done with nothing
but global procs, it is; if not, all global vars are visible. -/
def GlobalVar.resolve (var : GlobalVar) (tree : TypeTree) (value : Expr) (reports : Array Report) :
    Except SemanticError Term × Array Report :=
  let context : Context := { tree, owner := var.owner, visibility := .globalProcs }
  match (value.resolve context var.type?).run.run #[] with
  | (.ok term, found) => (.ok term, reports ++ found)
  | (.error _, _) => (value.resolve { context with visibility := .static } var.type?).run.run reports

/-- The values of the global vars that have one, by id, as far as their names
can be bound. -/
def TypeTree.resolveGlobals (tree : TypeTree) (reports : Array Report) : Array (Nat × Term) × Array Report :=
  tree.globals.foldl
    (fun (values, reports) var => match var.value? with
      | none => (values, reports)
      | some value => match var.resolve tree value reports with
        | (.ok term, reports) => (values.push (var.id, term), reports)
        | (.error error, reports) => (values, reports.push error.toReport))
    (#[], reports)

inductive EvaluationError
  | parse (error : ParseError)
  | semantic (error : SemanticError)
  /-- Names could be bound, but so many errors were reported. -/
  | reported (count : Nat)

namespace EvaluationError

def render : EvaluationError → String
  | .parse error => s!"Parse error: {error.render}"
  | .semantic error => s!"Semantic error: {error.render}"
  | .reported count => s!"{count} error(s) reported"

end EvaluationError

def Expr.read (text : String) : Except ParseError Expr :=
  (Expr.parse (Lexeme.scan (.file 0) text)).result.map Expr.fold

def TypeTree.evaluate (tree : TypeTree) (owner : TypePath) (text : String) : Except EvaluationError Term :=
  match Expr.read text with
  | .error error => .error (.parse error)
  | .ok e => match (e.resolve { tree, owner, visibility := .static } none).run.run #[] with
    | (.error error, _) => .error (.semantic error)
    | (.ok term, reports) =>
      let sink := Sink.ofReports {} reports
      if sink.hasErrors then .error (.reported sink.errorCount) else .ok term

end DreamMaker
