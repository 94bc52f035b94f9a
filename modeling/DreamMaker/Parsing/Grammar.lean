import DreamMaker.Parsing.Declaration
import DreamMaker.Syntax.Fold

namespace DreamMaker.Parsing

def rule (rules : Rules) : Rules
  | .assignment => assignment rules
  | .ternary => ternary rules
  | .power => power rules
  | .unary => unary rules
  | .sign => sign rules
  | .statement => statement? rules
  | .localVars stem? => localVars rules stem? true
  | .declaration => declaration? rules

def rulesUpTo : Nat → Rules
  | 0, _ => failHere .expectedExpression "Expected an expression"
  | depth + 1, phrase => rule (rulesUpTo depth) phrase

/-- A depth that phrases of these tokens cannot reach. Before a phrase opens
another one it reads a token, and the phrases in the holes of a string are made
of its characters. -/
def depthOf (tokens : List Token) : Nat :=
  4 * tokens.foldl (fun size token => size + 1 + token.textValue.length) 0 + 8

def run {α : Type} (reader : Rules → Parser α) (tokens : List Token) (log : Log := {}) :
    Except ParseError α × State :=
  (reader (rulesUpTo (depthOf tokens))).run.run (.ofTokens tokens log)

end DreamMaker.Parsing

namespace DreamMaker

/-- What reading gives: a tree, what there is to report on it, and the places
from and to which declarations were skipped. -/
structure Parsed (α : Type) where
  result : α
  reports : Array Report
  skips : Array (Span × Span)

def Expr.parse (source : List Lexeme) : Parsed (Except ParseError Expr) :=
  let (result, s) := Parsing.run Parsing.wholeExpression (Token.ofLexemes source)
  ⟨result, s.reports, s.skips⟩

/-- Reads a file, which never fails: what cannot be read is left out. -/
def SourceFile.parse (source : List Lexeme) (log : Log := {}) : Parsed SourceFile :=
  let (result, s) := Parsing.run Parsing.sourceFile (Token.ofLexemes source) log
  let file := match result with
    | .ok file => file
    | .error _ => ⟨[], .unknown⟩
  ⟨file, s.reports, s.skips⟩

end DreamMaker
