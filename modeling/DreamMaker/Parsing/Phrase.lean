import DreamMaker.Parsing.State
import DreamMaker.Syntax.Statement

namespace DreamMaker.Parsing

/-- The phrases of the grammar that occur inside themselves. -/
inductive Phrase
  | assignment
  | ternary
  | power
  | unary
  | sign
  | statement
  | localVars (stem? : Option TypePath)
  | declaration
deriving DecidableEq, Repr

/-- What reading a phrase gives. Where a statement or a declaration is looked
for there may be none. -/
abbrev Phrase.Tree : Phrase → Type
  | .assignment | .ternary | .power | .unary | .sign => Expr
  | .statement => Option Statement
  | .localVars _ => List LocalVar
  | .declaration => Option Declaration

/-- A reader for each phrase. The rules of the grammar are functions of the
readers for the phrases inside them. -/
abbrev Rules := (phrase : Phrase) → Parser phrase.Tree

def startsExpression (declares : Bool) : Token.Kind → Bool
  | .integer | .float | .string | .resource | .rawString | .stringBegin | .identifier => true
  | .keyword .null | .keyword .step | .keyword .new | .keyword .call => true
  | .keyword .var => declares
  | .symbol symbol => match symbol with
    | .leftParen | .slash | .period | .periodPeriod | .colon | .colonColon => true
    | .not | .tilde | .plusPlus | .minusMinus | .minus | .plus => true
    | _ => false
  | _ => false

def expression? (rules : Rules) : Parser (Option Expr) := do
  let declares ← declares
  if startsExpression declares (← kind) then return some (← rules .assignment) else return none

def expression (rules : Rules) : Parser Expr := do
  match ← expression? rules with
  | some e => return e
  | none => failHere .expectedExpression "Expected an expression"

/-- Reads an expression behind a token of some kind. If there is no such token
another expression takes its place, or none. -/
def expressionAfter? (rules : Rules) (mark : Token.Kind) (other? : Option Expr) : Parser (Option Expr) := do
  if ← accept mark then return some (← expression rules) else return other?

def isName (kind : Token.Kind) : Bool := kind = .identifier || kind = .keyword .step

def identifier (message : String) : Parser String := do
  let token ← current
  if isName token.kind then
    advance
    return token.text
  else failHere .expectedIdentifier message

end DreamMaker.Parsing
