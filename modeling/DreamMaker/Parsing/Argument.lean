import DreamMaker.Parsing.Phrase

namespace DreamMaker.Parsing

/-- An argument from the expression in its place. An assignment gives the
argument a key; a name before it stands for itself. -/
def toArgument (e : Expr) : Argument :=
  match e with
  | .mk (.assign .assign target value) _ =>
    let key := match target with
      | .mk (.name name) span => .string name span
      | .mk (.literal .null) span => .string "null" span
      | _ => target
    .mk (some key) value
  | _ => .positional e

/-- The argument in a place that may be empty. An empty place before a comma
is null. -/
def placed (value? : Option Expr) (comma : Bool) (place : Span) : List Argument :=
  match value? with
  | some value => [toArgument value]
  | none => if comma then [.positional (.null place)] else []

def argumentTurn (rules : Rules) (args : List Argument) : Parser (Turn (List Argument) (List Argument)) := do
  let value? ← expression? rules
  let comma ← acceptSymbol .comma
  let place ← behind
  let args := args ++ placed value? comma place
  if comma then return .again args else return .stop args

def argumentList (rules : Rules) : Parser (List Argument) := rounds [] (argumentTurn rules)

def arguments (rules : Rules) : Parser (List Argument) := do
  expectSymbol .leftParen "Expected '('"
  let args ← withDeclares false (argumentList rules)
  expectSymbol .rightParen "Expected ')'"
  return args

def arguments? (rules : Rules) : Parser (Option (List Argument)) := do
  if ← checkSymbol .leftParen then return some (← arguments rules) else return none

end DreamMaker.Parsing
