import DreamMaker.Parsing.Argument
import DreamMaker.Parsing.Path

namespace DreamMaker.Parsing

def probWeight? : Expr → Option Expr
  | .mk (.apply .prob weight) _ => some weight
  | _ => none

def weighted (weight value : Expr) : Parser Argument :=
  match probWeight? weight with
  | some weight => return .mk (some weight) value
  | none => do
    warn .pickWeightedSyntax weight.span "Use prob() to give a pick() weight"
    return .mk (some weight) value

def choice (rules : Rules) : Parser Argument := do
  let first ← expression rules
  if ← acceptSymbol .semicolon then
    let value ← expression rules
    weighted first value
  else return .positional first

def choiceTurn (rules : Rules) (values : List Argument) : Parser (Turn (List Argument) (List Argument)) := do
  if ← checkSymbol .rightParen then return .stop values
  else
    let value ← choice rules
    if ← acceptSymbol .comma then return .again (values ++ [value]) else return .stop (values ++ [value])

def choices (rules : Rules) : Parser (List Argument) := do
  let start ← here
  expectSymbol .leftParen "Expected '('"
  let values ← rounds [] (choiceTurn rules)
  expectSymbol .rightParen "Expected ')'"
  let span ← since start
  if values.isEmpty then failAt .expectedExpression "Expected a pick argument" span else return values

def locateIn (rules : Rules) (values : List Expr) (start : Span) : Parser Expr := do
  if 3 < values.length then
    let span ← since start
    failAt .invalidArgumentCount "locate() was given too many arguments" span
  else
    let container? ← expressionAfter? rules (.keyword .in_) values[1]?
    return .mk (.locate values[0]? container?) (← since start)

def locate (rules : Rules) (args : List Argument) (start : Span) : Parser Expr := do
  match args.map Argument.value with
  | [x, y, z] => return .mk (.locateAt x y z) (← since start)
  | values => locateIn rules values start

def input (rules : Rules) (args : List Argument) (start : Span) : Parser Expr := do
  let types? ← types? false
  let list? ← expressionAfter? rules (.keyword .in_) none
  return .mk (.input args types? list?) (← since start)

def functionOf? (name : String) : Option Function :=
  match name with
  | "initial" => some .initial
  | "nameof" => some .nameOf
  | "issaved" => some .isSaved
  | "isnull" => some .isNull
  | "length" => some .length
  | _ => (MathFunction.ofName? name).map .math

def gatheringOf? : String → Option Gathering
  | "list" => some .list
  | "newlist" => some .newList
  | "addtext" => some .addText
  | "gradient" => some .gradient
  | _ => none

def probCall : List Argument → Except String Node
  | [.mk none value] => .ok (.apply .prob value)
  | [_] => .error "prob() does not take a named argument"
  | _ => .error "prob() takes 1 argument"

def rgbCall (args : List Argument) : Except String Node :=
  if 3 ≤ args.length && args.length ≤ 5 then .ok (.gather .rgb args)
  else .error "Expected 3 to 5 arguments for rgb()"

/-- A call of a function that takes what most functions take, or else of a
proc. -/
def plainCall (name : String) (args : List Argument) : Except String Node :=
  match gatheringOf? name, functionOf? name, args.map Argument.value with
  | some gathering, _, _ => .ok (.gather gathering args)
  | none, some function, [value] => .ok (.apply function value)
  | none, some _, _ => .error s!"{name}() requires 1 argument"
  | none, none, _ => .ok (.call (.named name) args)

/-- A call with these arguments: of a built-in function, whose number of
arguments is checked, or else of a proc. -/
def callNode (name : String) (args : List Argument) : Except String Node :=
  match name, args.map Argument.value with
  | "prob", _ => probCall args
  | "arctan", [x, y] => .ok (.applyPair .arcTan x y)
  | "log", [value] => .ok (.log value none)
  | "log", [base, value] => .ok (.log value (some base))
  | "log", _ => .error "log() requires 1 or 2 arguments"
  | "istype", [value] => .ok (.isType value none)
  | "istype", [value, type] => .ok (.isType value (some type))
  | "istype", _ => .error "istype() requires 1 or 2 arguments"
  | "get_step", [start, direction] => .ok (.applyPair .getStep start direction)
  | "get_step", _ => .error "get_step() requires 2 arguments"
  | "get_dir", [start, stop] => .ok (.applyPair .getDir start stop)
  | "get_dir", _ => .error "get_dir() requires 2 arguments"
  | "rgb", _ => rgbCall args
  | name, _ => plainCall name args

def callExpression (name : String) (args : List Argument) (span : Span) : Parser Expr :=
  match callNode name args with
  | .ok node => return .mk node span
  | .error message => failAt .invalidArgumentCount message span

def namedCall (rules : Rules) (name : String) (start : Span) : Parser Expr := do
  if name = "pick" then
    let values ← choices rules
    return .mk (.pick values) (← since start)
  else
    let args ← arguments rules
    if name = "input" then input rules args start
    else if name = "locate" then locate rules args start
    else callExpression name args (← since start)

end DreamMaker.Parsing
