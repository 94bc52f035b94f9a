import DreamMaker.Parsing.Phrase

namespace DreamMaker.Parsing

def isSegment : Token.Kind → Bool
  | .identifier => true
  | .keyword k => match k with
    | .var | .proc | .step | .throw | .null | .switch | .spawn | .do_ | .while_ | .for_ => true
    | _ => false
  | _ => false

def isOverloadable : Token.Kind → Bool
  | .string => true
  | .symbol s => match s with
    | .plus | .plusPlus | .plusEquals | .minus | .minusMinus | .minusEquals
    | .star | .starStar | .starEquals | .slashEquals
    | .percent | .percentEquals | .percentPercent | .percentPercentEquals
    | .and | .andEquals | .bar | .barEquals | .caret | .caretEquals
    | .tilde | .tildeEquals | .tildeNot | .equalsEquals
    | .less | .lessEquals | .greater | .greaterEquals
    | .lessLess | .lessLessEquals | .greaterGreater | .greaterGreaterEquals
    | .colonEquals | .brackets | .bracketsEquals => true
    | _ => false
  | _ => false

def segment? : Parser (Option String) := do
  let token ← current
  if isSegment token.kind then
    advance
    return some token.text
  else return none

/-- Reports a string that is not empty where one stands for an operator. -/
def warnFilled (token : Token) : Parser Unit :=
  if token.textValue = "" then pure ()
  else warn .badToken token.span "The quotes in a stringify overload must be empty"

/-- Reads the operator that belongs to the segment `operator`. A string
stands for the conversion to text, and has to be empty. -/
def overload : Parser String := do
  let token ← current
  if token.kind = .symbol .slash then
    if (← peek) = .symbol .leftParen then
      advance
      return "operator/"
    else return "operator"
  else if token.kind = .string then
    warnFilled token
    advance
    return "operator\"\""
  else if isOverloadable token.kind then
    advance
    return "operator" ++ token.text
  else return "operator"

def anchor : Parser Anchor := do
  if ← acceptSymbol .slash then
    if ← acceptSymbol .period then return .upward else return .absolute
  else if ← acceptSymbol .colon then return .downward
  else if ← acceptSymbol .period then return .upward
  else return .relative

def segmentFrom (name : String) : Parser String :=
  if name = "operator" then overload else return name

def segmentTurn (segments : List String) : Parser (Turn (List String) (List String)) := do
  if (← current).spaced then return .stop segments
  else if ← acceptSymbol .slash then
    match ← segment? with
    | none => return .stop segments
    | some name => return .again (segments ++ [← segmentFrom name])
  else return .stop segments

def segments? (anchor : Anchor) : Parser (Option TypePath) := do
  match ← segment? with
  | none => return none
  | some name =>
    let segments ← rounds [name] segmentTurn
    return some (.ofSegments anchor segments)

def path? : Parser (Option TypePath) := do segments? (← anchor)

def warnNoType (allowPath isPath : Bool) (span : Span) : Parser Unit :=
  if allowPath && isPath then pure ()
  else warn .badToken span (if allowPath then "Expected value type or path" else "Expected value type")

/-- Reads one of the kinds of value behind `as`, if there is one, and adds it
to those before it. Paths are read over. -/
def moreTypes? (allowPath : Bool) (types : ValueTypes) : Parser (Option ValueTypes) := do
  let token ← current
  if token.kind = .identifier || token.kind = .keyword .null then
    advance
    match ValueTypes.ofWord? token.text with
    | some type => return some (types.union type)
    | none => failAt .invalidSyntax s!"Invalid value type '{token.text}'" token.span
  else
    let path? ← path?
    warnNoType allowPath path?.isSome token.span
    return path?.map fun _ => types

def typesTurn (allowPath inParens : Bool) (types : ValueTypes) : Parser (Turn ValueTypes ValueTypes) := do
  if inParens && (← checkSymbol .rightParen) then return .stop types
  else
    match ← moreTypes? allowPath types with
    | none => return .stop types
    | some types => if ← acceptSymbol .bar then return .again types else return .stop types

/-- Reads the kinds of value behind `as`. Where paths are allowed among them
they are read over. -/
def types? (allowPath : Bool) : Parser (Option ValueTypes) := do
  if ← acceptKeyword .as then
    let inParens ← acceptSymbol .leftParen
    let types ← rounds .anything (typesTurn allowPath inParens)
    expectIf inParens (.symbol .rightParen) "Expected ')'"
    return some types
  else return none

def dimensionTurn (rules : Rules) (sizes : List Expr) : Parser (Turn (List Expr) (List Expr)) := do
  if ← acceptSymbol .brackets then return .again sizes
  else if ← acceptSymbol .leftBracket then
    let size? ← expression? rules
    expectSymbol .rightBracket "Expected ']'"
    return .again (sizes ++ size?.toList)
  else return .stop sizes

def dimensions (rules : Rules) : Parser (List Expr) := rounds [] (dimensionTurn rules)

def atDimensions : Parser Bool := do
  let kind ← kind
  return kind = .symbol .leftBracket || kind = .symbol .brackets

def listPath (path : TypePath) : TypePath :=
  if path.segments.dropLast.contains "list" then path
  else
    let index := match path.find? "var" with
      | some i => i + 1
      | none => 0
    .ofSegments path.anchor (path.segments.insertIdx index "list")

def sizedList? (sizes : List Expr) (span : Span) : Option Expr :=
  if sizes.isEmpty then none
  else some (.mk (.new (.path (.absolute ["list"])) (sizes.map .positional)) span)

/-- Reads the brackets behind a var's name. Gives the path of the var and the
new list that they stand for, if they hold sizes. -/
def array (rules : Rules) (path : TypePath) : Parser (TypePath × Option Expr) := do
  if ← atDimensions then
    let start ← here
    let sizes ← dimensions rules
    return (listPath path, sizedList? sizes (← since start))
  else return (path, none)

end DreamMaker.Parsing
