import DreamMaker.Parsing.Builtin
import DreamMaker.Parsing.Text

namespace DreamMaker.Parsing

def integerValue (token : Token) : Int64 :=
  match token.value with
  | .integer value => Int64.ofInt value
  | _ => 0

def floatValue (token : Token) : Float :=
  match token.value with
  | .float value => value
  | _ => 0

def braceTurn (_ : Unit) : Parser (Turn Unit Unit) := do
  if (← checkSymbol .rightBrace) || (← atEnd) then return .stop ()
  else
    advance
    return .again ()

def modifiedType (e : Expr) : Parser Expr := do
  if ← checkSymbol .leftBrace then
    warn .unimplementedAccess (← here)
      "Modified types are currently not supported and modified values will be ignored."
    rounds () braceTurn
    expectSymbol .rightBrace "Expected '\x7d'"
    return e.withSpan (← since e.span)
  else return e

def acceptTouching (symbol : Symbol) : Parser Bool := do
  if (← current).spaced then return false else acceptSymbol symbol

/-- A path, or if it is searched upward from it the one that follows. -/
def searchedPath (path : TypePath) (searched : Bool) : Parser Node :=
  if searched then do
    match ← path? with
    | some target => return .search path target
    | none => failHere .invalidPath "Expected a path for an upward search"
  else return .literal (.path path)

def pathExpression (path : TypePath) (start : Span) : Parser Expr := do
  let searched ← acceptTouching .period
  let node ← searchedPath path searched
  modifiedType (.mk node (← since start))

def scopeTurn (rules : Rules) (start : Span) (base? : Option Expr) : Parser (Turn (Option Expr) Expr) := do
  let token ← current
  if isName token.kind then
    advance
    let call? ← arguments? rules
    let scope := Expr.mk (.scope base? token.text call?) (← since start)
    if ← acceptTouching .colonColon then return .again (some scope) else return .stop scope
  else
    warn .badToken token.span "Identifier expected"
    return .stop (.null start)

def scope (rules : Rules) (base? : Option Expr) (start : Span) : Parser Expr :=
  rounds base? (scopeTurn rules start)

def declaredVar (start : Span) : Parser Expr := do
  match ← path? with
  | none => failHere .expectedIdentifier "Expected a var declaration"
  | some path =>
    let (_, segments) := Modifiers.split path.segments.tail
    match segments.getLast? with
    | none => failAt .expectedIdentifier "Expected a var name" start
    | some name =>
      return .mk (.declare name (TypePath.ofTypeSegments? segments.dropLast)) (← since start)

def dynamicCall (rules : Rules) (start : Span) : Parser Expr := do
  let callee ← arguments rules
  let span ← since start
  if callee.isEmpty || 2 < callee.length then
    failAt .invalidArgumentCount "call() requires 1 or 2 parameters" span
  else
    let args ← arguments rules
    return .mk (.dynamicCall callee args) (← since start)

def constant (value : Literal) (span : Span) : Parser (Option Expr) := do
  advance
  return some (.ofLiteral value span)

def grouped (rules : Rules) (start : Span) : Parser Expr := do
  let inner? ← expression? rules
  expectSymbol .rightParen "Expected ')'"
  return inner?.getD (.null (← since start))

def nameOrCall (rules : Rules) (name : String) (start : Span) (allowCalls : Bool) : Parser Expr := do
  if allowCalls && (← checkSymbol .leftParen) then namedCall rules name start
  else return .ofName name start

def selfOrResult (rules : Rules) (start : Span) : Parser Expr := do
  match ← arguments? rules with
  | some args => return .mk (.call .self args) (← since start)
  | none => return .mk .result start

/-- Reads an expression without operators and links, if one starts here that
does not start with a path. -/
def plainPrimary? (rules : Rules) (token : Token) (allowCalls : Bool) : Parser (Option Expr) := do
  let start := token.span
  match token.kind with
  | .symbol .leftParen =>
    advance
    some <$> grouped rules start
  | .keyword .var => if ← declares then some <$> declaredVar start else return none
  | .integer => constant (.integer (integerValue token)) start
  | .float => constant (.float (floatValue token)) start
  | .keyword .null => constant .null start
  | .resource => constant (.resource token.textValue) start
  | .rawString => constant (.string token.textValue) start
  | .string =>
    advance
    some <$> stringLiteral rules token
  | .stringBegin => some <$> splitString rules
  | .identifier | .keyword .step =>
    advance
    some <$> nameOrCall rules token.text start allowCalls
  | .symbol .periodPeriod =>
    advance
    let args ← arguments rules
    return some (.mk (.call .parent args) (← since start))
  | .symbol .period =>
    advance
    some <$> selfOrResult rules start
  | .symbol .colonColon =>
    advance
    some <$> scope rules none start
  | .keyword .call =>
    advance
    some <$> dynamicCall rules start
  | _ => return none

def marksPath (kind : Token.Kind) : Bool :=
  kind = .symbol .slash || kind = .symbol .colon || kind = .symbol .period

def pathBehind? (mark : Token.Kind) : Parser (Option TypePath) :=
  match mark with
  | .symbol .slash => do
    if ← acceptSymbol .period then segments? .upward else segments? .absolute
  | .symbol .colon => segments? .downward
  | _ => segments? .upward

/-- Reads a path in an expression, where it has to start with a mark. The mark
is handed back if no segment follows. -/
def markedPath? (mark : Token) : Parser (Option TypePath) := do
  if marksPath mark.kind then
    advance
    let path? ← pathBehind? mark.kind
    handBackIf path?.isNone mark
    return path?
  else return none

def primary? (rules : Rules) (allowCalls : Bool) : Parser (Option Expr) := do
  let token ← current
  match ← markedPath? token with
  | some path => some <$> pathExpression path token.span
  | none => plainPrimary? rules token allowCalls

def linked (base : Expr) (links : List Link) : Expr :=
  match links.getLast? with
  | none => base
  | some last => .mk (.chain base links) (base.span.merge last.span)

/-- Reads the rest of an index. Calling what it gives is an error, which
leaves null. -/
def indexLink (rules : Rules) (token : Token) (allowCalls : Bool) : Parser (Except Expr Link) := do
  advance
  let index ← expression rules
  expectSymbol .rightBracket "Expected ']'"
  let span ← since token.span
  if allowCalls && (← checkSymbol .leftParen) then
    warn .badToken (← here) "Attempt to call an invalid l-value"
    let _ ← arguments rules
    return .error (.null span)
  else return .ok (.mk (.index index) (token.kind = .symbol .questionBracket) span)

/-- What a name behind a dot or a colon links to, with the arguments behind it
if there are any. -/
def namedLink (name : String) (searched : Bool) : Option (List Argument) → LinkKind
  | some args => .call name searched args
  | none => .field name searched

def argumentsIf? (rules : Rules) (allowed : Bool) : Parser (Option (List Argument)) :=
  if allowed then arguments? rules else return none

/-- Reads the rest of a field or a call. Without a name it leaves null. -/
def nameLink (rules : Rules) (token : Token) (searched safe allowCalls : Bool) : Parser (Except Expr Link) := do
  advance
  let name ← current
  if isName name.kind then
    advance
    let args? ← argumentsIf? rules allowCalls
    return .ok (.mk (namedLink name.text searched args?) safe (← since token.span))
  else
    warn .badToken name.span "Identifier expected"
    return .error (.null token.span)

def joined (base : Expr) (links : List Link) : Except Expr Link → Turn (Expr × List Link) Expr
  | .ok link => .again (base, links ++ [link])
  | .error e => .stop e

inductive LinkStart
  | index
  | scope
  | name (searched safe : Bool)
  | colon
  | nothing
deriving DecidableEq

/-- A link starts without a blank before it, an index apart. -/
def LinkStart.of (kind : Token.Kind) (spaced : Bool) : LinkStart :=
  match kind, spaced with
  | .symbol .leftBracket, _ | .symbol .questionBracket, _ => .index
  | .symbol .colonColon, false => .scope
  | .symbol .period, false => .name false false
  | .symbol .questionPeriod, false => .name false true
  | .symbol .questionColon, false => .name true true
  | .symbol .colon, false => .colon
  | _, _ => .nothing

def linkTurn (rules : Rules) (allowCalls : Bool) (so : Expr × List Link) : Parser (Turn (Expr × List Link) Expr) := do
  let (base, links) := so
  let token ← current
  match LinkStart.of token.kind token.spaced with
  | .index => joined base links <$> indexLink rules token allowCalls
  | .scope =>
    advance
    let scope ← scope rules (some (linked base links)) base.span
    return .again (scope, [])
  | .name searched safe => joined base links <$> nameLink rules token searched safe allowCalls
  | .colon =>
    let next ← peek
    if (base.isConstant && links.isEmpty) || !isName next then return .stop (linked base links)
    else joined base links <$> nameLink rules token true false allowCalls
  | .nothing => return .stop (linked base links)

/-- Reads the links behind a value. A colon behind a constant, or before
anything but a name, belongs to something else. -/
def links (rules : Rules) (base : Expr) (allowCalls : Bool) : Parser Expr :=
  rounds (base, []) (linkTurn rules allowCalls)

def writtenPath? : Expr → Option TypePath
  | .mk (.literal (.path path)) _ => some path
  | _ => none

def targetOf (type : Expr) : NewTarget :=
  match writtenPath? type with
  | some path => .path path
  | none => .value type

def createdType? (rules : Rules) : Parser (Option Expr) := do
  if ← checkSymbol .leftParen then return none else primary? rules false

def newTarget (rules : Rules) (type? : Option Expr) : Parser NewTarget :=
  match type? with
  | none => return .inferred
  | some type => return targetOf (← links rules type false)

def creation (rules : Rules) : Parser Expr := do
  let start ← behind
  let type? ← createdType? rules
  let target ← newTarget rules type?
  let args? ← arguments? rules
  links rules (.mk (.new target (args?.getD [])) (← since start)) true

def value (rules : Rules) : Parser Expr := do
  if ← acceptKeyword .new then creation rules
  else
    match ← primary? rules true with
    | some e => links rules e true
    | none => failHere .expectedExpression "Expected an expression"

def postfixOf? : Token.Kind → Option UnaryOp
  | .symbol .plusPlus => some .postIncrement
  | .symbol .minusMinus => some .postDecrement
  | _ => none

def postfixed (rules : Rules) : Parser Expr := do
  let e ← value rules
  match postfixOf? (← kind) with
  | none => return e
  | some op =>
    advance
    return .mk (.unary op e) (← since e.span)

def negated (operand : Expr) (span : Span) : Expr :=
  match operand with
  | .mk (.literal (.integer value)) _ => .ofLiteral (.integer (-value)) span
  | .mk (.literal (.float value)) _ => .ofLiteral (.float (-value)) span
  | _ => .mk (.unary .neg operand) span

def sign (rules : Rules) : Parser Expr := do
  let start ← here
  if ← acceptSymbol .plus then rules .sign
  else if ← acceptSymbol .minus then
    let operand ← rules .sign
    return negated operand (start.merge operand.span)
  else postfixed rules

def unaryOf? : Token.Kind → Option UnaryOp
  | .symbol .not => some .not
  | .symbol .tilde => some .bitNot
  | .symbol .plusPlus => some .preIncrement
  | .symbol .minusMinus => some .preDecrement
  | _ => none

def operand (rules : Rules) (op : UnaryOp) : Parser Expr :=
  if op.isMutating then postfixed rules else rules .unary

def unary (rules : Rules) : Parser Expr := do
  let start ← here
  match unaryOf? (← kind) with
  | none => sign rules
  | some op =>
    advance
    let operand ← operand rules op
    return .mk (.unary op operand) (start.merge operand.span)

def power (rules : Rules) : Parser Expr := do
  let left ← unary rules
  if ← acceptSymbol .starStar then
    let right ← rules .power
    return .mk (.binary .power left right) (left.span.merge right.span)
  else return left

/-- The binary operators that group to the left, from those that bind most
tightly to those that bind least. -/
def binaryLevels : List (List (Symbol × BinaryOp)) :=
  [[(.star, .mul), (.slash, .div), (.percent, .mod), (.percentPercent, .modMod)],
   [(.plus, .add), (.minus, .sub)],
   [(.less, .less), (.lessEquals, .lessEqual), (.greater, .greater), (.greaterEquals, .greaterEqual)],
   [(.lessLess, .leftShift), (.greaterGreater, .rightShift)],
   [(.equalsEquals, .equal), (.notEquals, .notEqual), (.tildeEquals, .equivalent),
    (.tildeNot, .notEquivalent)],
   [(.and, .bitAnd)],
   [(.caret, .bitXor)],
   [(.bar, .bitOr)],
   [(.andAnd, .and)],
   [(.barBar, .or)]]

def operatorOf? (ops : List (Symbol × BinaryOp)) : Token.Kind → Option BinaryOp
  | .symbol symbol => ops.lookup symbol
  | _ => none

def binaryTurn (operand : Parser Expr) (ops : List (Symbol × BinaryOp)) (left : Expr) : Parser (Turn Expr Expr) := do
  match operatorOf? ops (← kind) with
  | none => return .stop left
  | some op =>
    advance
    let right ← operand
    return .again (.mk (.binary op left right) (left.span.merge right.span))

def binaryLevel (operand : Parser Expr) (ops : List (Symbol × BinaryOp)) : Parser Expr := do
  let first ← operand
  rounds first (binaryTurn operand ops)

def binary (rules : Rules) : Parser Expr :=
  binaryLevels.foldl binaryLevel (power rules)

/-- The name that a link searches for, or the call of it, on its own. -/
def searchedName? : Link → Option Expr
  | .mk (.field name true) false span => some (.ofName name span)
  | .mk (.call name true args) false span => some (.mk (.call (.named name) args) span)
  | _ => none

/-- Takes the last link off the right edge of an expression, if it is a
searched name: what is left, and the name on its own. In `a ? b:c` the colon
is read as a search first. -/
def unwind? : Expr → Option (Expr × Expr)
  | .mk (.binary op left right) span =>
    (unwind? right).map fun (right, last) => (.mk (.binary op left right) span, last)
  | .mk (.unary op operand) span =>
    if op.isPostfix then none
    else (unwind? operand).map fun (operand, last) => (.mk (.unary op operand) span, last)
  | .mk (.chain base links) span =>
    let rest := if links.dropLast.isEmpty then base else .mk (.chain base links.dropLast) span
    (links.getLast?.bind searchedName?).map fun last => (rest, last)
  | _ => none

def alternatives (rules : Rules) (yes : Expr) : Parser (Expr × Expr) := do
  if ← acceptSymbol .colon then return (yes, ← rules .ternary)
  else
    match unwind? yes with
    | some parts => return parts
    | none => failHere .expectedToken "Expected ':'"

def ternary (rules : Rules) : Parser Expr := do
  let condition ← binary rules
  if ← acceptSymbol .question then
    let yes ← rules .ternary
    let (yes, no) ← alternatives rules yes
    return .mk (.ternary condition yes no) (← since condition.span)
  else return condition

def step? (rules : Rules) : Parser (Option Expr) := do
  if ← acceptKeyword .step then return some (← ternary rules) else return none

def membershipTurn (rules : Rules) (e : Expr) : Parser (Turn Expr Expr) := do
  if ← acceptKeyword .in_ then
    let container ← ternary rules
    if ← acceptKeyword .to then
      let stop ← ternary rules
      let step? ← step? rules
      return .again (.mk (.between e container stop step?) (← since e.span))
    else return .again (.mk (.member e container) (e.span.merge container.span))
  else return .stop e

def membership (rules : Rules) : Parser Expr := do
  let first ← ternary rules
  rounds first (membershipTurn rules)

def assignmentOf? : Token.Kind → Option AssignOp
  | .symbol symbol => match symbol with
    | .equals => some .assign
    | .colonEquals => some .assignInto
    | .plusEquals => some .add
    | .minusEquals => some .sub
    | .starEquals => some .mul
    | .slashEquals => some .div
    | .percentEquals => some .mod
    | .percentPercentEquals => some .modMod
    | .barEquals => some .bitOr
    | .andEquals => some .bitAnd
    | .caretEquals => some .bitXor
    | .barBarEquals => some .logicalOr
    | .andAndEquals => some .logicalAnd
    | .lessLessEquals => some .leftShift
    | .greaterGreaterEquals => some .rightShift
    | _ => none
  | _ => none

def assignment (rules : Rules) : Parser Expr := do
  let target ← membership rules
  match assignmentOf? (← kind) with
  | none => return target
  | some op =>
    advance
    let value ← rules .assignment
    return .mk (.assign op target value) (target.span.merge value.span)

end DreamMaker.Parsing
