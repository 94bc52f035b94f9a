import DreamMaker.Parsing.Expr

namespace DreamMaker.Parsing

/-- Reads line ends before a block. If no block follows, the first of them is
handed back. -/
def beforeBlock {α : Type} (block? : Parser (Option α)) : Parser (Option α) := do
  let before ← current
  let found ← newlines
  let result? ← block?
  handBackIf (result?.isNone && found) before
  return result?

def recover (error : ParseError) : Parser Unit := do
  report error.toReport
  skipStatement

/-- Reads an item of a block. One that cannot be read is reported and
skipped. -/
def recovering {α : Type} (reader : Parser (Option α)) (missing : String) : Parser (Option α) := do
  match ← attempt reader with
  | .ok (some item) => return some item
  | .ok none =>
    recover (← errorHere .unexpectedToken missing)
    return none
  | .error error =>
    recover error
    return none

def isLabel (statement : Statement) : Bool :=
  match statement.action with
  | .label _ _ => true
  | _ => false

/-- Reports and skips what stands in the place of the end of a statement. -/
def endStatement (isLabel : Bool) : Parser Unit := do
  let closed ← closedBlock
  let ended ← atStatementEnd
  if isLabel || closed || ended then return ()
  else recover (← errorHere .unexpectedToken "Expected end of proc statement")

def statementTurn (rules : Rules) (done : List Statement) : Parser (Turn (List Statement) (List Statement)) := do
  let _ ← delimiters
  if ← endsBlock then return .stop done
  else
    match ← recovering (rules .statement) "Expected a proc statement" with
    | some statement =>
      endStatement (isLabel statement)
      return .again (done ++ [statement])
    | none => return .again done

def statements (rules : Rules) : Parser (List Statement) := rounds [] (statementTurn rules)

def indentedBraces (rules : Rules) (start : Span) : Parser Block := do
  let body ← statements rules
  if ← acceptSymbol .rightBrace then
    let _ ← newlines
    let _ ← accept .dedent
    return .mk body (← since start)
  else
    expect .dedent "Expected end of braced block"
    let _ ← newlines
    expectSymbol .rightBrace "Expected '\x7d'"
    return .mk body (← since start)

def skipOver : Parser Unit := do
  skipStatement
  let _ ← delimiters

def bracedTurn (rules : Rules) (body : List Statement) : Parser (Turn (List Statement) (List Statement)) := do
  if ← checkSymbol .rightBrace then return .stop body
  else if ← atEnd then failHere .unexpectedEof "Expected '\x7d'"
  else
    let error ← errorHere .unexpectedToken "Expected end of braced block"
    report error.toReport
    let _ ← accept .dedent
    skipOver
    let more ← statements rules
    return .again (body ++ more)

def bracedBlock (rules : Rules) : Parser Block := do
  let start ← here
  expectSymbol .leftBrace "Expected '\x7b'"
  let _ ← newlines
  if ← accept .indent then indentedBraces rules start
  else
    let first ← statements rules
    let body ← rounds first (bracedTurn rules)
    expectSymbol .rightBrace "Expected '\x7d'"
    return .mk body (← since start)

def skipPast : Parser Unit := do
  if ← acceptSymbol .rightBrace then
    let _ ← delimiters
  else skipOver

def indentedTurn (rules : Rules) (body : List Statement) : Parser (Turn (List Statement) (List Statement)) := do
  if ← accept .dedent then return .stop body
  else if ← atEnd then return .stop body
  else
    let error ← errorHere .unexpectedToken "Expected end of proc statement"
    report error.toReport
    skipPast
    let more ← statements rules
    return .again (body ++ more)

def indentedBlock (rules : Rules) : Parser Block := do
  let start ← here
  expect .indent "Expected indented block"
  let first ← statements rules
  let body ← rounds first (indentedTurn rules)
  return .mk body (← since start)

def blockHere? (rules : Rules) : Parser (Option Block) := do
  match ← kind with
  | .symbol .leftBrace => some <$> bracedBlock rules
  | .indent => some <$> indentedBlock rules
  | _ => return none

def block? (rules : Rules) : Parser (Option Block) := beforeBlock (blockHere? rules)

def statementHere? (rules : Rules) : Parser (Option Statement) := do
  if ← atStatementEnd then return none else rules .statement

def body? (rules : Rules) : Parser (Option Block) := do
  match ← block? rules with
  | some block => return some block
  | none => return (← statementHere? rules).map .single

def body (rules : Rules) : Parser Block := do
  let span ← behind
  return (← body? rules).getD (.empty span)

def requiredBody (rules : Rules) : Parser Block := do
  let span ← behind
  match ← body? rules with
  | some block => return block
  | none =>
    warn .badExpression span "Expected body or statement"
    return .empty span

def idle (span : Span) : Block := .single (.mk (.expression (.null span)) span)

/-- Reads the statement that is the body of a `for` loop. A semicolon stands
for nothing to do. -/
def loopStatement (rules : Rules) (head : Span) : Parser Block := do
  let span ← here
  if ← acceptSymbol .semicolon then return idle span
  else
    match ← statementHere? rules with
    | some statement => return .single statement
    | none =>
      warn .badExpression head "Expected body or statement"
      return idle span

def loopBody (rules : Rules) : Parser Block := do
  let head ← behind
  match ← block? rules with
  | some block => return block
  | none => loopStatement rules head

def inParens (rules : Rules) : Parser Expr := do
  expectSymbol .leftParen "Expected '('"
  let e ← expression rules
  expectSymbol .rightParen "Expected ')'"
  return e

def localVar (path : TypePath) (value? : Option Expr) (types : ValueTypes) (span : Span) : Parser LocalVar := do
  match path.segments.getLast? with
  | none => failAt .expectedIdentifier "Expected a var name" span
  | some name =>
    let (modifiers, segments) := Modifiers.split path.segments.dropLast
    return { name, type? := TypePath.ofTypeSegments? segments, value?, modifiers, types, span }

def varAt (rules : Rules) (path : TypePath) : Parser LocalVar := do
  let start ← here
  let (path, list?) ← array rules path
  let value? ← expressionAfter? rules (.symbol .equals) list?
  let types? ← types? false
  localVar path value? (types?.getD .anything) (← since start)

def varTurn (rules : Rules) (allowMore : Bool) (so : TypePath × List LocalVar) :
    Parser (Turn (TypePath × List LocalVar) (List LocalVar)) := do
  let var ← varAt rules so.1
  if ← acceptIf allowMore (.symbol .comma) then
    match ← path? with
    | some path => return .again (path, so.2 ++ [var])
    | none => failHere .expectedIdentifier "Expected a var declaration"
  else return .stop (so.2 ++ [var])

def varList (rules : Rules) (path : TypePath) (allowMore : Bool) : Parser (List LocalVar) :=
  rounds (path, []) (varTurn rules allowMore)

def indentedVarTurn (rules : Rules) (stem? : Option TypePath) (vars : List LocalVar) :
    Parser (Turn (List LocalVar) (List LocalVar)) := do
  let _ ← delimiters
  if ← accept .dedent then return .stop vars
  else if ← atEnd then return .stop vars
  else
    let more ← rules (.localVars stem?)
    return .again (vars ++ more)

def bracedVarTurn (rules : Rules) (stem? : Option TypePath) (vars : List LocalVar) :
    Parser (Turn (List LocalVar) (List LocalVar)) := do
  let _ ← delimiters
  if ← endsBlock then return .stop vars
  else
    let more ← rules (.localVars stem?)
    return .again (vars ++ more)

def bracedVars (rules : Rules) (stem? : Option TypePath) : Parser (List LocalVar) := do
  let _ ← newlines
  let indented ← accept .indent
  let vars ← rounds [] (bracedVarTurn rules stem?)
  let _ ← acceptIf indented .dedent
  newlinesIf indented
  expectSymbol .rightBrace "Expected '\x7d'"
  return vars

def varsHere? (rules : Rules) (stem? : Option TypePath) : Parser (Option (List LocalVar)) := do
  if ← accept .indent then some <$> rounds [] (indentedVarTurn rules stem?)
  else if ← acceptSymbol .leftBrace then some <$> bracedVars rules stem?
  else return none

def varBlock? (rules : Rules) (stem? : Option TypePath) (allowed : Bool) : Parser (Option (List LocalVar)) :=
  if allowed then beforeBlock (varsHere? rules stem?) else return none

def underStem (stem? path? : Option TypePath) : Option TypePath :=
  match stem?, path? with
  | some stem, some path => some (stem.combine path)
  | none, path? => path?
  | some _, none => none

def localVars (rules : Rules) (stem? : Option TypePath) (allowMore : Bool) : Parser (List LocalVar) := do
  let path? ← path?
  match ← varBlock? rules (underStem stem? path?) allowMore with
  | some vars => return vars
  | none =>
    match (underStem stem? path?).filter fun path => !path.segments.isEmpty with
    | some path => varList rules path allowMore
    | none => failHere .expectedIdentifier "Expected a var declaration"

def varsAction? : List LocalVar → Option Action
  | [] => none
  | [var] => some (.declare var)
  | vars => some (.group (vars.map fun var => .mk (.declare var) var.span))

def varStatement (rules : Rules) : Parser Action := do
  advance
  let start ← behind
  let vars ← localVars rules none true
  match varsAction? vars with
  | none => failAt .expectedIdentifier "Expected a var declaration" start
  | some action => return action

/-- Reads the mark between an attribute and its value, and tells whether it is
the word `in`. -/
def setMark : Parser Bool := do
  if ← acceptSymbol .equals then return false
  else if ← acceptKeyword .in_ then return true
  else failHere .expectedToken "Expected a 'in' or '=' for set declaration"

def setTurn (rules : Rules) (sets : List Statement) : Parser (Turn (List Statement) (List Statement)) := do
  let token ← current
  if token.kind = .identifier then
    advance
    let wasIn ← setMark
    let value ← expression rules
    let set := Statement.mk (.set token.text value wasIn) (← since token.span)
    if ← acceptSymbol .comma then return .again (sets ++ [set]) else return .stop (sets ++ [set])
  else failHere .expectedIdentifier "Expected an identifier for set declaration"

def setChain (rules : Rules) (done : List Statement) : Parser (List Statement) :=
  rounds done (setTurn rules)

def setBlockTurn (rules : Rules) (sets : List Statement) : Parser (Turn (List Statement) (List Statement)) := do
  let _ ← delimiters
  if ← endsBlock then return .stop sets
  else
    let sets ← setChain rules sets
    return .again sets

def setsHere? (rules : Rules) : Parser (Option (List Statement)) := do
  if ← acceptSymbol .leftBrace then
    let _ ← newlines
    let indented ← accept .indent
    let sets ← rounds [] (setBlockTurn rules)
    let _ ← acceptIf indented .dedent
    let _ ← newlines
    expectSymbol .rightBrace "Expected '\x7d'"
    return some sets
  else if ← accept .indent then
    let sets ← rounds [] (setBlockTurn rules)
    let _ ← accept .dedent
    return some sets
  else return none

def sets (rules : Rules) : Parser (List Statement) := do
  match ← beforeBlock (setsHere? rules) with
  | some sets => return sets
  | none => setChain rules []

def setsAction? : List Statement → Option Action
  | [] => none
  | [set] => some set.action
  | sets => some (.group sets)

def setStatement (rules : Rules) : Parser Action := do
  advance
  let start ← behind
  let sets ← sets rules
  match setsAction? sets with
  | none => failAt .expectedIdentifier "Expected set declaration" start
  | some action => return action

def assignmentSpan? : Expr → Option Span
  | .mk (.assign .assign _ _) span => some span
  | _ => none

def warnAssignment (condition : Expr) : Parser Unit :=
  match assignmentSpan? condition with
  | some span => warn .assignmentInConditional span "Assignment in conditional"
  | none => pure ()

/-- Reads what is done if a condition does not hold. If there is no such thing,
the first of the tokens that were looked over is handed back. -/
def elseBody? (rules : Rules) : Parser (Option Block) := do
  let before ← current
  let found ← delimiters
  if ← acceptKeyword .else_ then
    let _ ← acceptSymbol .colon
    return some (← body rules)
  else
    handBackIf found before
    return none

def ifStatement (rules : Rules) : Parser Action := do
  advance
  expectSymbol .leftParen "Expected '('"
  let condition ← expression rules
  warnAssignment condition
  expectSymbol .rightParen "Expected ')'"
  let _ ← acceptSymbol .colon
  let yes ← body rules
  let no? ← elseBody? rules
  return .if_ condition yes no?

def whileStatement (rules : Rules) : Parser Action := do
  advance
  let condition ← inParens rules
  let _ ← acceptSymbol .semicolon
  let span ← behind
  let body? ← body? rules
  return .while_ condition (body?.getD (.single (.mk (.continue_ none) span)))

def doStatement (rules : Rules) : Parser Action := do
  advance
  let body? ← body? rules
  match body?.filter fun body => !body.isEmpty with
  | none =>
    failHere .expectedExpression "Expected statement - do-while requires a non-empty block"
  | some body =>
    let _ ← delimiters
    expectKeyword .while_ "Expected 'while'"
    let condition ← inParens rules
    return .doWhile body condition

def delay? (rules : Rules) : Parser (Option Expr) := do
  if ← acceptSymbol .leftParen then
    if ← acceptSymbol .rightParen then return none
    else
      let delay ← expression rules
      expectSymbol .rightParen "Expected ')'"
      return some delay
  else return none

def spawnStatement (rules : Rules) : Parser Action := do
  advance
  let delay? ← delay? rules
  let body ← requiredBody rules
  return .spawn delay? body

def boundVar? (rules : Rules) : Parser (Option LocalVar) := do
  if ← acceptKeyword .var then return (← localVars rules none false).getLast? else return none

def caughtVar? (rules : Rules) : Parser (Option LocalVar) := do
  if ← acceptSymbol .leftParen then
    let var? ← boundVar? rules
    expectSymbol .rightParen "Expected ')'"
    return var?
  else return none

def tryStatement (rules : Rules) : Parser Action := do
  advance
  let body ← requiredBody rules
  let _ ← newlines
  expectKeyword .catch_ "Expected catch"
  let var? ← caughtVar? rules
  let handler? ← body? rules
  return .tryCatch body var? handler?

def caseValue (rules : Rules) (value : Expr) : Parser CaseValue := do
  if ← acceptKeyword .to then
    match ← expression? rules with
    | some stop => return .range value stop
    | none =>
      let span ← here
      warn .badExpression span "Expected an upper limit"
      return .range value (.null span)
  else return .single value

def warnNoValue (isEmpty : Bool) (span : Span) : Parser Unit :=
  if isEmpty then warn .badExpression span "Expected an expression" else pure ()

def caseTurn (rules : Rules) (values : List CaseValue) : Parser (Turn (List CaseValue) (List CaseValue)) := do
  match ← expression? rules with
  | none =>
    warnNoValue values.isEmpty (← here)
    return .stop values
  | some value =>
    let value ← caseValue rules value
    if ← acceptSymbol .comma then return .again (values ++ [value]) else return .stop (values ++ [value])

def caseValues (rules : Rules) : Parser (List CaseValue) := rounds [] (caseTurn rules)

def warnElseIf : Parser Unit := do
  let token ← current
  if token.kind = .keyword .if_ then
    warn .suspiciousSwitchCase token.span
      ("Expected \"if\" or \"else\" - \"else if\" is ambiguous as a switch case " ++
        "and may cause unintended flow")
  else pure ()

def caseHead? (rules : Rules) : Parser (Option (List CaseValue)) := do
  if ← acceptKeyword .if_ then
    expectSymbol .leftParen "Expected '('"
    let values ← caseValues rules
    expectSymbol .rightParen "Expected ')'"
    return some values
  else if ← acceptKeyword .else_ then
    warnElseIf
    return none
  else failHere .unexpectedToken "Expected \"if\" or \"else\""

def switchCase (rules : Rules) : Parser Case := do
  let start ← here
  let values? ← caseHead? rules
  let body ← body rules
  return .mk values? body (← since start)

def switchTurn (rules : Rules) (cases : List Case) : Parser (Turn (List Case) (List Case)) := do
  let _ ← delimiters
  if ← endsBlock then return .stop cases
  else
    let case_ ← switchCase rules
    return .again (cases ++ [case_])

def switchCases (rules : Rules) : Parser (List Case) := do
  if ← acceptSymbol .leftBrace then
    let _ ← newlines
    let indented ← accept .indent
    let cases ← rounds [] (switchTurn rules)
    expectIf indented .dedent "Expected \"if\" or \"else\""
    let _ ← newlines
    expectSymbol .rightBrace "Expected '\x7d'"
    return cases
  else if ← accept .indent then
    let cases ← rounds [] (switchTurn rules)
    expect .dedent "Expected \"if\" or \"else\""
    return cases
  else failHere .expectedToken "Expected switch cases"

def switchStatement (rules : Rules) : Parser Action := do
  advance
  let value ← inParens rules
  let _ ← newlines
  let cases ← switchCases rules
  return .switch value cases

def atSeparator : Parser Bool := do
  let kind ← kind
  return kind = .symbol .semicolon || kind = .symbol .comma

def assigned? : Expr → Option (Expr × Expr)
  | .mk (.assign .assign target value) _ => some (target, value)
  | _ => none

def rangeLoop (rules : Rules) (first : Expr) : Parser Action := do
  match assigned? first with
  | some (binder, start) =>
    let stop ← expression rules
    let step? ← expressionAfter? rules (.keyword .step) none
    expectSymbol .rightParen "Expected ')' in for after to expression"
    let body ← loopBody rules
    return .forRange binder start stop step? body
  | none => failHere .invalidSyntax "Expected = before to in for"

/-- The loop whose head is one expression, which tells what kind of loop it
is. -/
def loopOver (first : Expr) (types? : Option ValueTypes) (body : Block) : Action :=
  match first with
  | .mk (.member binder list) _ => .forIn binder types? list body
  | .mk (.between binder start stop step?) _ => .forRange binder start stop step? body
  | .mk (.declare _ (some _)) _ => .forType first body
  | _ => .for_ (some first) none none body

def plainLoop (rules : Rules) (first : Expr) (types? : Option ValueTypes) : Parser Action := do
  expectSymbol .rightParen "Expected ')' in for after expression 1"
  let body ← loopBody rules
  return loopOver first types? body

def loopStep? (rules : Rules) : Parser (Option Expr) := do
  if ← atSeparator then
    advance
    if ← checkSymbol .rightParen then return none else expression? rules
  else return none

def steppedLoop (rules : Rules) (first : Expr) : Parser Action := do
  let start? := if first.isNull then none else some first
  advance
  if ← acceptSymbol .rightParen then
    let body ← loopBody rules
    return .for_ start? none none body
  else
    let condition? ← expression? rules
    let next? ← loopStep? rules
    expectSymbol .rightParen "Expected ')' in for"
    let body ← loopBody rules
    return .for_ start? condition? next? body

def loopHead (rules : Rules) : Parser (Option Expr × Option ValueTypes) := do
  let first? ← expression? rules
  let types? ← types? false
  return (first?, types?)

def loopStart (first? : Option Expr) : Parser Expr := do
  match first? with
  | some first => return first
  | none =>
    if ← atSeparator then return .null (← here)
    else failHere .expectedExpression "Expected 1st expression in for"

def loopFrom (rules : Rules) (first : Expr) (types? : Option ValueTypes) : Parser Action := do
  if ← acceptKeyword .to then rangeLoop rules first
  else if ← acceptKeyword .in_ then
    let list ← expression rules
    expectSymbol .rightParen "Expected ')' in for after expression 2"
    let body ← loopBody rules
    return .forIn first types? list body
  else if ← atSeparator then steppedLoop rules first
  else plainLoop rules first types?

def forStatement (rules : Rules) : Parser Action := do
  advance
  expectSymbol .leftParen "Expected '('"
  if ← acceptSymbol .rightParen then
    let body ← loopBody rules
    return .forever body
  else
    let (first?, types?) ← withDeclares true (loopHead rules)
    let first ← loopStart first?
    loopFrom rules first types?

/-- An output that shows or sends something, which takes one or two
arguments. -/
def transferOf (kind : Transfer) (name : String) (receiver : Expr) (values : List Expr) (span : Span) :
    Except String Action :=
  if 1 ≤ values.length && values.length ≤ 2 then
    .ok (.transfer kind receiver (values[0]?.getD (.null span)) (values[1]?.getD (.null span)))
  else .error s!"{name}() requires 1 or 2 parameters"

/-- What an output statement sends that is a call with these arguments. Calls
of some names are outputs of their own, whose number of arguments is checked. -/
def outputOf (name : String) (receiver message : Expr) (values : List Expr) (span : Span) : Except String Action :=
  match name, values with
  | "browse", values => transferOf .browse name receiver values span
  | "browse_rsc", values => transferOf .browseResource name receiver values span
  | "ftp", values => transferOf .ftp name receiver values span
  | "output", [first, second] => .ok (.transfer .control receiver first second)
  | "output", _ => .error "output() requires 2 parameters"
  | "link", [first] => .ok (.link receiver first)
  | "link", _ => .error "link() requires 1 parameters"
  | _, _ => .ok (.output receiver message)

def outputAction (receiver message : Expr) (span : Span) : Except String Action :=
  match message with
  | .mk (.call (.named name) args) _ => outputOf name receiver message (args.map Argument.value) span
  | _ => .ok (.output receiver message)

/-- What a statement does that is an expression. Shifts are inputs and
outputs. -/
def expressionAction (e : Expr) (span : Span) : Except String Action :=
  match e with
  | .mk (.binary .rightShift source target) _ => .ok (.input source target)
  | .mk (.binary .leftShift receiver message) _ => outputAction receiver message span
  | _ => .ok (.expression e)

/-- Reads the rest of a statement that starts with a name: a label, or a
sleep without parentheses. -/
def nameStatement (rules : Rules) (name : String) (start span : Span) (isLabel : Bool) : Parser Action := do
  if name = "sleep" && !isLabel && !(← checkSymbol .colon) then
    let delay? ← expression? rules
    let call := Node.call (.named name) [.positional (delay?.getD (.null span))]
    return .expression (.mk call (← since start))
  else
    let _ ← acceptSymbol .colon
    let body? ← block? rules
    return .label name body?

def expressionStatement (rules : Rules) (e : Expr) (start : Span) (isLabel : Bool) : Parser Action := do
  let span := start.merge e.span
  match e.name? with
  | some name => nameStatement rules name start span isLabel
  | none =>
    match expressionAction e span with
    | .ok action => return action
    | .error message => failAt .invalidArgumentCount message span

def label? : Parser (Option String) := do
  let token ← current
  if token.kind = .identifier then
    advance
    return some token.text
  else return none

def valueInStatement? (rules : Rules) : Parser (Option Expr) := do
  if ← atStatementEnd then return none else expression? rules

def delStatement (rules : Rules) : Parser Action := do
  advance
  let parens ← acceptSymbol .leftParen
  match ← expression? rules with
  | none => failHere .expectedExpression "Expected value to delete"
  | some value =>
    expectIf parens (.symbol .rightParen) "Expected ')'"
    return .del value

def keywordStatement? (rules : Rules) (start : Span) : Parser (Option Action) := do
  match ← kind with
  | .keyword .if_ => some <$> ifStatement rules
  | .keyword .return_ =>
    advance
    let value? ← valueInStatement? rules
    return some (.return_ value?)
  | .keyword .var => some <$> varStatement rules
  | .keyword .for_ => some <$> forStatement rules
  | .keyword .set => some <$> setStatement rules
  | .keyword .switch => some <$> switchStatement rules
  | .keyword .continue_ =>
    advance
    let label? ← label?
    return some (.continue_ label?)
  | .keyword .break_ =>
    advance
    let label? ← label?
    return some (.break_ label?)
  | .keyword .spawn => some <$> spawnStatement rules
  | .keyword .while_ => some <$> whileStatement rules
  | .keyword .do_ => some <$> doStatement rules
  | .keyword .throw =>
    advance
    let value? ← valueInStatement? rules
    return some (.throw (value?.getD (.null start)))
  | .keyword .del => some <$> delStatement rules
  | .keyword .try_ => some <$> tryStatement rules
  | .keyword .goto =>
    advance
    let name ← identifier "Expected a label"
    return some (.goto name)
  | _ => return none

def leadingExpression? (rules : Rules) : Parser (Option Expr) := do
  if ← check (.keyword .var) then return none else expression? rules

def action? (rules : Rules) (e? : Option Expr) (start : Span) (isLabel : Bool) : Parser (Option Action) :=
  match e? with
  | some e => some <$> expressionStatement rules e start isLabel
  | none => keywordStatement? rules start

def statement? (rules : Rules) : Parser (Option Statement) := do
  let start ← here
  let isLabel ← acceptSymbol .colon
  let e? ← leadingExpression? rules
  if isLabel && (e?.bind Expr.name?).isNone then
    failAt .expectedIdentifier "Expected a label identifier" start
  else
    match ← action? rules e? start isLabel with
    | some action => return some (.mk action (← since start))
    | none => return none

end DreamMaker.Parsing
