import DreamMaker.Parsing.Statement

namespace DreamMaker.Parsing

def declarationTurn (rules : Rules) (done : List Declaration) :
    Parser (Turn (List Declaration) (List Declaration)) := do
  let _ ← delimiters
  if ← endsBlock then return .stop done
  else
    match ← recovering (rules .declaration) "Expected a type path" with
    | some declaration => return .again (done ++ [declaration])
    | none => return .again done

def declarations (rules : Rules) : Parser (List Declaration) := rounds [] (declarationTurn rules)

def objectHere? (rules : Rules) : Parser (Option (List Declaration)) := do
  if ← acceptSymbol .leftBrace then
    let _ ← newlines
    let indented ← accept .indent
    let body ← declarations rules
    newlinesIf indented
    let _ ← acceptIf indented .dedent
    let _ ← newlines
    expectSymbol .rightBrace "Expected '\x7d'"
    return some body
  else if ← accept .indent then
    let body ← declarations rules
    let _ ← newlines
    expect .dedent "Expected dedent"
    return some body
  else return none

def objectBody? (rules : Rules) : Parser (Option (List Declaration)) := beforeBlock (objectHere? rules)

def listSegments (rules : Rules) (segments : List String) : Parser (List String) := do
  if ← atDimensions then
    let _ ← dimensions rules
    return if segments.head? = some "list" then segments else "list" :: segments
  else return segments

def defaultMark : Parser Bool := do
  if ← acceptSymbol .bracketsEquals then return true else acceptSymbol .equals

def expressionIf? (rules : Rules) (wanted : Bool) : Parser (Option Expr) :=
  if wanted then some <$> expression rules else return none

def parameterAt (rules : Rules) (path : TypePath) (start : Span) : Parser Parameter := do
  let segments := if path.segments.head? = some "var" then path.segments.tail else path.segments
  match segments.getLast? with
  | none => failAt .expectedIdentifier "Expected a parameter name" start
  | some name =>
    let segments ← listSegments rules (Modifiers.split segments.dropLast).2
    let hasDefault ← defaultMark
    let default? ← expressionIf? rules hasDefault
    let types? ← types? false
    let choices? ← expressionAfter? rules (.keyword .in_) none
    return { name, type? := TypePath.ofTypeSegments? segments, default?, choices?,
             types := types?.getD .anything, span := ← since start }

/-- Reads a parameter, if there is one. Dots stand for any further arguments. -/
def parameter? (rules : Rules) : Parser (Option Parameter) := do
  if ← acceptSymbol .ellipsis then return none
  else
    let start ← here
    match ← path? with
    | some path => some <$> parameterAt rules path start
    | none => return none

def parameterTurn (rules : Rules) (parameters : List Parameter) :
    Parser (Turn (List Parameter) (List Parameter)) := do
  let parameter? ← parameter? rules
  let parameters := parameters ++ parameter?.toList
  if ← acceptSymbol .comma then return .again parameters else return .stop parameters

def parameters (rules : Rules) : Parser (List Parameter) := rounds [] (parameterTurn rules)

/-- Reads the rest of a proc behind its path and the opening parenthesis. The
segment `proc` or `verb` divides the path of its type from its name. -/
def procDefinition (rules : Rules) (start : Span) : Parser ProcDefinition := do
  let parameters ← parameters rules
  expectSymbol .rightParen "Expected ')' after proc parameters"
  let returnTypes? ← types? true
  let body? ← body? rules
  let path ← owner
  let marker? := path.procMarker?
  return {
    owner := path.slice 0 (marker?.getD (path.segments.length - 1))
    name := path.lastName
    isOverride := marker?.isNone
    isVerb := (marker?.bind fun i => path.segments[i]?) = some "verb"
    parameters
    body?
    returnTypes?
    span := ← since start
    rooted := ⟨_, rfl⟩ }

def varDefinition (path : TypePath) (value? : Option Expr) (types : ValueTypes) (span : Span) :
    Parser VarDefinition := do
  let index := (path.find? "var").getD 0
  let segments := path.segments.drop (index + 1)
  match segments.getLast? with
  | none => failAt .expectedIdentifier "Expected a var name" span
  | some name =>
    let (modifiers, segments) := Modifiers.split segments.dropLast
    return { owner := path.slice 0 index, name, type? := TypePath.ofTypeSegments? segments, modifiers,
             value?, types, span }

def varDefinitionAt (rules : Rules) (path : TypePath) : Parser VarDefinition := do
  let start ← behind
  let (path, list?) ← array rules path
  let value? ← expressionAfter? rules (.symbol .equals) list?
  let types? ← types? false
  varDefinition path value? (types?.getD .anything) (← since start)

/-- The path of a var behind a comma: it is under the parent of the one before
it. -/
def siblingPath (path next : TypePath) : TypePath :=
  next.segments.foldl TypePath.add (path.parent?.getD .root)

def varDefinitionTurn (rules : Rules) (so : TypePath × List VarDefinition) :
    Parser (Turn (TypePath × List VarDefinition) (List VarDefinition)) := do
  let var ← varDefinitionAt rules so.1
  if ← acceptSymbol .comma then
    match ← path? with
    | some next => return .again (siblingPath so.1 next, so.2 ++ [var])
    | none => failHere .expectedIdentifier "Expected a var definition"
  else return .stop (so.2 ++ [var])

def varsDeclaration (vars : List VarDefinition) (span : Span) : Declaration :=
  match vars with
  | [var] => .mk (.var var) var.span
  | vars => .mk (.group (vars.map fun var => .mk (.var var) var.span)) span

def varDefinitions (rules : Rules) (start : Span) : Parser Declaration := do
  let path ← owner
  let vars ← rounds (path, []) (varDefinitionTurn rules)
  return varsDeclaration vars (← since start)

def plainDeclaration (rules : Rules) (path : TypePath) (start : Span) : Parser Declaration := do
  if (path.find? "var").isSome then varDefinitions rules start
  else if ← acceptSymbol .equals then
    let value ← expression rules
    return .mk (.override (path.parent?.getD .root) path.lastName value) (← since start)
  else return .mk (.object path []) start

def declarationBody (rules : Rules) (start : Span) : Parser Declaration := do
  if ← acceptSymbol .leftParen then
    let definition ← procDefinition rules start
    return .mk (.proc definition) definition.span
  else
    let path ← owner
    match ← objectBody? rules with
    | some body => return .mk (.object path body) (← since start)
    | none => plainDeclaration rules path start

def endDeclaration : Parser Unit := do
  let closed ← closedBlock
  let ended ← atStatementEnd
  if closed || ended then return ()
  else failHere .unexpectedToken "Expected end of object statement"

def declarationFrom (rules : Rules) (start : Span) : Parser (Option Declaration) := do
  let declaration ← declarationBody rules start
  endDeclaration
  return some declaration

def declaration? (rules : Rules) : Parser (Option Declaration) := do
  let start ← here
  match ← path? with
  | none => return none
  | some path =>
    let outer ← owner
    withOwner (outer.combine path) (declarationFrom rules start)

def dividesFile (kind : Token.Kind) : Bool := isDelimiter kind || kind = .dedent

def skipDeclaration (start : Span) (error : ParseError) : Parser Unit := do
  report error.toReport
  skipToTopLevel start

def topLevel? (rules : Rules) : Parser (Option Declaration) := do
  let start ← here
  match ← attempt (rules .declaration) with
  | .ok (some declaration) => return some declaration
  | .ok none =>
    skipDeclaration start (← errorHere .unexpectedToken "Expected a type path")
    return none
  | .error error =>
    skipDeclaration start error
    return none

def fileTurn (rules : Rules) (done : List Declaration) : Parser (Turn (List Declaration) (List Declaration)) := do
  let _ ← acceptAll dividesFile
  if ← atEnd then return .stop done
  else return .again (done ++ (← topLevel? rules).toList)

/-- Reads the declarations of a whole file. A declaration that cannot be read
is reported and skipped. -/
def sourceFile (rules : Rules) : Parser SourceFile := do
  let start ← here
  let declarations ← rounds [] (fileTurn rules)
  return { declarations, span := ← since start }

end DreamMaker.Parsing
