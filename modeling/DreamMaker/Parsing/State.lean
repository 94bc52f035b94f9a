import DreamMaker.Diagnostic.Config
import DreamMaker.Parsing.Error
import DreamMaker.Path
import DreamMaker.Token.Basic

namespace DreamMaker.Parsing

structure State where
  current : Token
  previous : Token
  ahead : List Token
  owner : TypePath := .root
  /-- Whether an expression may declare a var, as the head of a loop does. -/
  declares : Bool := false
  reports : Array Report := #[]
  /-- The places from and to which whole declarations were skipped. -/
  skips : Array (Span × Span) := #[]
  config : Config := {}
deriving Inhabited

/-- A reader of tokens, which may give up with an error. What it has read up
to the error stays read. -/
abbrev Parser := ExceptT ParseError (StateM State)

namespace State

def invalid (token : Token) : Report :=
  let message := match token.value with
    | .text complaint => complaint
    | _ => s!"Invalid token '{token.text}'"
  .located .badToken token.span message

/-- Drops invalid tokens up to the first valid one, and reports them. -/
def dropInvalid (reports : Array Report) : List Token → Array Report × List Token
  | [] => (reports, [])
  | token :: rest =>
    if token.kind = .invalid then dropInvalid (reports.push (invalid token)) rest
    else (reports, token :: rest)

def advance (s : State) : State :=
  let (reports, ahead) := dropInvalid s.reports s.ahead
  match ahead with
  | [] => { s with previous := s.current, ahead := [], reports }
  | token :: rest => { s with previous := s.current, current := token, ahead := rest, reports }

def before (tokens : List Token) (log : Log := {}) : State :=
  let nothing : Token := { kind := .endOfFile, span := .unknown, text := "" }
  { current := nothing, previous := nothing, ahead := tokens, reports := log.reports, config := log.config }

def ofTokens (tokens : List Token) (log : Log := {}) : State := (before tokens log).advance

def handBack (s : State) (token : Token) : State :=
  { s with current := token, ahead := s.current :: s.ahead }

end State

def current : Parser Token := do return (← get).current

def previous : Parser Token := do return (← get).previous

def owner : Parser TypePath := do return (← get).owner

def declares : Parser Bool := do return (← get).declares

def config : Parser Config := do return (← get).config

def kind : Parser Token.Kind := do return (← current).kind

def here : Parser Span := do return (← current).span

def behind : Parser Span := do return (← previous).span

def since (start : Span) : Parser Span := do return start.merge (← behind)

def advance : Parser Unit := modify State.advance

def handBack (token : Token) : Parser Unit := modify (·.handBack token)

def handBackIf (needed : Bool) (token : Token) : Parser Unit :=
  if needed then handBack token else pure ()

def peek : Parser Token.Kind := do
  let s ← get
  let (reports, ahead) := State.dropInvalid s.reports s.ahead
  set { s with reports, ahead }
  return match ahead with
    | token :: _ => token.kind
    | [] => .endOfFile

def reportAll (reports : Array Report) : Parser Unit :=
  modify fun s => { s with reports := s.reports ++ reports }

def report (report : Report) : Parser Unit := reportAll #[report]

def warn (code : Code) (span : Span) (message : String) : Parser Unit :=
  report (.located code span message)

def errorHere (kind : ParseError.Kind) (message : String) : Parser ParseError := do
  let token ← current
  return { kind, message, span := token.span, found? := some token.kind.name }

def failHere {α : Type} (kind : ParseError.Kind) (message : String) : Parser α := do
  throw (← errorHere kind message)

def failAt {α : Type} (kind : ParseError.Kind) (message : String) (span : Span) : Parser α :=
  throw { kind, message, span }

def check (wanted : Token.Kind) : Parser Bool := do return (← kind) = wanted

def checkSymbol (symbol : Symbol) : Parser Bool := check (.symbol symbol)

def accept (wanted : Token.Kind) : Parser Bool := do
  if ← check wanted then
    advance
    return true
  else return false

def acceptSymbol (symbol : Symbol) : Parser Bool := accept (.symbol symbol)

def acceptKeyword (keyword : Keyword) : Parser Bool := accept (.keyword keyword)

def expect (wanted : Token.Kind) (message : String) : Parser Unit := do
  if ← check wanted then advance
  else throw { (← errorHere .expectedToken message) with expected := [wanted.name] }

def expectIf (needed : Bool) (wanted : Token.Kind) (message : String) : Parser Unit :=
  if needed then expect wanted message else pure ()

def expectSymbol (symbol : Symbol) (message : String) : Parser Unit :=
  expect (.symbol symbol) message

def expectKeyword (keyword : Keyword) (message : String) : Parser Unit :=
  expect (.keyword keyword) message

def attempt {α : Type} (reader : Parser α) : Parser (Except ParseError α) :=
  ExceptT.lift reader.run

def withOwner {α : Type} (owner : TypePath) (reader : Parser α) : Parser α := do
  let before := (← get).owner
  modify fun s => { s with owner }
  let result ← attempt reader
  modify fun s => { s with owner := before }
  ofExcept result

def withDeclares {α : Type} (declares : Bool) (reader : Parser α) : Parser α := do
  let before := (← get).declares
  modify fun s => { s with declares }
  let result ← attempt reader
  modify fun s => { s with declares := before }
  ofExcept result

inductive Turn (σ α : Type) where
  | again (state : σ)
  | stop (result : α)

/-- Goes round until there is a result, at most once for every token of a list
and once more. -/
def roundsOver {σ α : Type} (turn : σ → Parser (Turn σ α)) : List Token → σ → Parser α
  | [], state => do
    match ← turn state with
    | .again _ => failHere .unexpectedEof "Unexpected end of file"
    | .stop result => return result
  | _ :: left, state => do
    match ← turn state with
    | .again state => roundsOver turn left state
    | .stop result => return result

/-- Goes round until there is a result. Every turn but the last reads a
token, so the tokens that are left bound the number of turns. -/
def rounds {σ α : Type} (start : σ) (turn : σ → Parser (Turn σ α)) : Parser α := do
  let s ← get
  roundsOver turn (s.current :: s.ahead) start

def acceptTurn (wanted : Token.Kind → Bool) (found : Bool) : Parser (Turn Bool Bool) := do
  if wanted (← kind) then
    advance
    return .again true
  else return .stop found

def acceptAll (wanted : Token.Kind → Bool) : Parser Bool := rounds false (acceptTurn wanted)

def newlines : Parser Bool := acceptAll (· = .newline)

def newlinesIf (allowed : Bool) : Parser Unit := do
  if allowed then
    let _ ← newlines
  else pure ()

def acceptIf (allowed : Bool) (wanted : Token.Kind) : Parser Bool :=
  if allowed then accept wanted else return false

def isDelimiter (kind : Token.Kind) : Bool := kind = .newline || kind = .symbol .semicolon

def delimiters : Parser Bool := acceptAll isDelimiter

def atEnd : Parser Bool := check .endOfFile

def atStatementEnd : Parser Bool := do return (← kind).endsStatement

def closesBlock (kind : Token.Kind) : Bool := kind = .dedent || kind = .symbol .rightBrace

def closedBlock : Parser Bool := do return closesBlock (← previous).kind

def endsBlock : Parser Bool := do
  let kind ← kind
  return closesBlock kind || kind = .endOfFile

/-- How many blocks are open behind a token that is skipped, if it is not the
end of what is skipped. -/
def blocksBehind? (depth : Nat) : Token.Kind → Option Nat
  | .endOfFile => none
  | .newline | .symbol .semicolon => if depth = 0 then none else some depth
  | .dedent | .symbol .rightBrace => if depth = 0 then none else some (depth - 1)
  | .indent | .symbol .leftBrace => some (depth + 1)
  | _ => some depth

def skipTurn (depth : Nat) : Parser (Turn Nat Unit) := do
  match blocksBehind? depth (← kind) with
  | none => return .stop ()
  | some depth =>
    advance
    return .again depth

def skipStatement : Parser Unit := rounds 0 skipTurn

def leave : Parser Unit := do
  if ← atEnd then return () else advance

def skipLineTurn (_ : Unit) : Parser (Turn Unit Unit) := do
  let token ← current
  if token.isEnd || token.lineIndentation? = some 0 then return .stop ()
  else
    advance
    return .again ()

/-- Skips to the next line without indentation, and reports what is skipped. -/
def skipToTopLevel (start : Span) : Parser Unit := do
  leave
  rounds () skipLineTurn
  let stop ← here
  modify fun s => { s with skips := s.skips.push (start, stop) }
  warn .recovery start s!"Error recovery had to skip to {stop.render}"

end DreamMaker.Parsing
