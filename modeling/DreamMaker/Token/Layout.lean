import DreamMaker.Lexeme.Scan
import DreamMaker.Token.Number

namespace DreamMaker

/-- Where the reading of lexemes as tokens stands. `levels` holds the
indentations that are open, innermost first, and ends with zero. -/
structure Layout where
  source : List Lexeme
  queue : List Token := []
  /-- Number of open parentheses and brackets. Inside them a line end is a
  blank. -/
  nesting : Nat := 0
  levels : List Nat := [0]
  spaced : Bool := false
  /-- The span of the last lexeme read, for the end of a source without one. -/
  lastSpan : Span := .unknown
  finished : Bool := false
deriving Repr, Inhabited

namespace Layout

def ofSource (source : List Lexeme) : Layout := { source }

def indentation (s : Layout) : Nat := s.levels.head?.getD 0

def atEnd (s : Layout) : Bool := s.finished && s.queue.isEmpty

def give (s : Layout) (token : Token) : Token × Layout :=
  ({ token with spaced := s.spaced }, { s with spaced := false })

def endFile (s : Layout) (l : Lexeme) : Token × Layout :=
  let dedent : Token := { kind := .dedent, span := l.span, text := l.text }
  let tokens := List.replicate (s.levels.length - 1) dedent ++ [{ dedent with kind := .endOfFile }]
  let s := { s with levels := s.levels.drop (s.levels.length - 1), finished := true }
  match tokens with
  | [] => s.give { dedent with kind := .endOfFile }
  | first :: rest => { s with queue := rest }.give first

def lineStart : List Lexeme → Nat × List Lexeme
  | next :: rest => if next.kind = .blank then (next.text.length, rest) else (0, next :: rest)
  | [] => (0, [])

/-- Starts a line. More indentation opens a level and less closes those
above it; an indentation that is not open is invalid, and closes them too. -/
def startLine (s : Layout) (l : Lexeme) : Token × Layout :=
  let (level, source) := lineStart s.source
  let newline : Token :=
    { kind := .newline, span := l.span, text := l.text, value := .integer level, spaced := s.spaced }
  let s := { s with source, spaced := false }
  if s.indentation < level then
    ({ kind := .indent, span := l.span, text := "" },
      { s with levels := level :: s.levels, queue := [newline] })
  else if level < s.indentation then
    let kept := s.levels.dropWhile (level < ·)
    let dedent : Token := { kind := .dedent, span := l.span, text := "" }
    let dedents := List.replicate (s.levels.length - kept.length) dedent
    if s.levels.contains level then (newline, { s with levels := kept, queue := dedents })
    else
      ({ kind := .invalid, span := l.span, text := "", value := .text "Invalid indentation" },
        { s with levels := kept, queue := newline :: dedents })
  else (newline, s)

/-- A symbol that may go on in the next lexemes: the longest sequence of
kinds that the source continues with decides. -/
def giveLongest (s : Layout) (l : Lexeme) (alone : Symbol)
    (longer : List (List Lexeme.Kind × Symbol)) : Token × Layout :=
  let fits := fun (kinds : List Lexeme.Kind) =>
    (s.source.take kinds.length).map (·.kind) = kinds
  match longer.find? fun entry => fits entry.1 with
  | none => s.give { kind := .symbol alone, span := l.span, text := l.text }
  | some (kinds, symbol) =>
    let more := s.source.take kinds.length
    let span := more.reverse.foldl (fun span m => span.merge m.span) l.span
    let s := { s with source := s.source.drop kinds.length }
    let s := if symbol = .questionBracket then { s with nesting := s.nesting + 1 } else s
    s.give { kind := .symbol symbol, span, text := symbol.text }

/-- A word goes on over the words and numbers that touch it. -/
def giveWord (s : Layout) (l : Lexeme) : Token × Layout :=
  let joins := fun (m : Lexeme) => m.kind = .word || m.kind = .number
  let more := s.source.takeWhile joins
  let text := more.foldl (fun text m => text ++ m.text) l.text
  let span := more.foldl (fun span m => span.merge m.span) l.span
  let kind := match Keyword.ofWord? text with
    | some keyword => .keyword keyword
    | none => .identifier
  let lastSpan := (more.getLast?.map (·.span)).getD s.lastSpan
  { s with source := s.source.dropWhile joins, lastSpan }.give { kind, span, text }

/-- A closing brace ends the statement before it, as a line end does. -/
def givePunctuator (s : Layout) (l : Lexeme) : Token × Layout :=
  match Symbol.ofPunctuator? l.text with
  | some .rightBrace =>
    let brace : Token := { kind := .symbol .rightBrace, span := l.span, text := "\x7d" }
    { s with queue := [brace] }.give { kind := .newline, span := l.span, text := l.text }
  | some symbol => s.give { kind := .symbol symbol, span := l.span, text := l.text }
  | none =>
    let first := l.text.toList.head?.getD ' '
    s.give { kind := .invalid, span := l.span, text := l.text,
             value := .text s!"Invalid punctuator token '{first}'" }

def giveNumber (s : Layout) (l : Lexeme) : Token × Layout :=
  let (kind, value) := match Token.numberValue? l.text with
    | some (.integer n) => (Token.Kind.integer, Token.Value.integer n)
    | some (.float x) => (.float, .float x)
    | _ => (.invalid, .text "Invalid number")
  s.give { kind, span := l.span, text := l.text, value }

def giveString (s : Layout) (kind : Token.Kind) (l : Lexeme) : Token × Layout :=
  s.give { kind, span := l.span, text := l.text, value := .text (l.value?.getD "") }

def stringKind (l : Lexeme) : Token.Kind :=
  match l.text.toList with
  | '\'' :: _ => .resource
  | '@' :: _ => .rawString
  | _ => .string

/-- The token that starts with a lexeme, if one does. Blanks and line ends
inside brackets start none. -/
def give? (s : Layout) (l : Lexeme) : Option (Token × Layout) :=
  let symbol (s : Layout) (symbol : Symbol) :=
    s.give { kind := .symbol symbol, span := l.span, text := l.text }
  match l.kind with
  | .blank => none
  | .newline => if 0 < s.nesting then none else some (s.startLine l)
  | .endOfText => some (s.endFile l)
  | .invalid =>
    let complaint := l.value?.getD s!"Invalid token '{l.text}'"
    some (s.give { kind := .invalid, span := l.span, text := l.text, value := .text complaint })
  | .leftParen => some (symbol { s with nesting := s.nesting + 1 } .leftParen)
  | .rightParen => some (symbol { s with nesting := s.nesting - 1 } .rightParen)
  | .leftBracket => some (symbol { s with nesting := s.nesting + 1 } .leftBracket)
  | .rightBracket => some (symbol { s with nesting := s.nesting - 1 } .rightBracket)
  | .comma => some (symbol s .comma)
  | .semicolon => some (symbol s .semicolon)
  | .colon => some (symbol s .colon)
  | .question =>
    some (s.giveLongest l .question
      [([.period], .questionPeriod), ([.colon], .questionColon), ([.leftBracket], .questionBracket)])
  | .period =>
    some (s.giveLongest l .period [([.period, .period], .ellipsis), ([.period], .periodPeriod)])
  | .punctuator => some (s.givePunctuator l)
  | .word => some (s.giveWord l)
  | .number => some (s.giveNumber l)
  | .quoted => some (s.giveString (stringKind l) l)
  | .quotedBegin => some (s.giveString .stringBegin l)
  | .quotedMiddle => some (s.giveString .stringMiddle l)
  | .quotedEnd => some (s.giveString .stringEnd l)

/-- Reads lexemes up to the first that starts a token. Behind the last one
stands the end of the file, again and again. -/
def read (s : Layout) : List Lexeme → Token × Layout
  | [] => { s with source := [] }.endFile ⟨.endOfText, "", none, s.lastSpan⟩
  | l :: rest =>
    let s := { s with source := rest, lastSpan := l.span }
    match s.give? l with
    | some result => result
    | none => { s with spaced := true }.read rest

def next (s : Layout) : Token × Layout :=
  match s.queue with
  | token :: queue => (token, { s with queue })
  | [] => s.read s.source

/-- Tokens up to the first end of the file, as long as `fuel` lasts. -/
def tokensFrom (s : Layout) : Nat → List Token
  | 0 => []
  | fuel + 1 =>
    let (token, s) := s.next
    if token.isEnd then [token] else token :: s.tokensFrom fuel

end Layout

/-- The tokens of a sequence of lexemes, up to the first end of the file.
A lexeme gives rise to at most two tokens besides the dedents it causes, and
every dedent belongs to an indent before it. -/
def Token.ofLexemes (source : List Lexeme) : List Token :=
  (Layout.ofSource source).tokensFrom (4 * source.length + 2)

end DreamMaker
