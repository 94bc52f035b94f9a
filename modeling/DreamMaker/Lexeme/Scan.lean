import DreamMaker.Lexeme.Basic
import DreamMaker.Lexeme.Quoted
import DreamMaker.Text.Word

namespace DreamMaker.Lexeme

def symbolTail (first : Char) (cs : List Char) : Nat :=
  let equals (n : Nat) (cs : List Char) := if cs.head? = some '=' then n + 1 else n
  let doubled := cs.head? = some first
  match first with
  | '+' | '-' | '*' => if doubled then 1 else equals 0 cs
  | '%' | '&' | '|' => if doubled then equals 1 cs.tail else equals 0 cs
  | '<' => if doubled then equals 1 cs.tail else if cs.head? = some '>' then 1 else equals 0 cs
  | '>' => if doubled then equals 1 cs.tail else equals 0 cs
  | '~' => if cs.head? = some '!' then 1 else equals 0 cs
  | _ => equals 0 cs

def startsSymbol (c : Char) : Bool :=
  "+-*/%^!=~&|<>".toList.contains c

def mark? (first : Char) (cs : List Char) : Option (Kind × Nat) :=
  match first with
  | '(' => some (.leftParen, 0)
  | ')' => some (.rightParen, 0)
  | ']' => some (.rightBracket, 0)
  | ',' => some (.comma, 0)
  | ';' => some (.semicolon, 0)
  | '.' => some (.period, 0)
  | '?' => some (.question, 0)
  | '{' | '}' => some (.punctuator, 0)
  | '[' =>
    if cs.head? = some ']' then some (.punctuator, if cs.tail.head? = some '=' then 2 else 1)
    else some (.leftBracket, 0)
  | ':' => if cs.head? = some '=' || cs.head? = some ':' then some (.punctuator, 1) else some (.colon, 0)
  | _ => none

def inNumber (c : Char) : Bool :=
  c.isDigit || ('a' ≤ c && c ≤ 'f') || ('A' ≤ c && c ≤ 'F') || ".x#pP".toList.contains c

/-- Number of characters that continue a number, and whether it is well
formed. A sign continues it behind an exponent letter only; behind a hash mark
stands infinity or no number, spelled in full. -/
def numberTail (before : Char) : List Char → Nat × Bool
  | [] => (0, true)
  | c :: cs =>
    if (before = 'e' || before = 'E') && (c = '-' || c = '+') then
      (numberTail c cs).map (· + 1) id
    else if before = '#' && c = 'I' then
      match cs with
      | a :: b :: cs =>
        if a = 'N' && (b = 'F' || b = 'D') then (numberTail 'F' cs).map (· + 3) id else (3, false)
      | cs => (1 + cs.length, false)
    else if inNumber c then (numberTail c cs).map (· + 1) id
    else (0, true)

/-- One step of the scanner: how many characters it takes behind the first,
and the lexeme it finds, if any. -/
structure Step where
  more : Nat
  found? : Option (Kind × String × Option String)

namespace Step

def skip (more : Nat) : Step := ⟨more, none⟩

def found (kind : Kind) (c : Char) (cs : List Char) (more : Nat) (value? : Option String) : Step :=
  ⟨more, some (kind, String.ofList (c :: cs.take more), value?)⟩

def mark (kind : Kind) (c : Char) (cs : List Char) (more : Nat) : Step :=
  found kind c cs more none

def invalid (c : Char) (cs : List Char) (more : Nat) (complaint : String) : Step :=
  found .invalid c cs more (some complaint)

def quoted (c : Char) (cs : List Char) (ahead : Nat) (body : Body) : Step :=
  match body.complaint? with
  | none => found .quoted c cs (ahead + body.length) (some (String.ofList body.value))
  | some complaint => invalid c cs (ahead + body.length) complaint

end Step

def openComment : String := "Expected \"*/\" to end multiline comment"

/-- Blanks within a line. At the start of a line comments behind them are
dropped too, and so is the whole line if nothing else stands on it. -/
def gapStep (lineStart : Bool) (c : Char) (cs : List Char) : Step :=
  let more := (cs.takeWhile isGap).length
  let text := String.ofList (c :: cs.take more)
  if lineStart then
    match commentsLength? (cs.drop more) with
    | none => .invalid c cs cs.length openComment
    | some n =>
      let rest := cs.drop (more + n)
      if rest.isEmpty || atLineEnd rest then .skip (more + n)
      else ⟨more + n, some (.blank, text, none)⟩
  else ⟨more, some (.blank, text, none)⟩

def markStep (c : Char) (cs : List Char) : Step :=
  if c = '{' && cs.head? = some '"' then .quoted c cs 1 (stringBody '"' true cs.tail)
  else if c = '"' || c = '\'' then .quoted c cs 0 (stringBody c false cs)
  else if c = '@' then .quoted c cs 0 (rawBody cs)
  else match mark? c cs with
    | some (kind, more) => .mark kind c cs more
    | none => .invalid c cs 0 s!"Unknown character: {c}"

def step (lineStart : Bool) (c : Char) (cs : List Char) : Step :=
  if isGap c then gapStep lineStart c cs
  else if endsLine c then
    let more := lineEndLength (c :: cs) - 1
    if lineStart then .skip more else ⟨more, some (.newline, "\n", none)⟩
  else if c = '/' && (cs.head? = some '/' || cs.head? = some '*') then
    match commentsLength? (c :: cs) with
    | none => .invalid c cs cs.length openComment
    | some n => .skip (n - 1)
  else if c = '\\' && atLineEnd cs then
    let n := lineEndLength cs
    .skip (n + ((cs.drop n).takeWhile isGap).length)
  else if c = '#' then
    .invalid c cs (cs.takeWhile fun d => !endsLine d).length "Preprocessor directives are not supported"
  else if startsSymbol c then .mark .punctuator c cs (symbolTail c cs)
  else if c.isDigit then
    let (more, good) := numberTail c cs
    if good then .mark .number c cs more else .invalid c cs more "Invalid number"
  else if Text.startsWord c then
    .mark .word c cs (cs.takeWhile Text.continuesWord).length
  else markStep c cs

/-- How spans are made from places: those of a file, or one span for
everything, where the text is embedded in another lexeme. -/
inductive Origin
  | file (id : Nat)
  | embedded (span : Span)
deriving DecidableEq, Repr

def Origin.span (origin : Origin) (start stop : Position) : Span :=
  match origin with
  | .file id => ⟨id, start, stop⟩
  | .embedded span => span

/-- Scans the rest of a text, of which `taken` characters belong to the
lexeme before it. `place` is the place behind those. -/
def scanFrom (origin : Origin) (taken : Nat) (place : Position) (lineStart : Bool) :
    List Char → List Lexeme
  | [] => [⟨.endOfText, "", none, origin.span place place⟩]
  | c :: cs =>
    match taken with
    | taken + 1 => scanFrom origin taken place lineStart cs
    | 0 =>
      let s := step lineStart c cs
      let stop := place.afterAll (c :: cs.take s.more)
      match s.found? with
      | none => scanFrom origin s.more stop lineStart cs
      | some (kind, text, value?) =>
        ⟨kind, text, value?, origin.span place stop⟩
          :: scanFrom origin s.more stop (kind = .newline) cs

def scan (origin : Origin) (text : String) : List Lexeme :=
  scanFrom origin 0 .first true text.toList

end DreamMaker.Lexeme
