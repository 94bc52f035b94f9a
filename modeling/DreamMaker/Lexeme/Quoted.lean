import DreamMaker.Lexeme.Comment

namespace DreamMaker.Lexeme

/-- The body of quoted text as far as it was read: its value, the number of
characters taken with the closing marks, and the complaint if it does not end. -/
structure Body where
  value : List Char
  length : Nat
  complaint? : Option String
deriving DecidableEq, Repr

def Body.after (body : Body) (piece : List Char) (n : Nat) : Body :=
  { body with value := piece ++ body.value, length := n + body.length }

def Body.complete : Body := ⟨[], 0, none⟩

def Body.broken (complaint : String) : Body := ⟨[], 0, some complaint⟩

inductive Quote
  /-- Text up to a terminator. Long text ends with the terminator and a
  brace, and may hold line ends. -/
  | text (terminator : Char) (long : Bool)
  | hole (outer : Nat)

def Quote.complaint : Quote → String
  | .text _ true => "Expected '\x7d' to end long string"
  | .text terminator false => s!"Expected '{terminator}' to end string"
  | .hole _ => "Expected ']' to end expression"

/-- Where a reader of quoted text stands: what it is inside of, and what is around
that. Behind a backslash at the end of a line blanks are dropped (`joining`). -/
structure Quoting where
  inner : Quote
  outer : List Quote := []
  joining : Bool := false

inductive Quoting.Look
  | stop (body : Body)
  | go (next : Quoting) (piece : List Char) (more : Nat)

namespace Quoting

/-- Leaves what the reader is inside of. The marks that end it belong to what is
around it. -/
def leave (q : Quoting) (marks value : List Char) : Look :=
  match q.outer with
  | [] => .stop (Body.complete.after value marks.length)
  | inner :: outer => .go { inner, outer } marks (marks.length - 1)

def enter (q : Quoting) (inner : Quote) (marks : List Char) : Look :=
  .go { inner, outer := q.inner :: q.outer } marks (marks.length - 1)

/-- Looks at a character and the one behind it. Expressions in brackets are
copied whatever they hold, with the strings inside them, so a quote in one of them
does not end the text around it. -/
def look (q : Quoting) (c : Char) (next? : Option Char) : Look :=
  let copy := .go { q with joining := false } [c] 0
  if q.joining && (isGap c || endsLine c) then .go q [] 0
  else match q.inner with
    | .text terminator long =>
      if !long && endsLine c then .stop (.broken q.inner.complaint)
      else if c = '\\' then
        match next? with
        | none => .stop ((Body.broken q.inner.complaint).after ['\\'] 1)
        | some d =>
          if endsLine d then .go { q with joining := true } [] 0
          else .go { q with joining := false } ['\\', d] 1
      else if c = '[' then q.enter (.hole 0) ['[']
      else if c = terminator then
        if !long then q.leave [c] []
        else if next? = some '}' then q.leave [c, '}'] []
        else copy
      else copy
    | .hole depth =>
      if c = '[' then .go { q with inner := .hole (depth + 1), joining := false } [c] 0
      else if c = ']' then
        match depth with
        | depth + 1 => .go { q with inner := .hole depth, joining := false } [c] 0
        | 0 => q.leave [c] [c]
      else if c = '"' || c = '\'' then q.enter (.text c false) [c]
      else if c = '{' && next? = some '"' then q.enter (.text '"' true) ['{', '"']
      else copy

end Quoting

/-- Reads the body of quoted text, of which `taken` characters are read already. -/
def bodyFrom (taken : Nat) (q : Quoting) : List Char → Body
  | [] => .broken q.inner.complaint
  | c :: cs => match taken with
    | taken + 1 => bodyFrom taken q cs
    | 0 => match q.look c cs.head? with
      | .stop body => body
      | .go next piece more => (bodyFrom more next cs).after piece (more + 1)

def stringBody (terminator : Char) (long : Bool) (cs : List Char) : Body :=
  bodyFrom 0 { inner := .text terminator long } cs

def longRawBody : List Char → Body
  | [] => .broken "Expected '\x7d' to end raw string"
  | c :: cs => match c, cs with
    | '"', '}' :: _ => Body.complete.after [] 2
    | _, cs => (longRawBody cs).after [c] 1

def shortRawBody (delimiter : Char) : List Char → Body
  | [] => .broken s!"Expected '{delimiter}' to end raw string"
  | c :: cs =>
    if endsLine c then .broken s!"Expected '{delimiter}' to end raw string"
    else if c = delimiter then Body.complete.after [] 1
    else (shortRawBody delimiter cs).after [c] 1

/-- The body of raw text with its delimiter, behind the mark that starts it. -/
def rawBody : List Char → Body
  | [] => .broken "Expected a raw string delimiter"
  | '{' :: '"' :: cs => (longRawBody cs).after [] 2
  | delimiter :: cs => (shortRawBody delimiter cs).after [] 1

end DreamMaker.Lexeme
