import DreamMaker.Parsing.Phrase
import DreamMaker.Syntax.Format
import DreamMaker.Text.Blank
import DreamMaker.Token.Layout

namespace DreamMaker.Parsing

def wholeExpression (rules : Rules) : Parser Expr := do
  let _ ← delimiters
  let e ← expression rules
  let _ ← delimiters
  let _ ← acceptAll (· = .dedent)
  if ← atEnd then return e else failHere .unexpectedToken "Expected end of expression"

/-- The tokens of a hole. All of them have the place of the string. -/
def holeTokens (text : List Char) (span : Span) : List Token :=
  Token.ofLexemes (Lexeme.scan (.embedded span) (String.ofList text))

/-- What a hole holds once it has been read. One that cannot be read is
empty. -/
def heldIn (result : Except ParseError Expr) : Parser (Option Expr) :=
  match result with
  | .ok e => return some e
  | .error error => do
    report error.toReport
    return none

def hole (rules : Rules) (cs : List Char) (span : Span) : Parser (Option Expr) := do
  let text := Text.trim cs
  if text.isEmpty then return none
  else
    let config ← config
    let (result, inner) := (wholeExpression rules).run.run (.ofTokens (holeTokens text span) { config })
    reportAll inner.reports
    heldIn result

def addText (format : Format) (cs : List Char) (span : Span) : Parser Format := do
  let (format, reports) := format.addText cs span
  reportAll reports
  return format

def addSegment (rules : Rules) (span : Span) (format : Format) (segment : Segment) : Parser Format := do
  match segment with
  | .text cs => addText format cs span
  | .hole cs => return format.addHole (← hole rules cs span)
  | .unclosed =>
    warn .badToken span "Expected ']'"
    return format

def stringLiteral (rules : Rules) (token : Token) : Parser Expr := do
  let format ← (Segment.split token.textValue.toList).foldlM (addSegment rules token.span) {}
  return format.toExpr token.span

def splitTurn (rules : Rules) (format : Format) : Parser (Turn Format Format) := do
  let format := format.addHole (← expression? rules)
  let segment ← current
  if segment.kind = .stringMiddle then
    advance
    return .again (← addText format segment.textValue.toList segment.span)
  else if segment.kind = .stringEnd then
    advance
    return .stop (← addText format segment.textValue.toList segment.span)
  else failHere .expectedToken "Expected end of string"

def splitString (rules : Rules) : Parser Expr := do
  let first ← current
  advance
  let format ← addText {} first.textValue.toList first.span
  let format ← rounds format (splitTurn rules)
  return format.toExpr (← since first.span)

end DreamMaker.Parsing
