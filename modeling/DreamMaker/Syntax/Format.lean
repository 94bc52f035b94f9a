import DreamMaker.Diagnostic.Report
import DreamMaker.Syntax.Expr
import DreamMaker.Syntax.Mark

namespace DreamMaker

/-- A piece of the body of a string: text as it is written, the text of a hole
without its brackets, or the end of a body in the middle of a hole. -/
inductive Segment
  | text (cs : List Char)
  | hole (cs : List Char)
  | unclosed
deriving DecidableEq, Repr

namespace Segment

/-- Number of characters before the bracket that closes a hole, with `outer`
more brackets open. Inside quotes brackets do not count, and a backslash
protects the next character. -/
def holeLength? (outer : Nat) (quote? : Option Char) : List Char → Option Nat
  | [] => none
  | c :: cs =>
    match quote? with
    | some quote =>
      if c = '\\' then
        match cs with
        | [] => none
        | _ :: cs => (holeLength? outer quote? cs).map (· + 2)
      else (holeLength? outer (if c = quote then none else quote?) cs).map (· + 1)
    | none =>
      if c = '"' || c = '\'' then (holeLength? outer (some c) cs).map (· + 1)
      else if c = '[' then (holeLength? (outer + 1) none cs).map (· + 1)
      else if c = ']' then
        match outer with
        | 0 => some 0
        | outer + 1 => (holeLength? outer none cs).map (· + 1)
      else (holeLength? outer none cs).map (· + 1)

/-- Cuts the rest of a body, of which `taken` characters belong to the segment
before it. `run` holds the text read so far, last character first. -/
def splitFrom (taken : Nat) (run : List Char) : List Char → List Segment
  | [] => [.text run.reverse]
  | c :: cs =>
    match taken with
    | taken + 1 => splitFrom taken run cs
    | 0 =>
      if c = '\\' then
        match cs with
        | [] => [.text (c :: run).reverse]
        | d :: cs => splitFrom 0 (d :: c :: run) cs
      else if c = '[' then
        match holeLength? 0 none cs with
        | none => [.unclosed, .text run.reverse]
        | some n => .text run.reverse :: .hole (cs.take n) :: splitFrom (n + 1) [] cs
      else splitFrom 0 (c :: run) cs

/-- The segments of the body of a string. Text stands before, between and
behind the holes. -/
def split (cs : List Char) : List Segment := splitFrom 0 [] cs

end Segment

inductive Glyph
  | char (c : Char)
  | code (mark : Mark) (placement : Mark.Placement)
deriving DecidableEq, Repr

namespace Glyph

/-- The character that four hexadecimal digits stand for. A plus sign may
take the place of the first digit. -/
def codePoint? (cs : List Char) : Option Char :=
  let digits := cs.take 4
  if digits.length < 4 then none
  else
    let value? := match digits with
      | '+' :: rest => Decimal.readDigits? 16 rest
      | _ => Decimal.readDigits? 16 digits
    value?.bind fun n => if n.isValidChar then some (Char.ofNat n) else none

/-- Decodes what stands behind a backslash: the glyph, if there is one, and
how many characters it takes. -/
def escape (cs : List Char) : Option Glyph × Nat :=
  match cs with
  | [] => (some (.char '\\'), 0)
  | c :: rest =>
    match if c = 'u' then codePoint? rest else none with
    | some decoded => (some (.char decoded), 5)
    | none =>
      if ['.', '.', '.'].isPrefixOf cs then (none, 3)
      else
        let word := cs.takeWhile Char.isAlpha
        match Mark.ofMacro? (String.ofList word) with
        | some (mark, placement) => (some (.code mark placement), word.length)
        | none => (some (.char (if c = 'n' then '\n' else if c = 't' then '\t' else c)), 1)

/-- Decodes the rest of a text, of which `taken` characters belong to the
glyph before it. -/
def decodeFrom (taken : Nat) : List Char → List Glyph
  | [] => []
  | c :: cs =>
    match taken with
    | taken + 1 => decodeFrom taken cs
    | 0 =>
      if c = '\\' then
        let (glyph?, n) := escape cs
        glyph?.toList ++ decodeFrom n cs
      else .char c :: decodeFrom 0 cs

def decode (cs : List Char) : List Glyph := decodeFrom 0 cs

end Glyph

structure Format where
  text : String := ""
  holes : List (Option Expr) := []
  next : Mark := .value
  last? : Option Mark := none

namespace Format

/-- Adds a text macro. One that speaks of the value before it needs a hole
there that prints a value. -/
def addMacro (format : Format) (mark : Mark) (placement : Mark.Placement) (span : Span) : Format × Option Report :=
  let marked := { format with text := format.text.push mark.char }
  match placement with
  | .before =>
    if mark = .reference then ({ format with next := .reference }, none)
    else ({ marked with next := .bareValue }, none)
  | .after =>
    match format.last? with
    | some .reference | none =>
      let message := s!"Macro \"{mark.label}\" requires a preceding interpolated expression"
      (marked, some (.located .missingInterpolatedExpression span message))
    | some _ => (marked, none)
  | .alone => (marked, none)

def addGlyph (span : Span) (so : Format × Array Report) : Glyph → Format × Array Report
  | .char c => ({ so.1 with text := so.1.text.push c }, so.2)
  | .code mark placement =>
    let (format, report?) := so.1.addMacro mark placement span
    (format, so.2 ++ report?.toArray)

def addText (format : Format) (cs : List Char) (span : Span) : Format × Array Report :=
  (Glyph.decode cs).foldl (addGlyph span) (format, #[])

def addHole (format : Format) (value? : Option Expr) : Format :=
  { text := format.text.push format.next.char
    holes := format.holes ++ [value?]
    next := .value
    last? := some format.next }

def toExpr (format : Format) (span : Span) : Expr :=
  if format.holes.isEmpty then .string format.text span
  else .mk (.format format.text format.holes) span

end Format

end DreamMaker
