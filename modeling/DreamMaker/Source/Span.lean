namespace DreamMaker

/-- A place in a text. Lines and columns count characters from one, the
offset counts bytes from zero. -/
structure Position where
  line : Nat
  column : Nat
  offset : Nat
deriving DecidableEq, Repr, Inhabited

namespace Position

def first : Position := ⟨1, 1, 0⟩

def after (place : Position) (c : Char) : Position :=
  if c = '\n' then ⟨place.line + 1, 1, place.offset + c.utf8Size⟩
  else ⟨place.line, place.column + 1, place.offset + c.utf8Size⟩

def afterAll (place : Position) (cs : List Char) : Position :=
  cs.foldl after place

/-- Reading order, which looks at lines before columns. -/
def le (a b : Position) : Bool :=
  a.line < b.line || (a.line == b.line && a.column ≤ b.column)

def render (place : Position) : String :=
  s!"{place.line}:{place.column}"

end Position

/-- A range of a text, tagged with the number of the file it lies in. -/
structure Span where
  file : Nat
  start : Position
  stop : Position
deriving DecidableEq, Repr, Inhabited

namespace Span

/-- The span of nodes that no text stands for. -/
def unknown : Span := ⟨0, ⟨0, 0, 0⟩, ⟨0, 0, 0⟩⟩

def isUnknown (span : Span) : Bool :=
  span.start.line == 0 && span.stop.line == 0

/-- The smallest span over both. An unknown span gives way to the other. -/
def merge (a b : Span) : Span :=
  if a.isUnknown then b
  else if b.isUnknown then a
  else
    { file := a.file
      start := if a.start.le b.start then a.start else b.start
      stop := if b.stop.le a.stop then a.stop else b.stop }

def length (span : Span) : Nat :=
  span.stop.offset - span.start.offset

def isEmpty (span : Span) : Bool :=
  span.start.offset == span.stop.offset

def render (span : Span) : String :=
  if span.start.line == span.stop.line then s!"{span.start.render}-{span.stop.column}"
  else s!"{span.start.render}-{span.stop.render}"

end Span

end DreamMaker
