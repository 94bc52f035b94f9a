import DreamMaker.Source.Span

namespace DreamMaker

/-- A named text cut into lines, kept to show the line a report points at. -/
structure Lines where
  name : String
  text : String
  lines : List String
deriving Repr

namespace Lines

/-- The pieces between line feeds. There is always at least one. -/
def split : List Char → List (List Char)
  | [] => [[]]
  | c :: rest =>
    if c = '\n' then [] :: split rest
    else
      match split rest with
      | [] => [[c]]
      | line :: more => (c :: line) :: more

def trim (line : List Char) : String :=
  String.ofList (line.reverse.dropWhile (· = '\r')).reverse

def ofText (name text : String) : Lines :=
  { name, text, lines := (split text.toList).map trim }

def count (source : Lines) : Nat :=
  source.lines.length

def line? (source : Lines) : Nat → Option String
  | 0 => none
  | n + 1 => source.lines[n]?

def describe (source : Lines) (span : Span) : String :=
  s!"{source.name}:{span.start.render}"

end Lines

end DreamMaker
