namespace DreamMaker

inductive Anchor where
  | absolute
  | relative
  | downward
  | upward
deriving DecidableEq, Repr, Inhabited

def Anchor.mark : Anchor → String
  | .absolute => "/"
  | .relative => ""
  | .downward => ":"
  | .upward => "."

structure TypePath where
  anchor : Anchor
  segments : List String
deriving DecidableEq, Repr, Inhabited

namespace TypePath

def root : TypePath := ⟨.absolute, []⟩

/-- Segments with every `..` applied to the segment before it. The list
`kept` holds what has been read so far, nearest segment first. -/
def foldUp (kept : List String) : List String → List String
  | [] => kept.reverse
  | segment :: rest => if segment = ".." then foldUp kept.tail rest else foldUp (segment :: kept) rest

def normalize (segments : List String) : List String :=
  foldUp [] (segments.filter fun segment => !segment.isEmpty)

def ofSegments (anchor : Anchor) (segments : List String) : TypePath :=
  ⟨anchor, normalize segments⟩

def absolute (segments : List String) : TypePath :=
  ofSegments .absolute segments

/-- The pieces of a text between slashes, empty ones left out. The list
`piece` holds the piece being read, last character first. -/
def piecesFrom (piece : List Char) : List Char → List String
  | [] => if piece.isEmpty then [] else [String.ofList piece.reverse]
  | c :: rest =>
    if c = '/' then
      if piece.isEmpty then piecesFrom [] rest else String.ofList piece.reverse :: piecesFrom [] rest
    else piecesFrom (c :: piece) rest

def pieces (cs : List Char) : List String :=
  piecesFrom [] cs

def replaceLast (segments : List String) (last : String) : List String :=
  if segments.isEmpty then [] else segments.dropLast ++ [last]

/-- Segments of a text. The overloads `operator/` and `operator/=` hold the
separator, so they are put together again at the end of a text. -/
def readSegments (cs : List Char) : List String :=
  let segments := pieces cs
  if "operator/".toList.isSuffixOf cs then replaceLast segments "operator/"
  else if "operator/=".toList.isSuffixOf cs && 2 ≤ segments.length then
    replaceLast segments.dropLast "operator/="
  else segments

def readChars : List Char → TypePath
  | '/' :: rest => ofSegments .absolute (readSegments ('/' :: rest))
  | ':' :: rest => ofSegments .downward (readSegments rest)
  | '.' :: '.' :: rest => ofSegments .relative (readSegments ('.' :: '.' :: rest))
  | '.' :: rest => ofSegments .upward (readSegments rest)
  | cs => ofSegments .relative (readSegments cs)

def parse (text : String) : TypePath :=
  readChars text.toList

def render (path : TypePath) : String :=
  path.anchor.mark ++ "/".intercalate path.segments

def last? (path : TypePath) : Option String :=
  path.segments.getLast?

def lastName (path : TypePath) : String :=
  path.last?.getD ""

def isRoot (path : TypePath) : Bool :=
  path.anchor == .absolute && path.segments.isEmpty

def find? (path : TypePath) (segment : String) : Option Nat :=
  path.segments.findIdx? (· == segment)

/-- Index of the segment that introduces a proc, `proc` before `verb`. -/
def procMarker? (path : TypePath) : Option Nat :=
  path.find? "proc" <|> path.find? "verb"

/-- The absolute path of the segments from index `start` up to `stop`. -/
def slice (path : TypePath) (start stop : Nat) : TypePath :=
  absolute ((path.segments.take stop).drop start)

def erase (path : TypePath) (index : Nat) : TypePath :=
  ofSegments path.anchor (path.segments.eraseIdx index)

def add (path : TypePath) (text : String) : TypePath :=
  ofSegments path.anchor (path.segments ++ pieces text.toList)

/-- What `other` means inside this path: an absolute path is itself, any
other is appended. -/
def combine (path other : TypePath) : TypePath :=
  if other.anchor = .absolute then other
  else ofSegments path.anchor (path.segments ++ other.segments)

def parent? (path : TypePath) : Option TypePath :=
  if path.segments.isEmpty then none else some ⟨path.anchor, path.segments.dropLast⟩

/-- The path itself and every path around it, nearest first. -/
def enclosing (path : TypePath) : List TypePath :=
  (List.range (path.segments.length + 1)).reverse.map fun count => ⟨path.anchor, path.segments.take count⟩

def toAbsolute (path : TypePath) : TypePath :=
  ⟨.absolute, path.segments⟩

def startsWith (path ancestor : TypePath) : Bool :=
  ancestor.segments.isPrefixOf path.segments

end TypePath

end DreamMaker
