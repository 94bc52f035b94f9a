import DreamMaker.Term.Basic

namespace DreamMaker

/-- A local var or a parameter of a proc, with the value it always has if it
is declared `const`. -/
structure Local where
  name : String
  id : Nat
  type? : Option TypePath
  constant? : Option Term
deriving Inhabited

/-- The names that are known at a place in a proc. There is always an innermost
scope, and `outer` holds the scopes around it, nearest first. -/
structure Frame where
  owner : TypePath
  name : String
  scope : List Local := []
  outer : List (List Local) := []
  /-- Ids of the global vars that the proc declares, the latest first. -/
  globals : List (String × Nat) := []
  /-- All locals declared so far, also in scopes that are closed, the latest first. -/
  locals : List Local := []
deriving Inhabited

namespace Frame

def path (frame : Frame) : TypePath :=
  (frame.owner.add "proc").add frame.name

def localCount (frame : Frame) : Nat := frame.locals.length

def openScope (frame : Frame) : Frame :=
  { frame with scope := [], outer := frame.scope :: frame.outer }

def closeScope (frame : Frame) : Frame :=
  match frame.outer with
  | [] => frame
  | scope :: outer => { frame with scope, outer }

/-- Declares a local in the innermost scope, unless it has one of that name. -/
def declare (frame : Frame) (name : String) (type? : Option TypePath) (constant? : Option Term) :
    Option (Local × Frame) :=
  if frame.scope.any (·.name == name) then none
  else
    let var : Local := { name, id := frame.localCount, type?, constant? }
    some (var, { frame with scope := var :: frame.scope, locals := var :: frame.locals })

/-- The local that a name stands for, looked up from the innermost scope outward. -/
def local? (frame : Frame) (name : String) : Option Local :=
  (frame.scope :: frame.outer).findSome? fun scope => scope.find? (·.name == name)

def addGlobal (frame : Frame) (name : String) (id : Nat) : Frame :=
  { frame with globals := (name, id) :: frame.globals }

def global? (frame : Frame) (name : String) : Option Nat :=
  frame.globals.lookup name

end Frame

end DreamMaker
