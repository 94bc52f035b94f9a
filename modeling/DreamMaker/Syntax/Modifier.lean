import DreamMaker.Path

namespace DreamMaker

/-- The kinds of value that a var, a parameter or an input accepts, as a set
of bits. The empty set accepts anything. -/
structure ValueTypes where
  bits : Nat := 0
deriving DecidableEq, Repr, Inhabited

namespace ValueTypes

def anything : ValueTypes := ⟨0⟩

/-- The words behind `as`. All but the first stand for one bit each, in order. -/
def words : List String :=
  ["null", "text", "obj", "mob", "turf", "num", "message", "area", "color", "file", "command_text",
   "sound", "icon", "opendream_unimplemented", "opendream_compiletimereadonly"]

def ofWord? (word : String) : Option ValueTypes :=
  if word = "anything" then some anything
  else (words.findIdx? (· == word)).map fun i => ⟨1 <<< i⟩

def union (a b : ValueTypes) : ValueTypes := ⟨a.bits ||| b.bits⟩

def isAnything (types : ValueTypes) : Bool := types.bits == 0

def ofWords (given : List String) : ValueTypes :=
  given.foldl (fun types word => types.union ((ofWord? word).getD anything)) anything

/-- What marks a var that has no effect yet. -/
def unimplemented : ValueTypes := ofWords ["opendream_unimplemented"]

def contains (types other : ValueTypes) : Bool := types.bits &&& other.bits == other.bits

end ValueTypes

/-- The words in a var's path that are not part of its type. -/
structure Modifiers where
  isStatic : Bool := false
  isConst : Bool := false
  isTemporary : Bool := false
  isFinal : Bool := false
deriving DecidableEq, Repr, Inhabited

namespace Modifiers

def split : List String → Modifiers × List String
  | [] => ({}, [])
  | segment :: rest =>
    let (modifiers, kept) := split rest
    if segment = "global" || segment = "static" then ({ modifiers with isStatic := true }, kept)
    else if segment = "const" then ({ modifiers with isConst := true }, kept)
    else if segment = "tmp" then ({ modifiers with isTemporary := true }, kept)
    else if segment = "final" then ({ modifiers with isFinal := true }, kept)
    else (modifiers, segment :: kept)

end Modifiers

def TypePath.ofTypeSegments? (segments : List String) : Option TypePath :=
  if segments.isEmpty then none else some (.absolute segments)

end DreamMaker
