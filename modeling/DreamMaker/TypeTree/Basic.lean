import DreamMaker.Syntax.Expr

namespace DreamMaker

structure Field where
  name : String
  type? : Option TypePath := none
  types : ValueTypes := .anything
  isConst : Bool := false
deriving DecidableEq, Repr, Inhabited

/-- A var that exists once. It belongs to a type, or to the root if every
type sees it. -/
structure GlobalVar where
  id : Nat
  name : String
  owner : TypePath
  type? : Option TypePath
  types : ValueTypes
  value? : Option Expr
deriving Inhabited

/-- What is declared on a type itself. Of two fields of one name the later
declared one stands first. -/
structure TypeEntry where
  parent? : Option TypePath
  fields : List Field := []
  procs : List String := []
  verbs : List TypePath := []
deriving DecidableEq, Repr, Inhabited

/-- The types of a program with what they declare. The id of a global var is
its index in the table. -/
structure TypeTree where
  types : List (TypePath × TypeEntry)
  globals : Array GlobalVar
  /-- The ids of the global vars by the types and the names they are declared with. -/
  globalIds : List ((TypePath × String) × Nat) := []
  globalProcs : List String
deriving Inhabited

namespace TypeTree

/-! Questions. -/

def entry? (tree : TypeTree) (path : TypePath) : Option TypeEntry :=
  tree.types.lookup path.toAbsolute

def hasType (tree : TypeTree) (path : TypePath) : Bool :=
  (tree.entry? path).isSome

def parent? (tree : TypeTree) (path : TypePath) : Option TypePath :=
  (tree.entry? path).bind TypeEntry.parent?

/-- The first types, at most `count` of them, on the way from a type to the root. -/
def lineage (tree : TypeTree) : Nat → TypePath → List (TypePath × TypeEntry)
  | 0, _ => []
  | count + 1, path => match tree.entry? path with
    | none => []
    | some entry => (path.toAbsolute, entry) :: match entry.parent? with
      | none => []
      | some parent => tree.lineage count parent

/-- A type and all that it inherits from, nearest first. No way to the root is
longer than the number of types. -/
def ancestors (tree : TypeTree) (path : TypePath) : List (TypePath × TypeEntry) :=
  tree.lineage tree.types.length path

def field? (tree : TypeTree) (owner : TypePath) (name : String) : Option Field :=
  (tree.ancestors owner).findSome? fun (_, entry) => entry.fields.find? (·.name == name)

def hasProc (tree : TypeTree) (owner : TypePath) (name : String) : Bool :=
  (tree.ancestors owner).any fun (_, entry) => entry.procs.contains name

def hasGlobalProc (tree : TypeTree) (name : String) : Bool :=
  tree.globalProcs.contains name

/-- Whether a type has a proc. The procs of the root are the global ones. -/
def hasProcAt (tree : TypeTree) (owner : TypePath) (name : String) : Bool :=
  if owner.isRoot then tree.hasGlobalProc name else tree.hasProc owner name

def globalId? (tree : TypeTree) (owner : TypePath) (name : String) : Option Nat :=
  tree.globalIds.lookup (owner, name)

/-- The types whose global vars a type sees. All see those of the root. -/
def globalOwners (tree : TypeTree) (path : TypePath) : List TypePath :=
  let owners := (tree.ancestors path).map (·.1)
  if owners.getLast? == some .root then owners else owners ++ [.root]

def globalVar? (tree : TypeTree) (owner : TypePath) (name : String) : Option GlobalVar :=
  ((tree.globalOwners owner).findSome? fun path => tree.globalId? path name).bind fun id => tree.globals[id]?

def verbs (tree : TypeTree) (owner : TypePath) : List TypePath :=
  ((tree.entry? owner).map TypeEntry.verbs).getD []

/-- Whether there is what a path names: a proc if one of its segments, at the
given index, says so, and a type otherwise. -/
def names (tree : TypeTree) (path : TypePath) : Option Nat → Bool
  | none => tree.hasType path
  | some index => index + 1 < path.segments.length && tree.hasProcAt (path.slice 0 index) path.lastName

/-- Looks for a type or a proc in a path, and then in each path around it. -/
def search? (tree : TypeTree) (base target : TypePath) : Option TypePath :=
  let inner := TypePath.ofSegments .relative target.segments
  base.toAbsolute.enclosing.findSome? fun outer =>
    let candidate := outer.combine inner
    if tree.names candidate (inner.procMarker?.map (outer.segments.length + ·)) then some candidate else none

/-! Declarations. -/

def insertNew (tree : TypeTree) (path : TypePath) (entry : TypeEntry) : TypeTree :=
  if tree.hasType path then tree
  else { tree with types := tree.types ++ [(path.toAbsolute, entry)] }

/-- Adds a type, and those around it, as far as they are missing. The segments
are given last one first. A type right under the root is a `/datum`, any other
belongs to the type around it. -/
def ensureSegments (tree : TypeTree) : List String → TypeTree
  | [] => tree.insertNew .root { parent? := none }
  | [segment] => tree.insertNew ⟨.absolute, [segment]⟩ { parent? := some (.absolute ["datum"]) }
  | segment :: rest =>
    let path : TypePath := ⟨.absolute, (segment :: rest).reverse⟩
    if tree.hasType path then tree
    else (tree.ensureSegments rest).insertNew path { parent? := some ⟨.absolute, rest.reverse⟩ }

def ensureType (tree : TypeTree) (path : TypePath) : TypeTree :=
  tree.ensureSegments path.segments.reverse

def modifyEntry (tree : TypeTree) (path : TypePath) (change : TypeEntry → TypeEntry) : TypeTree :=
  { tree with types := tree.types.map fun (key, entry) =>
      if key == path.toAbsolute then (key, change entry) else (key, entry) }

def declareOn (tree : TypeTree) (path : TypePath) (change : TypeEntry → TypeEntry) : TypeTree :=
  (tree.ensureType path).modifyEntry path change

def addField (tree : TypeTree) (owner : TypePath) (field : Field) : TypeTree :=
  tree.declareOn owner fun entry => { entry with fields := field :: entry.fields }

def addProc (tree : TypeTree) (owner : TypePath) (name : String) : TypeTree :=
  if owner.isRoot then { tree with globalProcs := name :: tree.globalProcs }
  else tree.declareOn owner fun entry => { entry with procs := name :: entry.procs }

def addVerb (tree : TypeTree) (owner proc : TypePath) : TypeTree :=
  tree.declareOn owner fun entry =>
    if entry.verbs.contains proc then entry else { entry with verbs := entry.verbs ++ [proc] }

/-- Declares a global var and gives its id. A second declaration of the same
var changes nothing. -/
def addGlobal (tree : TypeTree) (owner : TypePath) (name : String) (type? : Option TypePath)
    (types : ValueTypes) (value? : Option Expr) : Nat × TypeTree :=
  match tree.globalId? owner.toAbsolute name with
  | some id => (id, tree)
  | none =>
    let id := tree.globals.size
    (id, { tree with
      globals := tree.globals.push { id, name, owner := owner.toAbsolute, type?, types, value? }
      globalIds := ((owner.toAbsolute, name), id) :: tree.globalIds })

def registerGlobal (tree : TypeTree) (owner : TypePath) (name : String) (type? : Option TypePath)
    (value? : Option Expr) : Nat × TypeTree :=
  tree.addGlobal owner name type? .anything value?

end TypeTree

end DreamMaker
