import DreamMaker.Frame
import DreamMaker.Resolution.Error
import DreamMaker.Term.Constant
import DreamMaker.TypeTree.Basic

namespace DreamMaker

inductive Visibility
  | everything
  /-- No locals, fields or procs of `src`, as in the value of a global var. -/
  | static
  /-- Of what programs declare, global procs only. -/
  | globalProcs
deriving DecidableEq, Repr, Inhabited

namespace Visibility

def seesInstance (visibility : Visibility) : Bool := visibility == .everything

def seesGlobals (visibility : Visibility) : Bool := visibility != .globalProcs

end Visibility

/-- Where an expression stands. There is no frame outside procs. -/
structure Context where
  tree : TypeTree
  owner : TypePath
  frame? : Option Frame := none
  visibility : Visibility := .everything

/-- What may fail with an error and reports other problems on the way. -/
abbrev Resolve := ExceptT SemanticError (StateM (Array Report))

namespace Resolve

def report (report : Report) : Resolve Unit :=
  modify fun reports => reports.push report

def fail {α : Type} (cause : SemanticError.Cause) (span : Span) : Resolve α :=
  throw { cause, span }

def useField (owner : TypePath) (field : Field) (span : Span) : Resolve Unit := do
  if field.types.contains .unimplemented then
    report (.located .unimplementedAccess span s!"{owner.render}.{field.name} is not implemented")

def infer (inferred? : Option TypePath) (span : Span) : Resolve TypePath :=
  match inferred? with
  | some path => pure path
  | none => fail .nothingInferred span

end Resolve

namespace Term

def listType : Option TypePath := some (.absolute ["list"])

def globalVar (name : String) (var : GlobalVar) (span : Span) : Term :=
  typed (.var (.global name var.id)) var.type? span

def globalVars (span : Span) : Term := typed (.ambient .globalVars) listType span

end Term

namespace Context

open Resolve

/-! Names. -/

def local? (context : Context) (name : String) : Option Local :=
  if context.visibility.seesInstance then context.frame?.bind (·.local? name) else none

def field? (context : Context) (name : String) : Option Field :=
  if context.visibility.seesInstance then context.tree.field? context.owner name else none

/-- The global var that a name stands for. Those that the proc itself declares
come first. -/
def global? (context : Context) (name : String) : Option GlobalVar :=
  if context.visibility.seesGlobals then
    match context.frame?.bind (·.global? name) with
    | some id => context.tree.globals[id]?
    | none => context.tree.globalVar? context.owner name
  else none

def reserved? (context : Context) (inferred? : Option TypePath) (name : String) (span : Span) :
    Option (Resolve Term) :=
  match name with
  | "src" => some (pure (.typed (.ambient .src) (some context.owner) span))
  | "usr" => some (pure (.typed (.ambient .usr) (some (.absolute ["mob"])) span))
  | "args" => some (pure (.typed (.ambient .args) Term.listType span))
  | "world" =>
    if context.visibility.seesGlobals then
      some (pure (.typed (.ambient .world) (some (.absolute ["world"])) span))
    else none
  | "global" => some (fail .bareGlobal span)
  | "__TYPE__" => some (pure (.path context.owner span))
  | "__PROC__" => some <| match context.frame? with
    | some frame => pure (.plain (.atom (.proc frame.path)) span)
    | none => fail .procNameOutsideProc span
  | "__IMPLIED_TYPE__" => some do return .path (← infer inferred? span) span
  | _ => none

/-- What a name that is not reserved stands for: a local before a field of
`src` before a global var. A `const` local is replaced by its value. -/
def declared (context : Context) (name : String) (span : Span) : Resolve Term :=
  match context.local? name, context.field? name, context.global? name with
  | some var, _, _ => match var.constant? with
    | some constant => pure (constant.withSpan span)
    | none => pure (.localVar name var.id var.type? span)
  | none, some field, _ => do
    useField context.owner field span
    return .typed (.var (.field name)) field.type? span
  | none, none, some var => pure (.globalVar name var span)
  | none, none, none => fail (.unknownName name) span

def name (context : Context) (inferred? : Option TypePath) (name : String) (span : Span) : Resolve Term :=
  (context.reserved? inferred? name span).getD (context.declared name span)

/-! Paths. -/

def place (context : Context) (path : TypePath) : TypePath :=
  if path.anchor = .absolute then path
  else context.owner.combine (.ofSegments .relative path.segments)

def constantPath (context : Context) (path : TypePath) (span : Span) : Resolve Term :=
  let path := context.place path
  let marker? := path.procMarker?
  match context.tree.names path marker?, marker? with
  | true, none => pure (.path path span)
  | true, some _ => pure (.plain (.atom (.proc path)) span)
  | false, none => fail (.noType path) span
  | false, some _ => fail (.noProc path) span

def searchedPath (context : Context) (base target : TypePath) (span : Span) : Resolve Term :=
  match context.tree.search? base target with
  | some path => context.constantPath path span
  | none => fail (.notFound base target) span

/-! Calls and creation. -/

/-- The proc that a direct call goes to. Procs of `src` come before global ones. -/
def procTarget (context : Context) (span : Span) : CallTarget → Resolve ProcTarget
  | .named name =>
    if context.visibility.seesInstance && context.tree.hasProc context.owner name then pure (.src name)
    else if context.tree.hasGlobalProc name then pure (.global name)
    else fail (.noProcNamed name) span
  | .self => if context.frame?.isNone then fail .procCallOutsideProc span else pure .self
  | .parent => if context.frame?.isNone then fail .procCallOutsideProc span else pure .parent

def newAt (context : Context) (path : TypePath) (args : List Term.Argument) (span : Span) : Resolve Term := do
  match (← context.constantPath path span).path? with
  | some path => return .typed (.newPath path args) (some path) span
  | none => fail .procInstance span

/-! Places that are written to. -/

def isConstLocal (context : Context) (target : Expr) : Bool :=
  match target.name? with
  | some name => ((context.local? name).bind Local.constant?).isSome
  | none => false

def isConstField (context : Context) (target : Term) : Bool :=
  match target.form with
  | .var (.field name) => ((context.tree.field? context.owner name).map Field.isConst).getD false
  | _ => false

/-- Checks that something can be written to. For a constant that is not so, which
is reported; for what is no place at all it is an error. -/
def writable (context : Context) (target : Expr) (resolved : Term) : Resolve Bool :=
  if context.isConstLocal target || context.isConstField resolved then do
    report (.located .writeToConstant target.span "Cannot change constant value")
    return false
  else if resolved.isPlace then pure true
  else fail .notPlace target.span

/-! The operator `::`. -/

def scopeOwner (base : Term) (span : Span) : Resolve TypePath :=
  match base.path? <|> base.type? with
  | some path => pure path
  | none => fail .untypedScope span

def scopedVar (context : Context) (owner : TypePath) (name : String) (span : Span) : Resolve Term :=
  let field? := if owner.isRoot then none else context.tree.field? owner name
  match field?, context.tree.globalVar? owner name with
  | some field, _ => pure (.typed (.var (.initial owner name)) field.type? span)
  | none, some var => pure (.globalVar name var span)
  | none, none => fail (.noScopedVar owner name) span

/-! Links. -/

def knownType (context : Context) (type? : Option TypePath) (name : String) (span : Span) : Resolve TypePath :=
  match type? with
  | none => fail (.untypedAccess name) span
  | some path => if context.tree.hasType path then pure path else fail (.noType path) span

end Context

/-- A chain of dereferences that is being resolved: its base, its links so far,
the last one first, and what is known of the value they lead to. -/
structure Walk where
  base : Term
  links : List Term.Link
  type? : Option TypePath
  fuzzy : Bool

namespace Walk

def start (base : Term) : Walk := ⟨base, [], base.type?, base.fuzzy⟩

def leap (walk : Walk) (kind : Term.LinkKind) (safe : Bool) (span : Span) : Walk :=
  { walk with links := .mk kind safe none span :: walk.links, type? := none, fuzzy := true }

def step (walk : Walk) (kind : Term.LinkKind) (safe : Bool) (type? : Option TypePath) (span : Span) : Walk :=
  { walk with links := .mk kind safe type? span :: walk.links, type? }

def finish (walk : Walk) (span : Span) : Term :=
  if walk.links.isEmpty then walk.base
  else .mk (.chain walk.base walk.links.reverse) walk.type? walk.fuzzy span

end Walk

namespace Context

open Resolve

/-- Follows a field. A global var that is reached through an object is that
var, however it was reached. -/
def fieldLink (context : Context) (walk : Walk) (name : String) (searched safe : Bool) (span : Span) : Resolve Walk :=
  if searched || walk.fuzzy then pure (walk.leap (.field name true) safe span)
  else do
    let owner ← context.knownType walk.type? name span
    match context.tree.field? owner name, context.tree.globalVar? owner name with
    | some field, _ =>
      useField owner field span
      return walk.step (.field name false) safe field.type? span
    | none, some var => return .start (.globalVar name var span)
    | none, none => fail (.noFieldOn owner name) span

/-- Checks a call on a value. It is searched for if the type is unknown. -/
def callSearched (context : Context) (walk : Walk) (name : String) (searched : Bool) (span : Span) : Resolve Bool :=
  if searched || walk.fuzzy then pure true
  else do
    let owner ← context.knownType walk.type? name span
    if context.tree.hasProc owner name then return false
    else fail (.noProcOn owner name) span

def globalField (context : Context) (name : String) (span : Span) : Resolve Term :=
  if name = "vars" then pure (.globalVars span)
  else match context.tree.globalVar? .root name with
    | some var =>
      if context.visibility.seesGlobals then pure (.globalVar name var span)
      else fail (.unknownName s!"global.{name}") span
    | none => fail (.unknownName s!"global.{name}") span

end Context

end DreamMaker
