import DreamMaker.Resolution.Context

namespace DreamMaker

def Builtin.ofMath : MathFunction → Builtin
  | .sin => .sin
  | .cos => .cos
  | .tan => .tan
  | .arcSin => .arcSin
  | .arcCos => .arcCos
  | .arcTan => .arcTan
  | .sqrt => .sqrt
  | .abs => .abs

def Builtin.ofPair : PairFunction → Builtin
  | .arcTan => .arcTan2
  | .getStep => .getStep
  | .getDir => .getDir

def Term.nameText? (term : Term) : Option String :=
  match term.form with
  | .var (.local name _) | .var (.field name) | .var (.global name _) | .var (.initial _ name) => some name
  | .atom (.path path) | .atom (.proc path) => path.last?
  | .chain _ links => match links.getLast? with
    | some (.mk (.field name _) _ _ _) | some (.mk (.call name _ _) _ _ _) => some name
    | _ => none
  | .call (.src name) _ | .call (.global name) _ => some name
  | _ => none

namespace Resolution

open Resolve

def literal (context : Context) (value : Literal) (span : Span) : Resolve Term :=
  match value with
  | .null => pure (.null span)
  | .integer value => pure (.number (Decimal.ofInt value.toInt) span)
  | .float value => pure (.number value span)
  | .string value => pure (.string value span)
  | .resource name => pure (.plain (.atom (.resource name)) span)
  | .path path => context.constantPath path span

/-- A built-in function applied to a value. The span of the argument is where
errors about it are reported. -/
def application (function : Function) (value : Term) (argument span : Span) : Resolve Term :=
  match function with
  | .initial =>
    if value.isPlace then pure (.typed (.initial value) value.type? span)
    else fail (.varRequired "initial") argument
  | .isSaved =>
    if value.isPlace then pure (.plain (.isSaved value) span) else fail (.varRequired "issaved") argument
  | .nameOf => match value.nameText? with
    | some name => pure (.string name span)
    | none => fail .nameless argument
  | .isNull => pure (.plain (.isNull value) span)
  | .length => pure (.plain (.builtin .length [value]) span)
  | .prob => pure (.plain (.builtin .prob [value]) span)
  | .math function => pure (.plain (.builtin (.ofMath function) [value]) span)

def nullTest (op : BinaryOp) (value : Term) (span : Span) : Term :=
  let test := Term.plain (.isNull value) span
  if op = .equal then test else .plain (.unary .not test) span

def typeTest (value : Term) (type? : Option Term) (span : Span) : Resolve Term :=
  match type?, value.type? with
  | some type, _ => pure (.plain (.builtin .isType [value, type]) span)
  | none, some path => pure (.plain (.builtin .isType [value, .path path span]) span)
  | none, none => fail .untypedIsType span

/-- The type that is looked for. Without one it is the inferred one. -/
def locatedType (inferred? : Option TypePath) (type? : Option Term) (span : Span) : Resolve Term :=
  match type? with
  | some type => pure type
  | none => return .path (← infer inferred? span) span

def argumentName (key? : Option Expr) : Resolve (Option String) :=
  match key? with
  | none => pure none
  | some key => match key.literal? with
    | some (.string name) => pure (some name)
    | _ => do
      report (.located .invalidArgumentKey key.span
        "Invalid argument key, only named arguments are supported here")
      return none

mutual

/-- Binds the names of an expression. The inferred type is the one that its
place asks for. -/
def expr (context : Context) (inferred? : Option TypePath) : Expr → Resolve Term
  | .mk node span => resolveNode context inferred? span node

def resolveNode (context : Context) (inferred? : Option TypePath) (span : Span) : Node → Resolve Term
  | .literal value => literal context value span
  | .search base target => context.searchedPath base target span
  | .format text holes => do
    return .plain (.format text (← resolveHoles context span holes)) span
  | .name name => context.name inferred? name span
  | .declare name _ => context.name inferred? name span
  | .result => return .plain (.ambient .result) span
  | .unary op operand => do
    let resolved ← expr context none operand
    if op.isMutating then
      unless ← context.writable operand resolved do return resolved
    return .plain (.unary op resolved) span
  | .binary op left right => do
    if (op == .equal || op == .notEqual) && left.isNull then
      return nullTest op (← expr context none right) span
    if (op == .equal || op == .notEqual) && right.isNull then
      return nullTest op (← expr context none left) span
    let left ← expr context none left
    let right ← expr context none right
    return .plain (.binary op left right) span
  | .assign op target value => do
    let place ← expr context none target
    let value ← expr context place.type? value
    if ← context.writable target place then return .typed (.assign op place value) place.type? span
    else return value
  | .ternary condition yes no => do
    let condition ← expr context none condition
    let yes ← expr context inferred? yes
    let no ← expr context inferred? no
    return .typed (.ternary condition yes no) (if yes.type? = no.type? then yes.type? else none) span
  | .member value container => do
    let value ← expr context none value
    let container ← expr context none container
    return .plain (.member value container) span
  | .between value start stop step? => do
    let value ← expr context none value
    let start ← expr context none start
    let stop ← expr context none stop
    let step? ← resolveOption context step?
    return .plain (.between value start stop step?) span
  | .new target args => do
    let args ← resolveArgs context args
    resolveNew context inferred? span args target
  | .chain base links => do
    if base.name? = some "global" then return (← resolveGlobal context base.span links).finish span
    let base ← expr context none base
    return (← resolveLinks context (.start base) links).finish span
  | .call target args => do
    let target ← context.procTarget span target
    let args ← resolveArgs context args
    return .unknowable (.call target args) span
  | .dynamicCall callee args => do
    let callee ← resolveValues context callee
    let args ← resolveArgs context args
    return .unknowable (.dynamicCall callee args) span
  | .scope none name none =>
    if name = "vars" then return .globalVars span else context.scopedVar .root name span
  | .scope none name (some args) => do
    unless context.tree.hasGlobalProc name do fail (.noScopedProc name) span
    return .unknowable (.call (.global name) (← resolveArgs context args)) span
  | .scope (some base) name call? => do
    let resolved ← expr context none base
    let owner ← Context.scopeOwner resolved base.span
    match call? with
    | none => context.scopedVar owner name span
    | some [] => context.constantPath ((owner.add "proc").add name) span
    | some (_ :: _) => fail .referenceArguments span
  | .gather .list args => do
    return .typed (.list (← resolveEntries context args)) Term.listType span
  | .gather .newList args => do
    return .typed (.newList (← resolveValues context args)) Term.listType span
  | .gather .addText args => do
    return .plain (.addText (← resolveValues context args)) span
  | .gather .gradient args => do
    return .plain (.builtin .gradient (← resolveValues context args)) span
  | .gather .rgb args => do
    return .plain (.builtin .rgb (← resolveValues context args)) span
  | .pick choices => do
    return .unknowable (.pick (← resolveEntries context choices)) span
  | .input args types? list? => do
    let args ← resolveValues context args
    let list? ← resolveOption context list?
    return .plain (.input args (types?.getD .anything) list?) span
  | .apply function arg => do
    application function (← expr context none arg) arg.span span
  | .applyPair function first second => do
    let first ← expr context none first
    let second ← expr context none second
    return .plain (.builtin (.ofPair function) [first, second]) span
  | .log value none => do
    return .plain (.builtin .log [← expr context none value]) span
  | .log value (some base) => do
    let base ← expr context none base
    let value ← expr context none value
    return .plain (.builtin .log [base, value]) span
  | .isType value type? => do
    let value ← expr context none value
    let type? ← resolveOption context type?
    typeTest value type? span
  | .locate type? container? => do
    let type ← locatedType inferred? (← resolveOption context type?) span
    let container? ← resolveOption context container?
    return .typed (.locate type container?) type.path? span
  | .locateAt x y z => do
    let x ← expr context none x
    let y ← expr context none y
    let z ← expr context none z
    return .typed (.builtin .locateCoordinates [x, y, z]) (some (.absolute ["turf"])) span

def resolveOption (context : Context) : Option Expr → Resolve (Option Term)
  | none => return none
  | some e => return some (← expr context none e)

def resolveHoles (context : Context) (span : Span) : List (Option Expr) → Resolve (List Term)
  | [] => return []
  | none :: rest => return .null span :: (← resolveHoles context span rest)
  | some e :: rest => do
    let hole ← expr context none e
    return hole :: (← resolveHoles context span rest)

def resolveNew (context : Context) (inferred? : Option TypePath) (span : Span) (args : List Term.Argument) :
    NewTarget → Resolve Term
  | .path path => context.newAt path args span
  | .inferred => do
    let path ← infer inferred? span
    return .typed (.newPath path args) (some path) span
  | .value type => return .unknowable (.new (← expr context none type) args) span

/-- The arguments of a call. A key of text is the name of its argument. -/
def resolveArgs (context : Context) : List Argument → Resolve (List Term.Argument)
  | [] => return []
  | .mk key? value :: rest => do
    let name? ← argumentName key?
    let value ← expr context none value
    return .mk name? value :: (← resolveArgs context rest)

def resolveEntries (context : Context) : List Argument → Resolve (List Term.Entry)
  | [] => return []
  | .mk key? value :: rest => do
    let key? ← resolveOption context key?
    let value ← expr context none value
    return .mk key? value :: (← resolveEntries context rest)

def resolveValues (context : Context) : List Argument → Resolve (List Term)
  | [] => return []
  | .mk _ value :: rest => do
    let value ← expr context none value
    return value :: (← resolveValues context rest)

/-- Follows links. Once a type cannot be known, every later name is searched for. -/
def resolveLinks (context : Context) (walk : Walk) : List Link → Resolve Walk
  | [] => return walk
  | .mk (.field name searched) safe span :: rest => do
    resolveLinks context (← context.fieldLink walk name searched safe span) rest
  | .mk (.index index) safe span :: rest => do
    let index ← expr context none index
    resolveLinks context (walk.leap (.index index) safe span) rest
  | .mk (.call name searched args) safe span :: rest => do
    let searched ← context.callSearched walk name searched span
    let args ← resolveArgs context args
    resolveLinks context (walk.leap (.call name searched args) safe span) rest

/-- Follows the links behind `global`, which stands at `base`. -/
def resolveGlobal (context : Context) (base : Span) : List Link → Resolve Walk
  | [] => fail (.unknownName "global") base
  | .mk (.field name _) _ span :: rest => do
    let root ← context.globalField name (base.merge span)
    resolveLinks context (.start root) rest
  | .mk (.index _) _ span :: _ => fail .indexedGlobal (base.merge span)
  | .mk (.call name _ args) _ span :: rest => do
    unless context.tree.hasGlobalProc name do fail (.noGlobalProc name) (base.merge span)
    let args ← resolveArgs context args
    resolveLinks context (.start (.unknowable (.call (.global name) args) (base.merge span))) rest

end

end Resolution

namespace Expr

def resolve (e : Expr) (context : Context) (inferred? : Option TypePath) : Resolve Term :=
  Resolution.expr context inferred? e

def resolveConstant (e : Expr) (context : Context) (inferred? : Option TypePath) : Resolve Term := do
  let term ← e.resolve context inferred?
  if term.isConstant then return term else Resolve.fail .notConstant e.span

end Expr

end DreamMaker
