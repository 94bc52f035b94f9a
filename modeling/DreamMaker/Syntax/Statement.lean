import DreamMaker.Syntax.Expr

namespace DreamMaker

structure LocalVar where
  name : String
  type? : Option TypePath
  value? : Option Expr
  modifiers : Modifiers
  types : ValueTypes
  span : Span
deriving Inhabited

inductive CaseValue
  | single (value : Expr)
  | range (start stop : Expr)

inductive Transfer
  | browse
  | browseResource
  | control
  | ftp
deriving DecidableEq, Repr, Inhabited

mutual

inductive Statement where
  | mk (action : Action) (span : Span)

inductive Block where
  | mk (statements : List Statement) (span : Span)

inductive Action where
  | expression (value : Expr)
  | declare (var : LocalVar)
  | group (statements : List Statement)
  | set (name : String) (value : Expr) (wasIn : Bool)
  | return_ (value? : Option Expr)
  | break_ (label? : Option String)
  | continue_ (label? : Option String)
  | goto (label : String)
  | label (name : String) (body? : Option Block)
  | del (value : Expr)
  | throw (value : Expr)
  | if_ (condition : Expr) (body : Block) (else? : Option Block)
  | for_ (start? condition? next? : Option Expr) (body : Block)
  | forIn (binder : Expr) (types? : Option ValueTypes) (list : Expr) (body : Block)
  | forRange (binder start stop : Expr) (step? : Option Expr) (body : Block)
  | forType (binder : Expr) (body : Block)
  | forever (body : Block)
  | while_ (condition : Expr) (body : Block)
  | doWhile (body : Block) (condition : Expr)
  | switch (value : Expr) (cases : List Case)
  | spawn (delay? : Option Expr) (body : Block)
  | tryCatch (body : Block) (binder? : Option LocalVar) (handler? : Option Block)
  | output (receiver message : Expr)
  | input (source target : Expr)
  | transfer (kind : Transfer) (receiver first second : Expr)
  | link (receiver url : Expr)

/-- A case of a switch. Without values it is taken when no other is. -/
inductive Case where
  | mk (values? : Option (List CaseValue)) (body : Block) (span : Span)

end

instance : Inhabited Block := ⟨.mk [] .unknown⟩

instance : Inhabited Statement := ⟨.mk (.group []) .unknown⟩

namespace Statement

def action : Statement → Action
  | .mk action _ => action

def span : Statement → Span
  | .mk _ span => span

end Statement

namespace Block

def statements : Block → List Statement
  | .mk statements _ => statements

def span : Block → Span
  | .mk _ span => span

def empty (span : Span) : Block := .mk [] span

def single (statement : Statement) : Block := .mk [statement] statement.span

def isEmpty (block : Block) : Bool := block.statements.isEmpty

end Block

namespace Case

def values? : Case → Option (List CaseValue)
  | .mk values? _ _ => values?

def body : Case → Block
  | .mk _ body _ => body

def span : Case → Span
  | .mk _ _ span => span

end Case

structure Parameter where
  name : String
  type? : Option TypePath
  default? : Option Expr
  choices? : Option Expr
  types : ValueTypes
  span : Span
deriving Inhabited

structure ProcDefinition where
  owner : TypePath
  name : String
  isOverride : Bool
  isVerb : Bool
  parameters : List Parameter
  body? : Option Block
  returnTypes? : Option ValueTypes
  span : Span
  /-- The type of a proc is named from the root. -/
  rooted : ∃ segments, owner = .absolute segments

def ProcDefinition.path (proc : ProcDefinition) : TypePath :=
  (proc.owner.add (if proc.isVerb then "verb" else "proc")).add proc.name

structure VarDefinition where
  owner : TypePath
  name : String
  type? : Option TypePath
  modifiers : Modifiers
  value? : Option Expr
  types : ValueTypes
  span : Span
deriving Inhabited

mutual

inductive Declaration where
  | mk (item : Item) (span : Span)

inductive Item where
  | object (path : TypePath) (body : List Declaration)
  | proc (definition : ProcDefinition)
  | var (definition : VarDefinition)
  | override (owner : TypePath) (name : String) (value : Expr)
  | group (declarations : List Declaration)

end

instance : Inhabited Declaration := ⟨.mk (.group []) .unknown⟩

namespace Declaration

def item : Declaration → Item
  | .mk item _ => item

def span : Declaration → Span
  | .mk _ span => span

mutual

/-- The declaration and those in its body, in order. Groups vanish. -/
def flatten (declaration : Declaration) : List Declaration :=
  match declaration with
  | .mk (.group inner) _ => flattenAll inner
  | .mk (.object path body) span => .mk (.object path body) span :: flattenAll body
  | .mk (.proc definition) span => [.mk (.proc definition) span]
  | .mk (.var definition) span => [.mk (.var definition) span]
  | .mk (.override owner name value) span => [.mk (.override owner name value) span]

def flattenAll : List Declaration → List Declaration
  | [] => []
  | declaration :: rest => declaration.flatten ++ flattenAll rest

end

end Declaration

structure SourceFile where
  declarations : List Declaration
  span : Span
deriving Inhabited

namespace SourceFile

def flatten (file : SourceFile) : List Declaration :=
  Declaration.flattenAll file.declarations

def procs (file : SourceFile) : List ProcDefinition :=
  file.flatten.filterMap fun declaration => match declaration.item with
    | .proc definition => some definition
    | _ => none

end SourceFile

end DreamMaker
