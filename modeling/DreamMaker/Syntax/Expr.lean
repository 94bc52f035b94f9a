import DreamMaker.Decimal.Nearest
import DreamMaker.Source.Span
import DreamMaker.Syntax.Modifier
import DreamMaker.Syntax.Operator

namespace DreamMaker

inductive Literal
  | null
  | integer (value : Int64)
  | float (value : Float)
  | string (value : String)
  | resource (name : String)
  | path (path : TypePath)
deriving Repr, Inhabited

namespace Literal

def number? : Literal → Option Float
  | .integer value => some (Decimal.ofInt value.toInt)
  | .float value => some value
  | _ => none

def truth : Literal → Bool
  | .null => false
  | .integer value => value != 0
  | .float value => value != 0
  | .string value => !value.isEmpty
  | .resource _ | .path _ => true

end Literal

/-- What a direct call names: a proc, or the running proc itself or the one
that it overrides. -/
inductive CallTarget
  | named (name : String)
  | self
  | parent
deriving DecidableEq, Repr, Inhabited

inductive Gathering
  | list
  | newList
  | addText
  | gradient
  | rgb
deriving DecidableEq, Repr, Inhabited

inductive MathFunction
  | sin
  | cos
  | tan
  | arcSin
  | arcCos
  | arcTan
  | sqrt
  | abs
deriving DecidableEq, Repr, Inhabited

def MathFunction.ofName? : String → Option MathFunction
  | "sin" => some .sin
  | "cos" => some .cos
  | "tan" => some .tan
  | "arcsin" => some .arcSin
  | "arccos" => some .arcCos
  | "arctan" => some .arcTan
  | "sqrt" => some .sqrt
  | "abs" => some .abs
  | _ => none

inductive Function
  | initial
  | nameOf
  | isSaved
  | isNull
  | length
  | prob
  | math (function : MathFunction)
deriving DecidableEq, Repr, Inhabited

inductive PairFunction
  | arcTan
  | getStep
  | getDir
deriving DecidableEq, Repr, Inhabited

mutual

inductive Expr where
  | mk (node : Node) (span : Span)

inductive Node where
  | literal (value : Literal)
  | search (base target : TypePath)
  /-- Text with holes. The text holds a mark for every hole. -/
  | format (text : String) (holes : List (Option Expr))
  | name (name : String)
  | result
  | declare (name : String) (type? : Option TypePath)
  | unary (op : UnaryOp) (operand : Expr)
  | binary (op : BinaryOp) (left right : Expr)
  | assign (op : AssignOp) (target value : Expr)
  | ternary (condition yes no : Expr)
  | member (value container : Expr)
  | between (value start stop : Expr) (step? : Option Expr)
  | new (target : NewTarget) (args : List Argument)
  | chain (base : Expr) (links : List Link)
  | call (target : CallTarget) (args : List Argument)
  | dynamicCall (callee args : List Argument)
  | scope (base? : Option Expr) (name : String) (call? : Option (List Argument))
  | gather (function : Gathering) (args : List Argument)
  /-- A choice among values. The key of a value is its weight. -/
  | pick (choices : List Argument)
  | input (args : List Argument) (types? : Option ValueTypes) (list? : Option Expr)
  | apply (function : Function) (arg : Expr)
  | applyPair (function : PairFunction) (first second : Expr)
  | log (value : Expr) (base? : Option Expr)
  | isType (value : Expr) (type? : Option Expr)
  | locate (type? container? : Option Expr)
  | locateAt (x y z : Expr)

/-- What is created: a path that is written out, the path that is the value
of an expression, or the type that the context asks for. -/
inductive NewTarget where
  | path (path : TypePath)
  | value (type : Expr)
  | inferred

inductive Argument where
  | mk (key? : Option Expr) (value : Expr)

/-- A link of a chain of dereferences. A safe link gives null on null. -/
inductive Link where
  | mk (kind : LinkKind) (safe : Bool) (span : Span)

/-- What a link does. A searched name is looked up when the program runs. -/
inductive LinkKind where
  | field (name : String) (searched : Bool)
  | index (index : Expr)
  | call (name : String) (searched : Bool) (args : List Argument)

end

instance : Inhabited Expr := ⟨.mk (.literal .null) .unknown⟩

namespace Expr

def node : Expr → Node
  | .mk node _ => node

def span : Expr → Span
  | .mk _ span => span

def withSpan (e : Expr) (span : Span) : Expr := .mk e.node span

def ofLiteral (value : Literal) (span : Span) : Expr := .mk (.literal value) span

def null (span : Span) : Expr := ofLiteral .null span

def string (text : String) (span : Span) : Expr := ofLiteral (.string text) span

def ofName (name : String) (span : Span) : Expr := .mk (.name name) span

def literal? : Expr → Option Literal
  | .mk (.literal value) _ => some value
  | _ => none

def isConstant (e : Expr) : Bool := e.literal?.isSome

def isNull (e : Expr) : Bool :=
  match e.literal? with
  | some .null => true
  | _ => false

def number? (e : Expr) : Option Float := e.literal?.bind Literal.number?

def truth? (e : Expr) : Option Bool := e.literal?.map Literal.truth

def name? : Expr → Option String
  | .mk (.name name) _ => some name
  | _ => none

end Expr

namespace Argument

def key? : Argument → Option Expr
  | .mk key? _ => key?

def value : Argument → Expr
  | .mk _ value => value

def positional (value : Expr) : Argument := .mk none value

end Argument

namespace Link

def kind : Link → LinkKind
  | .mk kind _ _ => kind

def safe : Link → Bool
  | .mk _ safe _ => safe

def span : Link → Span
  | .mk _ _ span => span

end Link

end DreamMaker
