import DreamMaker.Decimal.Nearest
import DreamMaker.Source.Span
import DreamMaker.Syntax.Modifier
import DreamMaker.Syntax.Operator

namespace DreamMaker

inductive Atom
  | null
  | number (value : Float)
  | string (value : String)
  | resource (name : String)
  | path (path : TypePath)
  | proc (path : TypePath)
deriving Repr, Inhabited

inductive Ambient
  | src
  | usr
  | args
  | world
  | result
  | globalVars
deriving DecidableEq, Repr, Inhabited

inductive Var
  | local (name : String) (id : Nat)
  | field (name : String)
  | global (name : String) (id : Nat)
  | initial (owner : TypePath) (name : String)
deriving DecidableEq, Repr, Inhabited

/-- The proc that a direct call goes to: one of `src`, a global one, the
running one, or the one that the running one overrides. -/
inductive ProcTarget
  | src (name : String)
  | global (name : String)
  | self
  | parent
deriving DecidableEq, Repr, Inhabited

inductive Builtin
  | sin
  | cos
  | tan
  | arcSin
  | arcCos
  | arcTan
  | arcTan2
  | sqrt
  | abs
  | log
  | isType
  | length
  | getStep
  | getDir
  | locateCoordinates
  | gradient
  | rgb
  | prob
deriving DecidableEq, Repr, Inhabited

def Builtin.name : Builtin → String
  | .sin => "sin"
  | .cos => "cos"
  | .tan => "tan"
  | .arcSin => "arcsin"
  | .arcCos => "arccos"
  | .arcTan | .arcTan2 => "arctan"
  | .sqrt => "sqrt"
  | .abs => "abs"
  | .log => "log"
  | .isType => "istype"
  | .length => "length"
  | .getStep => "get_step"
  | .getDir => "get_dir"
  | .locateCoordinates => "locate"
  | .gradient => "gradient"
  | .rgb => "rgb"
  | .prob => "prob"

mutual

/-- An expression whose names are bound, with the type its value is known to
have. The type of a fuzzy term cannot be known before the program runs. -/
inductive Term where
  | mk (form : Term.Form) (type? : Option TypePath) (fuzzy : Bool) (span : Span)

inductive Term.Form where
  | atom (value : Atom)
  | format (text : String) (holes : List Term)
  | ambient (value : Ambient)
  | var (var : Var)
  | unary (op : UnaryOp) (operand : Term)
  | binary (op : BinaryOp) (left right : Term)
  | isNull (value : Term)
  | assign (op : AssignOp) (target value : Term)
  | ternary (condition yes no : Term)
  | member (value container : Term)
  | between (value start stop : Term) (step? : Option Term)
  | newPath (path : TypePath) (args : List Term.Argument)
  | new (type : Term) (args : List Term.Argument)
  | chain (base : Term) (links : List Term.Link)
  | call (target : ProcTarget) (args : List Term.Argument)
  | dynamicCall (callee : List Term) (args : List Term.Argument)
  | list (entries : List Term.Entry)
  | newList (values : List Term)
  | addText (values : List Term)
  /-- A choice among values. The key of a value is its weight. -/
  | pick (choices : List Term.Entry)
  | input (args : List Term) (types : ValueTypes) (list? : Option Term)
  | initial (var : Term)
  | isSaved (var : Term)
  | locate (type : Term) (container? : Option Term)
  | builtin (function : Builtin) (args : List Term)

inductive Term.Argument where
  | mk (name? : Option String) (value : Term)

inductive Term.Entry where
  | mk (key? : Option Term) (value : Term)

/-- A link of a chain of dereferences, with the type of its value. -/
inductive Term.Link where
  | mk (kind : Term.LinkKind) (safe : Bool) (type? : Option TypePath) (span : Span)

/-- What a link does. A searched name is looked up when the program runs. -/
inductive Term.LinkKind where
  | field (name : String) (searched : Bool)
  | index (index : Term)
  | call (name : String) (searched : Bool) (args : List Term.Argument)

end

namespace Term

def form : Term → Form
  | .mk form _ _ _ => form

def type? : Term → Option TypePath
  | .mk _ type? _ _ => type?

def fuzzy : Term → Bool
  | .mk _ _ fuzzy _ => fuzzy

def span : Term → Span
  | .mk _ _ _ span => span

def plain (form : Form) (span : Span) : Term := .mk form none false span

def typed (form : Form) (type? : Option TypePath) (span : Span) : Term := .mk form type? false span

def unknowable (form : Form) (span : Span) : Term := .mk form none true span

def withSpan (term : Term) (span : Span) : Term := .mk term.form term.type? term.fuzzy span

def null (span : Span) : Term := plain (.atom .null) span

def number (value : Float) (span : Span) : Term := plain (.atom (.number value)) span

def string (value : String) (span : Span) : Term := plain (.atom (.string value)) span

def path (path : TypePath) (span : Span) : Term := typed (.atom (.path path)) (some path) span

def localVar (name : String) (id : Nat) (type? : Option TypePath) (span : Span) : Term :=
  typed (.var (.local name id)) type? span

instance : Inhabited Term := ⟨null .unknown⟩

end Term

namespace Term.Argument

def name? : Argument → Option String
  | .mk name? _ => name?

def value : Argument → Term
  | .mk _ value => value

end Term.Argument

namespace Term.Entry

def key? : Entry → Option Term
  | .mk key? _ => key?

def value : Entry → Term
  | .mk _ value => value

end Term.Entry

namespace Term.Link

def kind : Link → LinkKind
  | .mk kind _ _ _ => kind

def safe : Link → Bool
  | .mk _ safe _ _ => safe

def type? : Link → Option TypePath
  | .mk _ _ type? _ => type?

def span : Link → Span
  | .mk _ _ _ span => span

end Term.Link

end DreamMaker
