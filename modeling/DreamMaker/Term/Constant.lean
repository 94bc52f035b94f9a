import DreamMaker.Term.Basic

namespace DreamMaker

namespace Atom

def truth : Atom → Bool
  | .null => false
  | .number value => value != 0
  | .string value => !value.isEmpty
  | .resource _ | .path _ | .proc _ => true

/-- Whether two constants are the same. No number is the same as one that is
not a number. -/
def same : Atom → Atom → Bool
  | .null, .null => true
  | .number a, .number b => a == b
  | .string a, .string b => a == b
  | .resource a, .resource b => a == b
  | .path a, .path b => a == b
  | .proc a, .proc b => a == b
  | _, _ => false

end Atom

namespace Term

def atom? : Term → Option Atom
  | .mk (.atom value) _ _ _ => some value
  | _ => none

def path? (term : Term) : Option TypePath :=
  match term.atom? with
  | some (.path path) => some path
  | _ => none

mutual

def isConstant : Term → Bool
  | .mk (.atom _) _ _ _ => true
  | .mk (.list entries) _ _ _ => areConstant entries
  | _ => false

def areConstant : List Entry → Bool
  | [] => true
  | .mk none value :: rest => value.isConstant && areConstant rest
  | .mk (some key) value :: rest => value.isConstant && key.isConstant && areConstant rest

end

def truth? (term : Term) : Option Bool := term.atom?.map Atom.truth

def number? (term : Term) : Option Float :=
  match term.atom? with
  | some (.number value) => some value
  | _ => none

def Link.isPlace : Link → Bool
  | .mk (.field _ _) _ _ _ | .mk (.index _) _ _ _ => true
  | .mk (.call _ _ _) _ _ _ => false

def isPlace (term : Term) : Bool :=
  match term.form with
  | .var _ => true
  | .ambient value => value == .result
  | .chain _ links => (links.getLast?.map Link.isPlace).getD false
  | _ => false

mutual

/-- Whether two constants are the same. The parts of lists are compared with
all that is known of them, their places included. -/
def Form.sameConstant : Form → Form → Bool
  | .atom a, .atom b => a.same b
  | .list xs, .list ys => sameEntries xs ys
  | _, _ => false

def same : Term → Term → Bool
  | .mk form type? fuzzy span, other =>
    form.sameConstant other.form && type? == other.type? && fuzzy == other.fuzzy && span == other.span

def sameEntries : List Entry → List Entry → Bool
  | [], [] => true
  | .mk none value :: rest, .mk none value' :: rest' => value.same value' && sameEntries rest rest'
  | .mk (some key) value :: rest, .mk (some key') value' :: rest' =>
    key.same key' && value.same value' && sameEntries rest rest'
  | _, _ => false

end

end Term

end DreamMaker
