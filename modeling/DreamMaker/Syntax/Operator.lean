namespace DreamMaker

inductive UnaryOp
  | not
  | bitNot
  | neg
  | preIncrement
  | preDecrement
  | postIncrement
  | postDecrement
deriving DecidableEq, Repr, Inhabited

namespace UnaryOp

def isMutating : UnaryOp → Bool
  | .not | .bitNot | .neg => false
  | _ => true

def isPostfix : UnaryOp → Bool
  | .postIncrement | .postDecrement => true
  | _ => false

def text : UnaryOp → String
  | .not => "!"
  | .bitNot => "~"
  | .neg => "-"
  | .preIncrement | .postIncrement => "++"
  | .preDecrement | .postDecrement => "--"

end UnaryOp

inductive BinaryOp
  | or
  | and
  | bitOr
  | bitXor
  | bitAnd
  | equal
  | notEqual
  | equivalent
  | notEquivalent
  | leftShift
  | rightShift
  | less
  | lessEqual
  | greater
  | greaterEqual
  | add
  | sub
  | mul
  | div
  | mod
  | modMod
  | power
deriving DecidableEq, Repr, Inhabited

def BinaryOp.text : BinaryOp → String
  | .or => "||"
  | .and => "&&"
  | .bitOr => "|"
  | .bitXor => "^"
  | .bitAnd => "&"
  | .equal => "=="
  | .notEqual => "!="
  | .equivalent => "~="
  | .notEquivalent => "~!"
  | .leftShift => "<<"
  | .rightShift => ">>"
  | .less => "<"
  | .lessEqual => "<="
  | .greater => ">"
  | .greaterEqual => ">="
  | .add => "+"
  | .sub => "-"
  | .mul => "*"
  | .div => "/"
  | .mod => "%"
  | .modMod => "%%"
  | .power => "**"

inductive AssignOp
  | assign
  | assignInto
  | add
  | sub
  | mul
  | div
  | mod
  | modMod
  | bitOr
  | bitAnd
  | bitXor
  | logicalOr
  | logicalAnd
  | leftShift
  | rightShift
deriving DecidableEq, Repr, Inhabited

def AssignOp.text : AssignOp → String
  | .assign => "="
  | .assignInto => ":="
  | .add => "+="
  | .sub => "-="
  | .mul => "*="
  | .div => "/="
  | .mod => "%="
  | .modMod => "%%="
  | .bitOr => "|="
  | .bitAnd => "&="
  | .bitXor => "^="
  | .logicalOr => "||="
  | .logicalAnd => "&&="
  | .leftShift => "<<="
  | .rightShift => ">>="

end DreamMaker
