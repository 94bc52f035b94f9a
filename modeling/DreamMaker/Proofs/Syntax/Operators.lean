import Mathlib.Algebra.Ring.Nat
import DreamMaker.Proofs.Syntax.Places
import DreamMaker.Text.Word

namespace DreamMaker

/-- A word that is no keyword. -/
structure Name where
  first : Char
  more : List Char
  starts : Text.startsWord first = true
  continues : ∀ c ∈ more, Text.continuesWord c = true
  free : Keyword.ofWord? (String.ofList (first :: more)) = none

namespace Name

def chars (name : Name) : List Char := name.first :: name.more

def text (name : Name) : String := String.ofList name.chars

end Name

/-- An operator between two operands. -/
inductive Operator
  | binary (op : BinaryOp)
  | assign (op : AssignOp)
deriving DecidableEq, Repr

namespace Operator

def text : Operator → String
  | .binary op => op.text
  | .assign op => op.text

def symbol : Operator → Symbol
  | .binary op => match op with
    | .or => .barBar
    | .and => .andAnd
    | .bitOr => .bar
    | .bitXor => .caret
    | .bitAnd => .and
    | .equal => .equalsEquals
    | .notEqual => .notEquals
    | .equivalent => .tildeEquals
    | .notEquivalent => .tildeNot
    | .leftShift => .lessLess
    | .rightShift => .greaterGreater
    | .less => .less
    | .lessEqual => .lessEquals
    | .greater => .greater
    | .greaterEqual => .greaterEquals
    | .add => .plus
    | .sub => .minus
    | .mul => .star
    | .div => .slash
    | .mod => .percent
    | .modMod => .percentPercent
    | .power => .starStar
  | .assign op => match op with
    | .assign => .equals
    | .assignInto => .colonEquals
    | .add => .plusEquals
    | .sub => .minusEquals
    | .mul => .starEquals
    | .div => .slashEquals
    | .mod => .percentEquals
    | .modMod => .percentPercentEquals
    | .bitOr => .barEquals
    | .bitAnd => .andEquals
    | .bitXor => .caretEquals
    | .logicalOr => .barBarEquals
    | .logicalAnd => .andAndEquals
    | .leftShift => .lessLessEquals
    | .rightShift => .greaterGreaterEquals

/-- How tightly an operator binds its operands. -/
def level : Operator → Nat
  | .assign _ => 0
  | .binary op => match op with
    | .or => 1
    | .and => 2
    | .bitOr => 3
    | .bitXor => 4
    | .bitAnd => 5
    | .equal | .notEqual | .equivalent | .notEquivalent => 6
    | .leftShift | .rightShift => 7
    | .less | .lessEqual | .greater | .greaterEqual => 8
    | .add | .sub => 9
    | .mul | .div | .mod | .modMod => 10
    | .power => 11

/-- Whether an operator groups to the right. -/
def groupsRight : Operator → Bool
  | .assign _ | .binary .power => true
  | .binary _ => false

/-- How tightly the operator of a left operand has to bind. -/
def leftLevel (op : Operator) : Nat := if op.groupsRight then op.level + 1 else op.level

/-- How tightly the operator of a right operand has to bind. -/
def rightLevel (op : Operator) : Nat := if op.groupsRight then op.level else op.level + 1

/-- What an operator makes of its operands. -/
def apply : Operator → Expr → Expr → Node
  | .binary op, left, right => .binary op left right
  | .assign op, target, value => .assign op target value

end Operator

/-- Expressions of names, integers and the operators between them. -/
inductive OperatorTree
  | name (word : Name)
  | number (value : Fin (2 ^ 31))
  | node (op : Operator) (left right : OperatorTree)

namespace OperatorTree

/-- The expression that a tree stands for, at no place. -/
def toExpr : OperatorTree → Expr
  | .name word => .ofName word.text .unknown
  | .number value => .ofLiteral (.integer (Int64.ofNat value)) .unknown
  | .node op left right => .mk (op.apply left.toExpr right.toExpr) .unknown

/-- A piece of a text between parentheses, if it has to be. -/
def enclosed {α : Type} (opening closing : α) (needed : Bool) (inner : List α) : List α :=
  if needed then opening :: inner ++ [closing] else inner

/-- The text of a tree where only operators of some level and above may stand
on their own. -/
def render (needed : Nat) : OperatorTree → List Char
  | .name word => word.chars
  | .number value => Nat.toDigits 10 value
  | .node op left right =>
    enclosed '(' ')' (op.level < needed)
      (render op.leftLevel left ++ ' ' :: op.text.toList ++ ' ' :: render op.rightLevel right)

/-- The text of a whole tree. -/
def text (tree : OperatorTree) : String := String.ofList (tree.render 0)

end OperatorTree

end DreamMaker
