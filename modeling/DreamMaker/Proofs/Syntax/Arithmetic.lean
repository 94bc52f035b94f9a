import DreamMaker.Syntax.Fold
import Mathlib.Data.Int.Bitwise

/-! What folding makes of operators on integers, against the integers
themselves. -/

namespace DreamMaker

open Int64 Literal

variable {n : Nat} {b a b : Int64}

/-- Operators on one integer. -/
inductive IntegerUnary
  | neg
  | bitNot
  | not
deriving DecidableEq, Repr

/-- Operators that need the values of two integers. -/
inductive IntegerBinary
  | add
  | sub
  | mul
  | mod
  | leftShift
  | rightShift
  | bitAnd
  | bitOr
  | bitXor
  | power
deriving DecidableEq, Repr

/-- Expressions of integers that are written out. -/
inductive IntegerTree
  | literal (value : Int64) (span : Span)
  | unary (op : IntegerUnary) (operand : IntegerTree) (span : Span)
  | binary (op : IntegerBinary) (left right : IntegerTree) (span : Span)
  | and (left right : IntegerTree) (span : Span)
  | or (left right : IntegerTree) (span : Span)

namespace IntegerUnary

def toOp : IntegerUnary → UnaryOp
  | .neg => .neg
  | .bitNot => .bitNot
  | .not => .not

/-- The value of an operator. The complement is cut off behind 24 bits. -/
def value : IntegerUnary → Int → Int
  | .neg, a => (-a).bmod (2 ^ 64)
  | .bitNot, a => (-a - 1) % 2 ^ 24
  | .not, a => if a = 0 then 1 else 0

end IntegerUnary

namespace IntegerBinary

def toOp : IntegerBinary → BinaryOp
  | .add => .add
  | .sub => .sub
  | .mul => .mul
  | .mod => .mod
  | .leftShift => .leftShift
  | .rightShift => .rightShift
  | .bitAnd => .bitAnd
  | .bitOr => .bitOr
  | .bitXor => .bitXor
  | .power => .power

/-- The value of an operator, where it has one. -/
def value? : IntegerBinary → Int → Int → Option Int
  | .add, a, b => some ((a + b).bmod (2 ^ 64))
  | .sub, a, b => some ((a - b).bmod (2 ^ 64))
  | .mul, a, b => some ((a * b).bmod (2 ^ 64))
  | .mod, a, b => if b = 0 ∨ (a = -2 ^ 63 ∧ b = -1) then none else some (a.tmod b)
  | .leftShift, a, b => if 0 ≤ b ∧ b < 64 then some ((a * 2 ^ b.toNat).bmod (2 ^ 64)) else none
  | .rightShift, a, b => if 0 ≤ b ∧ b < 64 then some (a / 2 ^ b.toNat) else none
  | .bitAnd, a, b => some (a.land b)
  | .bitOr, a, b => some (a.lor b)
  | .bitXor, a, b => some (a.xor b)
  | .power, a, b =>
    if (0 ≤ b ∧ b < 2 ^ 32) ∧ -2 ^ 63 ≤ a ^ b.toNat ∧ a ^ b.toNat < 2 ^ 63 then some (a ^ b.toNat) else none

end IntegerBinary

namespace IntegerTree

def toExpr : IntegerTree → Expr
  | .literal value span => .ofLiteral (.integer value) span
  | .unary op operand span => .mk (.unary op.toOp operand.toExpr) span
  | .binary op left right span => .mk (.binary op.toOp left.toExpr right.toExpr) span
  | .and left right span => .mk (.binary .and left.toExpr right.toExpr) span
  | .or left right span => .mk (.binary .or left.toExpr right.toExpr) span

/-- The value of a tree, if any. What a left operand decides has a value whether or not the right one has. -/
def value? : IntegerTree → Option Int
  | .literal value _ => some value.toInt
  | .unary op operand _ => operand.value?.map op.value
  | .binary op left right _ => left.value?.bind fun a => right.value?.bind fun b => op.value? a b
  | .and left right _ => left.value?.bind fun a => if a = 0 then some a else right.value?
  | .or left right _ => left.value?.bind fun a => if a = 0 then right.value? else some a

end IntegerTree

/-! ### Bits -/

/-- Integers with the same bits are the same. -/
theorem eq_of_testBit {a b : Int} (same : ∀ i, a.testBit i = b.testBit i) : a = b := by
  -- beyond the size of both numbers their bits are those of their signs
  have signs : ∀ m n : Nat, ¬∀ i, m.testBit i = !n.testBit i := by
    intro m n bits
    have far := bits (m + n)
    have zero : ∀ k, k ≤ m + n → k.testBit (m + n) = false := fun k small =>
      Nat.testBit_lt_two_pow (small.trans_lt Nat.lt_two_pow_self)
    rw [zero m (by omega), zero n (by omega)] at far
    exact absurd far (by decide)
  match a, b with
  | .ofNat m, .ofNat n => exact congrArg Int.ofNat (Nat.eq_of_testBit_eq same)
  | .ofNat m, .negSucc n => exact absurd same (signs m n)
  | .negSucc m, .ofNat n => exact absurd (fun i => (same i).symm) (signs n m)
  | .negSucc m, .negSucc n =>
    exact congrArg Int.negSucc (Nat.eq_of_testBit_eq fun i => Bool.not_inj (same i))

/-- The bits of a number beyond those of its word are all its sign. -/
theorem testBit_toInt (x : BitVec w) :
    x.toInt.testBit i = if i < w then x.getLsbD i else x.msb := by
  rw [BitVec.toInt_eq_msb_cond]
  cases sign : x.msb with
  | false =>
    have bit : x.toNat.testBit i = x.getLsbD i := BitVec.testBit_toNat x
    show x.toNat.testBit i = _
    by_cases inside : i < w
    · rw [if_pos inside, bit]
    · rw [if_neg inside, bit, BitVec.getLsbD_of_ge x i (by omega)]
  | true =>
    have negative : (x.toNat : Int) - (2 ^ w : Nat) = Int.negSucc (~~~x).toNat := by
      rw [BitVec.toNat_not]
      omega
    rw [negative]
    show (!(~~~x).toNat.testBit i) = _
    rw [BitVec.testBit_toNat]
    by_cases inside : i < w <;> simp

/-- An operator that goes bit by bit over words does so over their numbers:
the sign is a bit as well. -/
theorem toInt_bitwise {c : Int64}
    (bits : ∀ i < 64, c.toBitVec.getLsbD i = f (a.toBitVec.getLsbD i) (b.toBitVec.getLsbD i)) :
    c.toInt = Int.bitwise f a.toInt b.toInt := by
  have sign : c.toBitVec.msb = f a.toBitVec.msb b.toBitVec.msb := by
    exact bits 63 (by decide)
  apply eq_of_testBit
  intro i
  rw [Int.testBit_bitwise, ← toInt_toBitVec, ← toInt_toBitVec, ← toInt_toBitVec]
  simp only [testBit_toInt]
  split
  · exact bits i ‹_›
  · exact sign

theorem toInt_land : (a &&& b).toInt = a.toInt.land b.toInt := by
  rw [← Int.bitwise_and]
  exact toInt_bitwise fun _ _ => by simp

theorem toInt_lor : (a ||| b).toInt = a.toInt.lor b.toInt := by
  rw [← Int.bitwise_or]
  exact toInt_bitwise fun _ _ => by simp

theorem toInt_xor : (a ^^^ b).toInt = a.toInt.xor b.toInt := by
  rw [← Int.bitwise_xor]
  exact toInt_bitwise fun _ _ => by simp

/-- The complement, cut off behind 24 bits. -/
theorem toInt_complement : (~~~a &&& 0xFFFFFF).toInt = (-a.toInt - 1) % 2 ^ 24 := by
  have low : (~~~a &&& 0xFFFFFF).toBitVec.toNat = (~~~a.toBitVec).toNat % 2 ^ 24 := by
    exact Nat.and_two_pow_sub_one_eq_mod _ 24
  have complement := BitVec.toNat_not (x := a.toBitVec)
  have value := BitVec.toInt_eq_toNat_cond a.toBitVec
  have result := BitVec.toInt_eq_toNat_cond (~~~a &&& 0xFFFFFF).toBitVec
  rw [toInt_toBitVec] at value result
  split at value <;> split at result <;> omega

/-! ### Shifts -/

/-- The number of places of a shift within a word. -/
theorem toNat_shift (low : 0 ≤ b.toInt) (high : b.toInt < 64) : (b.toBitVec.smod 64).toNat = b.toInt.toNat := by
  have same : (b.toBitVec.smod 64).toInt = b.toInt := by
    rw [BitVec.toInt_smod]
    exact Int.fmod_eq_of_lt low high
  have cases := BitVec.toInt_eq_toNat_cond (b.toBitVec.smod 64)
  split at cases <;> omega

theorem toInt_shiftLeft (low : 0 ≤ b.toInt) (high : b.toInt < 64) :
    (a <<< b).toInt = (a.toInt * 2 ^ b.toInt.toNat).bmod (2 ^ 64) := by
  show (a.toBitVec <<< (b.toBitVec.smod 64).toNat).toInt = _
  rw [toNat_shift low high, BitVec.toInt_shiftLeft, Nat.shiftLeft_eq, ← toInt_toBitVec a,
    BitVec.toInt_eq_toNat_bmod a.toBitVec, Int.bmod_mul_bmod]
  rfl

theorem toInt_shiftRight (low : 0 ≤ b.toInt) (high : b.toInt < 64) :
    (a >>> b).toInt = a.toInt / 2 ^ b.toInt.toNat := by
  rw [← Int64.toInt_toBitVec, Int64.toBitVec_shiftRight, BitVec.sshiftRight_eq', toNat_shift low high,
    BitVec.toInt_sshiftRight, Int.shiftRight_eq_div_pow]
  rfl

/-! ### Powers -/

/-- A power of 64 or more factors of at least two does not fit a word. -/
theorem two_pow_le_natAbs_pow {a : Int} (large : 2 ≤ a.natAbs) (many : 64 ≤ n) : 2 ^ 64 ≤ (a ^ n).natAbs := by
  rw [Int.natAbs_pow]
  calc 2 ^ 64 ≤ 2 ^ n := Nat.pow_le_pow_right (by decide) many
    _ ≤ a.natAbs ^ n := Nat.pow_le_pow_left large n

/-- The exact power, if it fits a word. -/
def exactPower? (base : Int) (exponent : Nat) : Option Int :=
  if -2 ^ 63 ≤ base ^ exponent ∧ base ^ exponent < 2 ^ 63 then some (base ^ exponent) else none

theorem exactPower?_of_fits (exact : base ^ exponent = power) (low : -2 ^ 63 ≤ power)
    (high : power < 2 ^ 63) : exactPower? base exponent = some power := by
  rw [exactPower?, exact, if_pos ⟨low, high⟩]

/-- Of many factors the power is known from the factor and from whether their
number is even. -/
theorem exactPower?_of_many (many : 64 ≤ n) : (if a.toInt = 0 ∨ a.toInt = 1 then some a
      else if a.toInt = -1 then some (if n % 2 = 0 then 1 else -1) else none).map toInt = exactPower? a.toInt n := by
  split
  · rename_i small
    have power : a.toInt ^ n = a.toInt := by
      rcases small with zero | one
      · rw [zero, zero_pow (by omega)]
      · rw [one, one_pow]
    rw [exactPower?_of_fits power (le_toInt a) (toInt_lt a), Option.map_some]
  · split
    · rename_i minus_one
      split
      · rename_i even
        have power : a.toInt ^ n = 1 := by rw [minus_one, (Nat.even_iff.mpr even).neg_one_pow]
        rw [exactPower?_of_fits power (by decide) (by decide)]
        rfl
      · rename_i odd
        have power : a.toInt ^ n = -1 := by rw [minus_one, (Nat.odd_iff.mpr (by omega)).neg_one_pow]
        rw [exactPower?_of_fits power (by decide) (by decide)]
        rfl
    · have large := two_pow_le_natAbs_pow (a := a.toInt) (by omega) many
      rw [exactPower?, if_neg (by omega), Option.map_none]

theorem power?_toInt : (power? a b).map toInt = IntegerBinary.power.value? a.toInt b.toInt := by
  have low : minValue.toInt = -2 ^ 63 := rfl
  have high : maxValue.toInt = 2 ^ 63 - 1 := rfl
  have size : ((UInt32.size : Nat) : Int) = 2 ^ 32 := rfl
  simp only [power?, IntegerBinary.value?, Bool.or_eq_true, Bool.and_eq_true, decide_eq_true_eq]
  by_cases exponent : 0 ≤ b.toInt ∧ b.toInt < 2 ^ 32
  · have evaluator : (if (0 ≤ b.toInt ∧ b.toInt < 2 ^ 32) ∧ -2 ^ 63 ≤ a.toInt ^ b.toInt.toNat ∧
      a.toInt ^ b.toInt.toNat < 2 ^ 63
        then some (a.toInt ^ b.toInt.toNat) else none) = exactPower? a.toInt b.toInt.toNat := by
      simp only [exactPower?, exponent, true_and]
    rw [if_neg (by omega), evaluator]
    by_cases many : 64 ≤ b.toInt
    · have parity : (b.toInt % 2 = 0) = (b.toInt.toNat % 2 = 0) := by
        apply propext
        omega
      simp only [many, parity]
      exact exactPower?_of_many (by omega)
    · rw [if_neg many]
      show Option.map toInt (if -2 ^ 63 ≤ a.toInt ^ b.toInt.toNat ∧ a.toInt ^ b.toInt.toNat ≤ 2 ^ 63 - 1 then
        some (ofInt (a.toInt ^ b.toInt.toNat)) else none) = _
      by_cases fits : -2 ^ 63 ≤ a.toInt ^ b.toInt.toNat ∧ a.toInt ^ b.toInt.toNat < 2 ^ 63
      · rw [if_pos (by omega), exactPower?_of_fits rfl fits.1 fits.2, Option.map_some,
          toInt_ofInt_of_le fits.1 fits.2]
      · rw [if_neg (by omega), exactPower?, if_neg fits, Option.map_none]
  · rw [if_pos (by omega), if_neg (fun h => exponent h.1), Option.map_none]

/-! ### Operators -/

theorem foldUnary_toInt {op : IntegerUnary} :
    ∃ c : Int64, foldUnary op.toOp (.integer a) = some (.integer c) ∧ c.toInt = op.value a.toInt := by
  cases op with
  | neg => exact ⟨-a, rfl, toInt_neg a⟩
  | bitNot => exact ⟨_, rfl, toInt_complement⟩
  | not =>
    refine ⟨_, rfl, ?_⟩
    by_cases zero : a = 0
    · subst zero
      rfl
    · have nonzero : a.toInt ≠ 0 := fun h => zero (toInt_inj.mp h)
      simp [truth, IntegerUnary.value, zero, nonzero]

theorem foldIntegers_toInt {op : IntegerBinary} :
    (foldIntegers op.toOp a b).map toInt = op.value? a.toInt b.toInt := by
  have shift : (decide (0 ≤ b) && decide (b < 64)) = decide (0 ≤ b.toInt ∧ b.toInt < 64) := by
    simp only [le_iff_toInt_le, lt_iff_toInt_lt, Bool.decide_and]
    rfl
  cases op with
  | add => exact congrArg some (toInt_add a b)
  | sub => exact congrArg some (toInt_sub a b)
  | mul => exact congrArg some (toInt_mul a b)
  | mod =>
    have guard : (b = 0 ∨ b = -1 ∧ a = minValue) ↔ (b.toInt = 0 ∨ a.toInt = -2 ^ 63 ∧ b.toInt = -1) := by
      simp only [← toInt_inj]
      constructor <;> rintro (zero | ⟨first, second⟩) <;> simp_all
    simp [foldIntegers, IntegerBinary.toOp, IntegerBinary.value?, guard]
    split <;> simp
  | leftShift | rightShift =>
    by_cases fits : 0 ≤ b.toInt ∧ b.toInt < 64
    · simp [foldIntegers, IntegerBinary.toOp, IntegerBinary.value?, shift, toInt_shiftLeft, toInt_shiftRight, fits]
    · simp [foldIntegers, IntegerBinary.toOp, IntegerBinary.value?, shift, fits]
  | bitAnd => exact congrArg some toInt_land
  | bitOr => exact congrArg some toInt_lor
  | bitXor => exact congrArg some toInt_xor
  | power => exact power?_toInt

/-! ### Trees -/

namespace Expr

theorem span_fold (e : Expr) : e.fold.span = e.span := by
  obtain ⟨_, _⟩ := e
  rw [fold]
  rfl

theorem literal?_eq_some_iff {e : Expr} : e.literal? = some value ↔ e = .ofLiteral value e.span := by
  obtain ⟨node, _⟩ := e
  cases node <;> simp [literal?, ofLiteral, Expr.span]

theorem literal?_fold_unary (span : Span) :
    (Expr.mk (.unary op operand) span).fold.literal? = operand.fold.literal?.bind (foldUnary op) := by
  rw [fold, Node.fold]
  cases operand.fold.literal?.bind (foldUnary op) <;> rfl

theorem literal?_fold_binary (span : Span) :
    (Expr.mk (.binary op left right) span).fold.literal? =
      foldBinary op left.fold.literal? right.fold.literal? := by
  rw [fold, Node.fold]
  cases foldBinary op left.fold.literal? right.fold.literal? <;> rfl

end Expr

theorem truth_integer : (integer a).truth = true ↔ a.toInt ≠ 0 := by
  have zero : a = 0 ↔ a.toInt = 0 := toInt_inj.symm
  simp [truth, zero]

/-- A strict operator has a value in words where it has one in integers. -/
theorem foldBinary_strict {op : IntegerBinary} :
    foldBinary op.toOp (some (.integer a)) (some (.integer b)) =
      (foldIntegers op.toOp a b).map .integer := by
  cases op <;> rfl

namespace IntegerTree

/-- A tree folds to a word where it has a value, and the value is that of the
word. -/
theorem fold_agrees (tree : IntegerTree) :
    ∃ c? : Option Int64, tree.toExpr.fold.literal? = c?.map .integer ∧ tree.value? = c?.map toInt := by
  induction tree with
  | literal value span => exact ⟨some value, by rw [toExpr]; rfl, rfl⟩
  | unary op _ span ih =>
    obtain ⟨a?, folds, values⟩ := ih
    rw [toExpr, Expr.literal?_fold_unary, folds, value?, values]
    cases a? with
    | none => exact ⟨none, rfl, rfl⟩
    | some a =>
      obtain ⟨c, result, same⟩ := foldUnary_toInt
      exact ⟨some c, result, congrArg some same.symm⟩
  | binary op left right span ih_left ih_right =>
    obtain ⟨a?, folds_left, values_left⟩ := ih_left
    obtain ⟨b?, folds_right, values_right⟩ := ih_right
    rw [toExpr, Expr.literal?_fold_binary, folds_left, folds_right, value?, values_left, values_right]
    cases a? with
    | none => exact ⟨none, rfl, rfl⟩
    | some a => cases b? with
      | none => exact ⟨none, by cases op <;> rfl, rfl⟩
      | some _ => exact ⟨_, foldBinary_strict, foldIntegers_toInt.symm⟩
  | and left right span ih_left ih_right =>
    obtain ⟨a?, folds_left, values_left⟩ := ih_left
    obtain ⟨b?, folds_right, values_right⟩ := ih_right
    rw [toExpr, Expr.literal?_fold_binary, folds_left, folds_right, value?, values_left, values_right]
    cases a? with
    | none => exact ⟨none, rfl, rfl⟩
    | some a =>
      by_cases zero : a.toInt = 0
      · exact ⟨some a, by simp [foldBinary, truth_integer, zero], by simp [zero]⟩
      · exact ⟨b?, by simp [foldBinary, truth_integer, zero], by simp [zero]⟩
  | or left right span ih_left ih_right =>
    obtain ⟨a?, folds_left, values_left⟩ := ih_left
    obtain ⟨b?, folds_right, values_right⟩ := ih_right
    rw [toExpr, Expr.literal?_fold_binary, folds_left, folds_right, value?, values_left, values_right]
    cases a? with
    | none => exact ⟨none, rfl, rfl⟩
    | some a =>
      by_cases zero : a.toInt = 0
      · exact ⟨b?, by simp [foldBinary, truth_integer, zero], by simp [zero]⟩
      · exact ⟨some a, by simp [foldBinary, truth_integer, zero], by simp [zero]⟩

/-- Folding turns a tree of integers into one integer if and only if that is the value of the tree. -/
theorem fold_eq_integer_iff (tree : IntegerTree) (value : Int) :
    (∃ word : Int64, word.toInt = value ∧ tree.toExpr.fold = .ofLiteral (.integer word) tree.toExpr.span) ↔
      tree.value? = some value := by
  obtain ⟨c?, folds, values⟩ := tree.fold_agrees
  rw [values, Option.map_eq_some_iff]
  have literal : ∀ word, tree.toExpr.fold = .ofLiteral (.integer word) tree.toExpr.span ↔ c? = some word := by
    intro word
    rw [← Expr.span_fold, ← Expr.literal?_eq_some_iff, folds]
    simp
  simp only [literal, and_comm]

end IntegerTree

end DreamMaker
