namespace DreamMaker.Decimal

def digitCount (n : Nat) : Nat :=
  (Nat.toDigits 10 n).length

/-- The exponent `e` with `10 ^ (e - 1) ≤ num / den < 10 ^ e`. No double
below one is a power of ten, so the second case never meets its bound. -/
def magnitude (num den : Nat) : Int :=
  if den ≤ num then digitCount (num / den) else 1 - (digitCount (den / num) : Int)

/-- A positive ratio as numerator and denominator, multiplied by a power of ten. -/
def scaleTen (num den : Nat) (e : Int) : Nat × Nat :=
  if 0 ≤ e then (num * Nat.pow 10 e.toNat, den) else (num, den * Nat.pow 10 (-e).toNat)

/-- The reals that round to one double, with the double itself: all three
over one denominator. The ends belong to the interval if `closed`. -/
structure Cell where
  low : Nat
  value : Nat
  high : Nat
  den : Nat
  closed : Bool
deriving Repr

/-- The cell of the double `m * 2 ^ q`. Just above a power of two the
doubles below lie twice as close; `narrow` says so. -/
def Cell.ofBinary (m : Nat) (q : Int) (narrow : Bool) : Cell :=
  let up := Nat.pow 2 (q - 2).toNat
  let down := Nat.pow 2 (2 - q).toNat
  { low := (4 * m - if narrow then 1 else 2) * up
    value := 4 * m * up
    high := (4 * m + 2) * up
    den := down
    closed := m % 2 == 0 }

def Cell.holds (cell : Cell) (n : Nat) (e : Int) : Bool :=
  let (num, den) := scaleTen n 1 e
  if cell.closed then cell.low * den ≤ num * cell.den && num * cell.den ≤ cell.high * den
  else cell.low * den < num * cell.den && num * cell.den < cell.high * den

/-- The better of the value's two neighbours among the multiples of
`10 ^ e`, if one lies in the cell. A tie goes up. -/
def Cell.neighbour? (cell : Cell) (e : Int) : Option Nat :=
  let (num, den) := scaleTen cell.value cell.den (-e)
  let below := num / den
  let upNearer := den ≤ 2 * (num % den)
  match cell.holds below e, cell.holds (below + 1) e with
  | true, true => some (if upNearer then below + 1 else below)
  | true, false => some below
  | false, true => some (below + 1)
  | false, false => none

/-- The decimal `n * 10 ^ e` with the fewest digits in the cell, from length
zero, where only `10 ^ top` can lie in it. Seventeen
digits always suffice; `left` counts the lengths that remain to be tried. -/
def Cell.shortestFrom (cell : Cell) (top : Int) (length : Nat) : Nat → Nat × Int
  | 0 => (cell.value / cell.den, 0)
  | left + 1 =>
    let e := top - length
    match cell.neighbour? e with
    | some n => (n, e)
    | none => cell.shortestFrom top (length + 1) left

def Cell.shortest (cell : Cell) : Nat × Int :=
  cell.shortestFrom (magnitude cell.value cell.den) 0 18

def positional (n : Nat) (e : Int) : List Char :=
  let digits := Nat.toDigits 10 n
  if 0 ≤ e then digits ++ List.replicate e.toNat '0'
  else
    let places := (-e).toNat
    if places < digits.length then
      digits.take (digits.length - places) ++ '.' :: digits.drop (digits.length - places)
    else '0' :: '.' :: List.replicate (places - digits.length) '0' ++ digits

def render (x : Float) : String :=
  let bits := x.toBits.toNat
  let minus := bits / Nat.pow 2 63 % 2 == 1
  let biased : Nat := bits / Nat.pow 2 52 % Nat.pow 2 11
  let fraction := bits % Nat.pow 2 52
  let signed (text : String) := if minus then "-" ++ text else text
  if biased == 2047 then if fraction == 0 then signed "inf" else "NaN"
  else if biased == 0 && fraction == 0 then signed "0"
  else
    let cell :=
      if biased == 0 then Cell.ofBinary fraction (-1074) false
      else Cell.ofBinary (fraction + Nat.pow 2 52) ((biased : Int) - 1075) (fraction == 0 && 1 < biased)
    let (n, e) := cell.shortest
    signed (String.ofList (positional n e))

end DreamMaker.Decimal
