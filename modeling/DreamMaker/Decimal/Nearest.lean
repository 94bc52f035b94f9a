namespace DreamMaker.Decimal

def roundDiv (num den : Nat) : Nat :=
  let below := num / den
  let twice := 2 * (num % den)
  if twice < den || (twice == den && below % 2 == 0) then below else below + 1

/-- The exponent `q` for which `num / den` lies between `2 ^ 52` and `2 ^ 53`
units of `2 ^ q`, but never below the exponent of the smallest double. -/
def unitExponent (num den : Nat) : Int :=
  let e : Int := (num.log2 : Int) - den.log2
  let reached := den * Nat.pow 2 e.toNat ≤ num * Nat.pow 2 (-e).toNat
  max (if reached then e - 52 else e - 53) (-1074)

/-- Bits of the double nearest to a positive ratio, without the sign. -/
def nearestBits (num den : Nat) : Nat :=
  let q := unitExponent num den
  let m := roundDiv (num * Nat.pow 2 (-q).toNat) (den * Nat.pow 2 q.toNat)
  -- A mantissa of `2 ^ 53` carries into the exponent by itself.
  let bits := if q == -1074 then m else (q + 1074).toNat * Nat.pow 2 52 + m
  min bits (2047 * Nat.pow 2 52)

def ofRatio (minus : Bool) (num den : Nat) : Float :=
  let bits := if num == 0 then 0 else nearestBits num den
  Float.ofBits ((if minus then Nat.pow 2 63 else 0) + bits).toUInt64

def ofInt (n : Int) : Float :=
  ofRatio (n < 0) n.natAbs 1

def infinity : Float := Float.ofBits 0x7FF0000000000000

def notANumber : Float := Float.ofBits 0x7FF8000000000000

def digitsValue (digits : List Char) : Nat :=
  digits.foldl (fun n c => 10 * n + (c.toNat - 48)) 0

/-- The double nearest to `m * 10 ^ e`. Far beyond the range of doubles the
power is not computed. -/
def ofDecimal (minus : Bool) (m : Nat) (e : Int) : Float :=
  let size := ((Nat.toDigits 10 m).length : Int) + e
  if m == 0 || size < -400 then ofRatio minus 0 1
  else if 400 < size then if minus then -infinity else infinity
  else ofRatio minus (m * Nat.pow 10 e.toNat) (Nat.pow 10 (-e).toNat)

/-- The exponent part of a decimal, which is empty or ends the text. -/
def readExponent? : List Char → Option Int
  | [] => some 0
  | c :: rest =>
    if c = 'e' || c = 'E' then
      let (minus, digits) := match rest with
        | '-' :: more => (true, more)
        | '+' :: more => (false, more)
        | _ => (false, rest)
      if digits.isEmpty || !digits.all Char.isDigit then none
      else some (if minus then -(digitsValue digits : Int) else digitsValue digits)
    else none

/-- A decimal without sign: digits around at most one point, then an exponent. -/
def readMagnitude? (minus : Bool) (cs : List Char) : Option Float :=
  let whole := cs.takeWhile Char.isDigit
  let rest := cs.dropWhile Char.isDigit
  let (fraction, rest) := match rest with
    | '.' :: more => (more.takeWhile Char.isDigit, more.dropWhile Char.isDigit)
    | _ => ([], rest)
  if whole.isEmpty && fraction.isEmpty then none
  else
    (readExponent? rest).map fun e =>
      ofDecimal minus (digitsValue (whole ++ fraction)) (e - fraction.length)

/-- Reads a double: a decimal, or one of the words for infinity and for no
number in any case, each with at most one sign. -/
def readFloat? (cs : List Char) : Option Float :=
  let (minus, rest) := match cs with
    | '-' :: more => (true, more)
    | '+' :: more => (false, more)
    | _ => (false, cs)
  let word := String.ofList (rest.map Char.toLower)
  if word = "inf" || word = "infinity" then some (if minus then -infinity else infinity)
  else if word = "nan" then some notANumber
  else readMagnitude? minus rest

def digitValue? (base : Nat) (c : Char) : Option Nat :=
  let value? :=
    if c.isDigit then some (c.toNat - 48)
    else if 'a' ≤ c ∧ c ≤ 'f' then some (c.toNat - 87)
    else if 'A' ≤ c ∧ c ≤ 'F' then some (c.toNat - 55)
    else none
  value?.filter (· < base)

def readDigits? (base : Nat) : List Char → Option Nat
  | [] => none
  | cs => cs.foldlM (fun n c => (digitValue? base c).map (base * n + ·)) 0

def readInt32? (base : Nat) (cs : List Char) : Option Int :=
  let (minus, digits) := match cs with
    | '-' :: more => (true, more)
    | '+' :: more => (false, more)
    | _ => (false, cs)
  (readDigits? base digits).bind fun n =>
    let value : Int := if minus then -n else n
    if Int32.minValue.toInt ≤ value ∧ value ≤ Int32.maxValue.toInt then some value else none

end DreamMaker.Decimal
