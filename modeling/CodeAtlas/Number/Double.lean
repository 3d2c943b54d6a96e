/-!
# Binary floating-point values and their decimal forms

A value is kept as the 64 bits of its IEEE form, so that two values are equal exactly when their
bits are. Arithmetic goes through the machine's own operations; everything that decides a text form
works on the exact ratio that a finite value stands for. The shortest form has the fewest digits
that read back as the value and, of those, the nearest. The fixed form has a given number of places.
In both a tie goes to the even neighbour.
-/

namespace CodeAtlas

def twoTo (n : Nat) : Nat := Nat.pow 2 n

def tenTo (n : Nat) : Nat := Nat.pow 10 n

def maxDigits : Nat := 4300

structure Double where
  bits : UInt64
deriving DecidableEq, Repr, Inhabited

namespace Double

def ofFloat (x : Float) : Double := ⟨x.toBits⟩

def toFloat (x : Double) : Float := Float.ofBits x.bits

def isNegative (x : Double) : Bool := x.bits.toNat / twoTo 63 == 1

def biased (x : Double) : Nat := x.bits.toNat / twoTo 52 % twoTo 11

def fraction (x : Double) : Nat := x.bits.toNat % twoTo 52

def isNaN (x : Double) : Bool := x.biased == 2047 && x.fraction != 0

def isInfinite (x : Double) : Bool := x.biased == 2047 && x.fraction == 0

def isFinite (x : Double) : Bool := x.biased != 2047

/-- The whole number `m` with `|x| = m * 2 ^ x.exponent`. -/
def significand (x : Double) : Nat :=
  if x.biased = 0 then x.fraction else x.fraction + twoTo 52

def exponent (x : Double) : Int :=
  if x.biased = 0 then -1074 else (x.biased : Int) - 1075

def isZero (x : Double) : Bool := x.biased == 0 && x.fraction == 0

def ratio (x : Double) : Nat × Nat :=
  if x.exponent < 0 then (x.significand, twoTo (-x.exponent).toNat)
  else (x.significand * twoTo x.exponent.toNat, 1)

def numerator (x : Double) : Int := if x.isNegative then -(x.ratio.1 : Int) else x.ratio.1

/-- The whole number that a finite value stands for, if it stands for one. -/
def toInt? (x : Double) : Option Int :=
  if x.isFinite then
    let (n, d) := x.ratio
    if n % d = 0 then some (if x.isNegative then -((n / d : Nat) : Int) else (n / d : Nat))
    else none
  else none

def truncate (x : Double) : Int :=
  let (n, d) := x.ratio
  if x.isNegative then -((n / d : Nat) : Int) else (n / d : Nat)

def ofInt (i : Int) : Double := ofFloat (Float.ofInt i)

def infinity : Double := ⟨0x7FF0000000000000⟩

def zero : Double := ⟨0⟩

def nan : Double := ⟨0x7FF8000000000000⟩

def neg (x : Double) : Double := ⟨x.bits ^^^ 0x8000000000000000⟩

/-- The value nearest to `± m * 10 ^ e`. -/
def ofDecimal (negative : Bool) (m : Nat) (e : Int) : Double :=
  let order : Int := (Nat.toDigits 10 m).length + e
  let x :=
    if m = 0 ∨ order < -330 then zero
    else if order > 310 then infinity
    else if e < 0 then ofFloat (Float.ofScientific m true (-e).toNat)
    else ofFloat (Float.ofScientific m false e.toNat)
  if negative then x.neg else x

def add (x y : Double) : Double := ofFloat (x.toFloat + y.toFloat)

def sub (x y : Double) : Double := ofFloat (x.toFloat - y.toFloat)

def mul (x y : Double) : Double := ofFloat (x.toFloat * y.toFloat)

def div (x y : Double) : Double := ofFloat (x.toFloat / y.toFloat)

/-- Equality of values: both zeros are equal, and no value that is not a number equals any. -/
def same (x y : Double) : Bool :=
  if x.isFinite && y.isFinite then x.numerator * y.ratio.2 == y.numerator * x.ratio.2
  else x.isInfinite && x.bits == y.bits

def lt (x y : Double) : Bool := decide (x.toFloat < y.toFloat)

def le (x y : Double) : Bool := decide (x.toFloat ≤ y.toFloat)

end Double
/-- The whole number nearest to `n / d`; a tie goes to the even neighbour. -/
def roundHalfEven (n d : Nat) : Nat :=
  let q := n / d
  let r := n % d
  if 2 * r < d then q
  else if 2 * r > d then q + 1
  else if q % 2 = 0 then q else q + 1

def decimalText (n : Nat) : String := String.ofList (Nat.toDigits 10 n)

def intText (i : Int) : String :=
  if i < 0 then "-" ++ decimalText i.natAbs else decimalText i.natAbs

namespace Double

/-- Digits `c` and exponent `k` of a decimal `c * 10 ^ k`. -/
structure Digits where
  coefficient : Nat
  exponent : Int
deriving DecidableEq, Repr

/-- `n / d` compared with `c * 10 ^ k`, as numerators over one denominator. -/
def overOne (n d c : Nat) (k : Int) : Nat × Nat :=
  if k < 0 then (n * tenTo (-k).toNat, c * d) else (n, c * tenTo k.toNat * d)

/-- The least `e` with `n / d < 10 ^ e`, for a positive ratio, found from a lower guess. -/
def decimalOrder (n d : Nat) : Int :=
  let up := (Nat.toDigits 10 (n / d)).length
  if n ≥ d then up
  else
    -- the ratio is below one: count the zeros that follow the point
    let down := (Nat.toDigits 10 (d / n)).length
    let e : Int := -(down : Int) + 1
    -- n / d < 10 ^ e holds; one smaller may hold as well
    if n * tenTo (1 - e).toNat < d then e - 1 else e

/-- The ends of the rounding interval of a positive finite value, as numerators over one
denominator. -/
def interval (x : Double) : Nat × Nat × Nat :=
  let m := x.significand
  let low := if m = twoTo 52 ∧ x.biased > 1 then 4 * m - 1 else 4 * m - 2
  let high := 4 * m + 2
  let e := x.exponent - 2
  if e < 0 then (low, high, twoTo (-e).toNat)
  else (low * twoTo e.toNat, high * twoTo e.toNat, 1)

/-- Whether `c * 10 ^ k` reads back as the value. -/
def readsBack (x : Double) (c : Nat) (k : Int) : Bool :=
  let (low, high, d) := x.interval
  let (l, cl) := overOne low d c k
  let (h, ch) := overOne high d c k
  if x.significand % 2 = 0 then l ≤ cl && ch ≤ h else l < cl && ch < h

/-- The value as a ratio of units `10 ^ k`. -/
def scaled (x : Double) (k : Int) : Nat × Nat :=
  let (n, d) := x.ratio
  if k < 0 then (n * tenTo (-k).toNat, d) else (n, d * tenTo k.toNat)

/-- The first of `count, count + 1, …` digits whose grid has a point that reads back. -/
def searchDigits (x : Double) (order : Int) : (steps : Nat) → (count : Nat) → Digits
  | 0, count =>
    let k := order - count
    let (n, d) := x.scaled k
    ⟨n / d, k⟩
  | steps + 1, count =>
    let k := order - count
    let (n, d) := x.scaled k
    let c := n / d
    let below := readsBack x c k
    let above := readsBack x (c + 1) k
    if below && above then ⟨roundHalfEven n d, k⟩
    else if below then ⟨c, k⟩
    else if above then ⟨c + 1, k⟩
    else searchDigits x order steps (count + 1)

def stripZeros : (steps : Nat) → Digits → Digits
  | 0, t => t
  | steps + 1, t =>
    if t.coefficient ≠ 0 ∧ t.coefficient % 10 = 0 then
      stripZeros steps ⟨t.coefficient / 10, t.exponent + 1⟩
    else t

def shortest (x : Double) : Digits :=
  let (n, d) := x.ratio
  stripZeros 20 (searchDigits x (decimalOrder n d) 17 1)

/-- The text of a value: positional when its leading digit stands from four places after the point
to sixteen before it, and with a signed exponent of two digits or more otherwise. -/
def text (x : Double) : String :=
  if x.isNaN then "nan"
  else
    let sign := if x.isNegative then "-" else ""
    if x.isInfinite then sign ++ "inf"
    else if x.isZero then sign ++ "0.0"
    else
      let t := x.shortest
      let digits := Nat.toDigits 10 t.coefficient
      let point := (digits.length : Int) + t.exponent
      if -3 ≤ point ∧ point ≤ 16 then
        if point ≤ 0 then
          sign ++ "0." ++ String.ofList (List.replicate (-point).toNat '0' ++ digits)
        else if t.exponent ≥ 0 then
          sign ++ String.ofList (digits ++ List.replicate t.exponent.toNat '0') ++ ".0"
        else
          sign ++ String.ofList (digits.take point.toNat) ++ "." ++ String.ofList (digits.drop point.toNat)
      else
        let e := point - 1
        let places := decimalText e.natAbs
        let mantissa :=
          match digits with
          | [] => ""
          | [c] => String.ofList [c]
          | c :: rest => String.ofList (c :: '.' :: rest)
        sign ++ mantissa ++ "e" ++ (if e < 0 then "-" else "+")
          ++ (if places.length < 2 then "0" ++ places else places)

/-- A value with a fixed number of places; a tie goes to the even neighbour. -/
def fixed (places : Nat) (x : Double) : String :=
  if x.isNaN then "nan"
  else
    let sign := if x.isNegative then "-" else ""
    if x.isInfinite then sign ++ "inf"
    else
      let (n, d) := x.ratio
      let scaled := roundHalfEven (n * tenTo places) d
      let digits := Nat.toDigits 10 scaled
      let padded := List.replicate (places + 1 - digits.length) '0' ++ digits
      let whole := padded.take (padded.length - places)
      let rest := padded.drop (padded.length - places)
      sign ++ String.ofList whole ++ (if places = 0 then "" else "." ++ String.ofList rest)

/-- The value nearest to the given one with a fixed number of places. -/
def roundTo (places : Nat) (x : Double) : Double :=
  if x.isFinite then
    let (n, d) := x.ratio
    ofDecimal x.isNegative (roundHalfEven (n * tenTo places) d) (-(places : Int))
  else x

end Double

end CodeAtlas
