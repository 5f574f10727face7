/-! The shortest decimal that stands for a binary fraction. -/

namespace Folio

/-- The number `digits * 10 ^ exponent`, with no zero at the end of the digits. -/
structure Decimal where
  digits : Nat
  exponent : Int
  deriving DecidableEq, Repr

namespace Decimal

/-- Moves the zeros at the end of the digits into the exponent. At most `fuel` zeros are moved. -/
def trim : Nat → Decimal → Decimal
  | 0, d => d
  | fuel + 1, d =>
    if d.digits ≠ 0 ∧ d.digits % 10 = 0 then trim fuel ⟨d.digits / 10, d.exponent + 1⟩ else d

/-- A power of ten. -/
def tenTo (e : Nat) : Nat := Nat.pow 10 e

/-- A power of two. -/
def twoTo (e : Nat) : Nat := Nat.pow 2 e

/-- Numerator and denominator of `n * 10 ^ e`. -/
def scaled (n : Nat) (e : Int) : Nat × Nat :=
  if 0 ≤ e then (n * tenTo e.toNat, 1) else (n, tenTo (-e).toNat)

/-- The power of ten of the first digit of `num / den`, which is not zero. -/
def leading (num den : Nat) : Int :=
  if den ≤ num then (Nat.toDigits 10 (num / den)).length - 1
  else
    let places := (List.range 400).find? fun n => den ≤ num * tenTo (n + 1)
    Int.negSucc (places.getD 400)

/-- The interval of the numbers that a binary fraction stands for: all between `low / unit` and
`high / unit`, the ends included if `closed`, around `value / unit`. -/
structure Interval where
  low : Nat
  value : Nat
  high : Nat
  unit : Nat
  closed : Bool

/-- Whether `n * 10 ^ e` lies in the interval. -/
def Interval.contains (i : Interval) (n : Nat) (e : Int) : Bool :=
  let (num, den) := scaled n e
  let x := num * i.unit
  if i.closed then i.low * den ≤ x && x ≤ i.high * den else i.low * den < x && x < i.high * den

/-- The decimal with the given number of digits that lies in the interval, the one nearest to its
value where there are two, and the even one where both are as near. -/
def Interval.rounded? (i : Interval) (count : Nat) : Option Decimal :=
  let e := leading i.value i.unit + 1 - count
  let (num, den) := scaled 1 e
  let below := i.value * den / (i.unit * num)
  let rest := i.value * den - below * (i.unit * num)
  let half := i.unit * num
  let up := half < 2 * rest || (2 * rest = half && below % 2 == 1)
  let order := if up then [below + 1, below] else [below, below + 1]
  (order.find? fun n => i.contains n e).map fun n => trim (count + 1) ⟨n, e⟩

/-- The decimal with the fewest digits in the interval. -/
def Interval.shortest (i : Interval) : Decimal :=
  ((List.range 17).findSome? fun n => i.rounded? (n + 1)).getD ⟨0, 0⟩

/-- The numbers that read as the double with this mantissa and power of two. `atEdge` says that
the next double below is half as far away as the next one above. -/
def Interval.ofBinary (mantissa : Nat) (power : Int) (atEdge : Bool) : Interval :=
  let scale := if 0 ≤ power then twoTo power.toNat else 1
  let unit := if 0 ≤ power then 4 else 4 * twoTo (-power).toNat
  { low := (4 * mantissa - if atEdge then 1 else 2) * scale
    value := 4 * mantissa * scale
    high := (4 * mantissa + 2) * scale
    unit := unit
    closed := mantissa % 2 == 0 }

/-- Mantissa and power of two of a finite double, without its sign. -/
def binaryParts (f : Float) : Nat × Int :=
  let bits := f.toBits.toNat
  let stored : Nat := bits / twoTo 52 % twoTo 11
  let fraction : Nat := bits % twoTo 52
  if stored = 0 then (fraction, -1074) else (twoTo 52 + fraction, (stored : Int) - 1075)

/-- Whether the sign bit of a double is set. -/
def isNegative (f : Float) : Bool :=
  f.toBits.toNat / twoTo 63 == 1

/-- The decimal with the fewest digits that reads back as the double, without its sign. -/
def shortest (f : Float) : Decimal :=
  let (mantissa, power) := binaryParts f
  if mantissa = 0 then ⟨0, 0⟩
  else (Interval.ofBinary mantissa power (mantissa == twoTo 52 && power != -1074)).shortest

end Decimal

end Folio
