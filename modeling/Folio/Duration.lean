import Folio.Decimal.Shortest

/-! Spans of time in whole nanoseconds, read from and shown as binary fractions of a second. -/

namespace Folio

/-- A span of time. -/
structure Duration where
  nanos : Nat
  deriving DecidableEq, Repr

namespace Duration

/-- Why a number of seconds is no duration. -/
inductive Fault where
  | negative
  /-- A duration holds fewer than `2 ^ 64` seconds. -/
  | tooLarge
  deriving DecidableEq, Repr

/-- The wording of a fault. -/
def Fault.message : Fault → String
  | negative => "cannot convert float seconds to Duration: value is negative"
  | tooLarge => "cannot convert float seconds to Duration: value is either too big or NaN"

/-- The quotient, rounded to the nearest whole number, a half to the even neighbour. -/
def roundedQuotient (num den : Nat) : Nat :=
  let q := num / den
  let twice := 2 * (num % den)
  if den < twice || (twice == den && q % 2 == 1) then q + 1 else q

/-- The nanoseconds of a second. -/
def second : Nat := 1000000000

/-- The nanoseconds of a millisecond. -/
def millisecond : Nat := 1000000

/-- The nanoseconds of a microsecond. -/
def microsecond : Nat := 1000

/-- The nanoseconds of `mantissa * 2 ^ power` seconds. -/
def nanosOfBinary (mantissa : Nat) (power : Int) : Nat :=
  if 0 ≤ power then mantissa * Decimal.twoTo power.toNat * second
  else roundedQuotient (mantissa * second) (Decimal.twoTo (-power).toNat)

/-- A duration of so many seconds, to the nearest nanosecond. -/
def ofSeconds (s : Float) : Except Fault Duration :=
  if s < 0.0 then .error .negative
  else if s < 18446744073709551616.0 then
    let (mantissa, power) := Decimal.binaryParts s
    .ok ⟨nanosOfBinary mantissa power⟩
  else .error .tooLarge

/-- A duration of so many milliseconds. -/
def ofMillis (ms : Float) : Except Fault Duration := ofSeconds (ms / 1000.0)

/-- A duration of so many milliseconds, where a negative number stands for no time. -/
def ofMillisClamped (ms : Float) : Except Fault Duration :=
  ofMillis (if ms < 0.0 then 0.0 else ms)

/-- The milliseconds of a duration. The seconds and the rest are rounded each on its own. -/
def toMillis (d : Duration) : Float :=
  let seconds := (d.nanos / second).toUInt64.toFloat
  let rest := (d.nanos % second).toUInt64.toFloat
  (seconds + rest / 1000000000.0) * 1000.0

/-- A number of hundredths as a decimal with two places. -/
def twoPlaces (hundredths : Nat) : String :=
  let rest := hundredths % 100
  toString (hundredths / 100) ++ "." ++ (if rest < 10 then "0" else "") ++ toString rest

/-- A duration in the largest unit of which it holds one, with two places. -/
def describe (d : Duration) : String :=
  if second ≤ d.nanos then twoPlaces (roundedQuotient (100 * d.nanos) second) ++ "s"
  else if millisecond ≤ d.nanos then twoPlaces (roundedQuotient (100 * d.nanos) millisecond) ++ "ms"
  else if microsecond ≤ d.nanos then twoPlaces (roundedQuotient (100 * d.nanos) microsecond) ++ "µs"
  else twoPlaces (100 * d.nanos) ++ "ns"

end Duration

end Folio
