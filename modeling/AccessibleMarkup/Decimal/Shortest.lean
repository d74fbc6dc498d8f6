/-! The fewest decimal digits that read back as a given double, written positionally. -/
namespace AccessibleMarkup.Decimal

/-- A positive double, as the numerators of the ends and the middle of the interval of numbers that
round to it, over a common denominator. -/
structure Interval where
  low : Nat
  middle : Nat
  high : Nat
  denominator : Nat
  /-- Whether the ends round to the double too. -/
  closed : Bool
  deriving DecidableEq, Repr

namespace Interval

/-- The interval of `mantissa * 2 ^ exponent`. The gap below is half as wide where the doubles below
lie closer. -/
def around (mantissa : Nat) (exponent : Int) (narrowBelow : Bool) : Interval :=
  let factor := Nat.pow 2 (exponent - 2).toNat
  { low := (4 * mantissa - if narrowBelow then 1 else 2) * factor
    middle := 4 * mantissa * factor
    high := (4 * mantissa + 2) * factor
    denominator := Nat.pow 2 (2 - exponent).toNat
    closed := mantissa % 2 == 0 }

def scale (interval : Interval) (power : Int) : Interval :=
  let factor := Nat.pow 10 (-power).toNat
  { low := interval.low * factor
    middle := interval.middle * factor
    high := interval.high * factor
    denominator := interval.denominator * Nat.pow 10 power.toNat
    closed := interval.closed }

def contains (interval : Interval) (whole : Nat) : Bool :=
  let place := whole * interval.denominator
  if interval.closed then interval.low ≤ place && place ≤ interval.high
  else interval.low < place && place < interval.high

/-- The whole number of the interval that is nearest to the middle, the larger of two as near. -/
def nearest? (interval : Interval) : Option Nat :=
  let below := interval.middle / interval.denominator
  let rest := interval.middle % interval.denominator
  if interval.contains (below + 1) && (!interval.contains below || 2 * rest ≥ interval.denominator)
  then some (below + 1)
  else if interval.contains below then some below
  else none

/-- The first of so many powers of ten, from the greatest down, that has a multiple in the
interval, and the multiplier. -/
def coarsest? (interval : Interval) (greatest : Int) : Nat → Option (Nat × Int)
  | 0 => none
  | steps + 1 =>
    match (interval.scale greatest).nearest? with
    | some digits => some (digits, greatest)
    | none => interval.coarsest? (greatest - 1) steps

end Interval

def positional (digits : Nat) (power : Int) : String :=
  let written := Nat.toDigits 10 digits
  if power ≥ 0 then String.ofList (written ++ List.replicate power.toNat '0')
  else
    let places := (-power).toNat
    let padded := List.replicate (places + 1 - written.length) '0' ++ written
    let whole := padded.length - places
    String.ofList (padded.take whole ++ '.' :: padded.drop whole)

/-- No power of ten above this one has a multiple near a double. -/
def greatestPower : Int := 309

/-- Steps from the greatest power of ten to below the last digit of every double. -/
def powerSteps : Nat := 1400

def shortest (number : Float) : String :=
  let bits := number.toBits.toNat
  let hidden := Nat.pow 2 52
  let sign := if bits / hidden / 2048 == 1 then "-" else ""
  let biased := bits / hidden % 2048
  let fraction := bits % hidden
  if biased == 2047 then
    if fraction == 0 then sign ++ "inf" else "NaN"
  else if biased == 0 && fraction == 0 then sign ++ "0"
  else
    let interval :=
      if biased == 0 then Interval.around fraction (-1074) false
      else Interval.around (fraction + hidden) ((biased : Int) - 1075) (fraction == 0 && biased > 1)
    match interval.coarsest? greatestPower powerSteps with
    | some (digits, power) => sign ++ positional digits power
    | none => sign ++ "0"

end AccessibleMarkup.Decimal
