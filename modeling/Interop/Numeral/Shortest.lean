import Interop.Number.Double

/-!
# Shortest decimal digits

A finite binary datum is written with the fewest significant decimal digits that read back as the same datum.
The reals that round to a datum form an interval around it, whose ends belong to it exactly when the
significand is even. For one digit, two digits and so on, the two neighbours of the value on the decimal grid
of that many digits are tried; the first grid with a neighbour in the interval wins, of two the nearer one, and
the upper one on a tie.
-/

namespace Interop.Numeral

-- powers are those of the natural numbers, whatever other powers are in scope
attribute [local instance (high)] instPowNat

/-- A decimal `digits · 10 ^ exponent`. -/
structure Decimal where
  digits : Nat
  exponent : Int
  deriving DecidableEq, Repr

/-- How many decimal digits a positive natural number has. -/
def digitCount (n : Nat) : Nat := (Nat.toDigits 10 n).length

/--
The interval of reals that round to a datum, as numerators over the common denominator `den`: the value
itself, its two ends, and whether the ends belong to it.
-/
structure RoundingInterval where
  value : Nat
  low : Nat
  high : Nat
  den : Nat
  closed : Bool

/--
The rounding interval of `significand · 2 ^ scale`. Below a power of two the data lie twice as close, so the
lower end is nearer there, unless the datum is the smallest normal one.
-/
def RoundingInterval.of (f : Format) (significand : Nat) (scale : Int) : RoundingInterval :=
  let unit := 2 ^ scale.toNat
  let ofDouble? := significand = 2 ^ f.fractionBits ∧ scale ≠ f.minScale
  { value := 4 * significand * unit
    low := (4 * significand - if ofDouble? then 1 else 2) * unit
    high := (4 * significand + 2) * unit
    den := 4 * 2 ^ (-scale).toNat
    closed := significand % 2 = 0 }

/-- Whether `digits · 10 ^ exponent` lies in the interval. -/
def RoundingInterval.contains (r : RoundingInterval) (d : Decimal) : Bool :=
  let num := d.digits * 10 ^ d.exponent.toNat * r.den
  let den := 10 ^ (-d.exponent).toNat
  if r.closed then r.low * den ≤ num && num ≤ r.high * den
  else r.low * den < num && num < r.high * den

/-- The least `e` with `value < 10 ^ e`. -/
def RoundingInterval.magnitude (r : RoundingInterval) : Int :=
  let guess : Int := (digitCount r.value : Int) - digitCount r.den
  if r.value * 10 ^ (-guess).toNat ≥ r.den * 10 ^ guess.toNat then guess + 1 else guess

/-- The better neighbour of the value on the grid of step `10 ^ exponent`, if one lies in the interval. -/
def RoundingInterval.neighbour? (r : RoundingInterval) (exponent : Int) : Option Decimal :=
  let num := r.value * 10 ^ (-exponent).toNat
  let den := r.den * 10 ^ exponent.toNat
  let below : Decimal := ⟨num / den, exponent⟩
  let above : Decimal := ⟨num / den + 1, exponent⟩
  match r.contains below, r.contains above with
  | true, true => some (if 2 * (num % den) < den then below else above)
  | true, false => some below
  | false, true => some above
  | false, false => none

/-- The first grid, coarsest first, that has a neighbour in the interval; `tries` more grids are left. -/
def RoundingInterval.search (r : RoundingInterval) : Nat → Int → Decimal
  | 0, exponent => ⟨r.value * 10 ^ (-exponent).toNat / (r.den * 10 ^ exponent.toNat), exponent⟩
  | tries + 1, exponent => (r.neighbour? exponent).getD (r.search tries (exponent - 1))

/-- The shortest decimal that reads back as `significand · 2 ^ scale`. Seventeen digits always suffice. -/
def shortest (f : Format) (significand : Nat) (scale : Int) : Decimal :=
  let interval := RoundingInterval.of f significand scale
  interval.search 17 (interval.magnitude - 1)

end Interop.Numeral
