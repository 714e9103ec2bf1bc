/-!
# Binary interchange formats

Every number that crosses between the two sides is a binary floating-point datum. A format is fixed by the
width of its fraction and exponent fields; everything else follows. All arithmetic on data is exact arithmetic
on natural numbers, and `Format.round` is the single place where a real value becomes a datum again.

A finite datum is `± significand · 2 ^ scale`. Rounding goes to the nearest datum, a tie goes to the even
significand, and a value past the largest finite datum becomes infinite.
-/

namespace Interop

-- powers are those of the natural numbers, whatever other powers are in scope
attribute [local instance (high)] instPowNat

/-- A binary floating-point format: the widths of the stored fraction and of the exponent field. -/
structure Format where
  fractionBits : Nat
  exponentBits : Nat

namespace Format

/-- The 64-bit format. -/
def binary64 : Format := ⟨52, 11⟩

/-- The 32-bit format. -/
def binary32 : Format := ⟨23, 8⟩

/-- The exponent field of infinities and not-a-numbers: all ones. -/
def topExponent (f : Format) : Nat := 2 ^ f.exponentBits - 1

/-- The scale of the smallest subnormal. -/
def minScale (f : Format) : Int := 2 - (2 ^ (f.exponentBits - 1) : Nat) - f.fractionBits

/-- Weight of the sign bit. -/
def signWeight (f : Format) : Nat := 2 ^ (f.fractionBits + f.exponentBits)

end Format

/-- What a bit pattern denotes. -/
inductive Datum where
  | nan
  | infinite (negative : Bool)
  | finite (negative : Bool) (significand : Nat) (scale : Int)
  deriving DecidableEq, Repr

namespace Datum

/-- A finite datum as a fraction of two natural numbers, the sign left out. -/
def magnitude (significand : Nat) (scale : Int) : Nat × Nat :=
  (significand * 2 ^ scale.toNat, 2 ^ (-scale).toNat)

/-- The signed significand that a finite datum has at a scale that is not above its own. -/
def significandAt (lower : Int) (negative : Bool) (significand : Nat) (scale : Int) : Int :=
  let widened : Int := (significand * 2 ^ (scale - lower).toNat : Nat)
  if negative then -widened else widened

/-- The value with its fractional part dropped; absent for infinities and not-a-numbers. -/
def truncate? : Datum → Option Int
  | finite negative significand scale =>
    let (num, den) := magnitude significand scale
    let whole : Int := (num / den : Nat)
    some (if negative then -whole else whole)
  | _ => none

/-- The value, if it is a whole number. -/
def whole? : Datum → Option Int
  | finite negative significand scale =>
    let (num, den) := magnitude significand scale
    if num % den = 0 then
      let whole : Int := (num / den : Nat)
      some (if negative then -whole else whole)
    else none
  | _ => none

end Datum

/-- The natural number nearest to `num / den`; a tie goes to the even one. -/
def roundDiv (num den : Nat) : Nat :=
  let quotient := num / den
  let twice := 2 * (num % den)
  if twice > den ∨ (twice = den ∧ quotient % 2 = 1) then quotient + 1 else quotient

namespace Format

/-- What a bit pattern of this format denotes. -/
def decode (f : Format) (bits : Nat) : Datum :=
  let fraction := bits % 2 ^ f.fractionBits
  let exponent := bits / 2 ^ f.fractionBits % 2 ^ f.exponentBits
  let negative := bits / f.signWeight % 2 == 1
  if exponent = f.topExponent then
    if fraction = 0 then .infinite negative else .nan
  else if exponent = 0 then
    .finite negative fraction f.minScale
  else
    .finite negative (2 ^ f.fractionBits + fraction) (f.minScale + (exponent - 1 : Nat))

/-- The pattern of an infinity. -/
def infinityBits (f : Format) (negative : Bool) : Nat :=
  f.topExponent * 2 ^ f.fractionBits + if negative then f.signWeight else 0

/-- The pattern of the quiet not-a-number. -/
def nanBits (f : Format) : Nat :=
  f.topExponent * 2 ^ f.fractionBits + 2 ^ (f.fractionBits - 1)

/--
The scale at which `num / den` has a significand of full width, or the smallest scale of the format when the
value is below every normal datum.
-/
def scaleOf (f : Format) (num den : Nat) : Int :=
  let guess := max f.minScale ((num.log2 : Int) - den.log2 - 1 - f.fractionBits)
  let quotient := (num * 2 ^ (-guess).toNat) / (den * 2 ^ guess.toNat)
  if quotient < 2 ^ (f.fractionBits + 1) then guess else guess + 1

/--
The pattern nearest to `± num / den`. A significand that rounds up to the next power of two carries into the
exponent field, so one addition packs every finite case.
-/
def round (f : Format) (negative : Bool) (num den : Nat) : Nat :=
  let sign := if negative then f.signWeight else 0
  if num = 0 then sign
  else
    let scale := f.scaleOf num den
    let significand := roundDiv (num * 2 ^ (-scale).toNat) (den * 2 ^ scale.toNat)
    let packed := (scale - f.minScale).toNat * 2 ^ f.fractionBits + significand
    if packed < f.topExponent * 2 ^ f.fractionBits then sign + packed
    else f.infinityBits negative

/-- The pattern that denotes a datum, rounded where the format is too narrow for it. -/
def encode (f : Format) : Datum → Nat
  | .nan => f.nanBits
  | .infinite negative => f.infinityBits negative
  | .finite negative significand scale =>
    let (num, den) := Datum.magnitude significand scale
    f.round negative num den

end Format

end Interop
