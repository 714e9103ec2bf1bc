import Interop.Numeral.Shortest

/-!
# Positional number text

Floating-point numbers are printed in positional notation with the shortest digits that read back, never with
an exponent. Script code prints whole numbers below `10 ^ 21` as 64-bit integers, so its text for a whole number
beyond that range stays at the nearest end of it.
-/

namespace Interop.Numeral

/-- Drops the zeros at the end of a fraction, and nothing else. -/
def trimZeros (cs : List Char) : List Char :=
  (cs.reverse.dropWhile (· == '0')).reverse

/-- A decimal in positional notation. -/
def Decimal.positional (d : Decimal) : String :=
  let digits := Nat.toDigits 10 d.digits
  if d.exponent ≥ 0 then
    String.ofList (digits ++ List.replicate d.exponent.toNat '0')
  else
    let places := (-d.exponent).toNat
    let padded := List.replicate (places + 1 - digits.length) '0' ++ digits
    let whole := padded.take (padded.length - places)
    let fraction := trimZeros (padded.drop (padded.length - places))
    if fraction.isEmpty then String.ofList whole
    else String.ofList (whole ++ '.' :: fraction)

/-- The text of a datum of the given format. -/
def text (f : Format) : Datum → String
  | .nan => "NaN"
  | .infinite negative => if negative then "-inf" else "inf"
  | .finite negative significand scale =>
    let body := if significand = 0 then "0" else (shortest f significand scale).positional
    if negative then "-" ++ body else body

end Interop.Numeral

namespace Interop

/-- The text of a double as native code and diagnostics print it. -/
def Double.text (x : Double) : String := Numeral.text .binary64 x.datum

/-- The text of a single as native code prints it. -/
def Single.text (x : Single) : String := Numeral.text .binary32 x.datum

/-- An integer held within the range of a signed 64-bit word. -/
def clampLong (n : Int) : Int := max (-0x8000000000000000) (min n 0x7fffffffffffffff)

/--
The text of a number as script code prints it. Whole numbers below `10 ^ 21` go through a 64-bit integer, which
holds them at its ends.
-/
def Double.scriptText (x : Double) : String :=
  match x.datum with
  | .nan => "NaN"
  | .infinite negative => if negative then "-Infinity" else "Infinity"
  | .finite _ _ _ =>
    match x.whole? with
    | some n => if n.natAbs < 1000000000000000000000 then toString (clampLong n) else x.text
    | none => x.text

end Interop
