import Interop.Numeral.Shortest
import Interop.Text.Blank

/-!
# Reading numbers

`readUnsigned` reads a decimal literal: digits with an optional point, at least one digit in all, and an optional
exponent. `scriptNumber` is the number a script text denotes: blank text is zero, one leading sign is taken off,
and what follows is the word `Infinity`, a hexadecimal literal (only when no sign was taken off), or a decimal
literal with an optional sign of its own. Everything else is not a number.
-/

namespace Interop.Numeral

-- powers are those of the natural numbers, whatever other powers are in scope
attribute [local instance (high)] instPowNat

/-- The number written by decimal digits. -/
def digitsValue (cs : List Char) : Nat :=
  cs.foldl (fun n c => 10 * n + (c.toNat - '0'.toNat)) 0

/-- An exponent: an optional sign and at least one digit. -/
def readExponent (cs : List Char) : Option Int :=
  let (negative, digits) := match cs with
    | '-' :: rest => (true, rest)
    | '+' :: rest => (false, rest)
    | _ => (false, cs)
  if digits.isEmpty || !digits.all Char.isDigit then none
  else
    let n : Int := digitsValue digits
    some (if negative then -n else n)

/-- An unsigned decimal literal, as its digits and the power of ten that scales them. -/
def readUnsigned (cs : List Char) : Option Decimal :=
  let whole := cs.takeWhile Char.isDigit
  let afterWhole := cs.dropWhile Char.isDigit
  let (fraction, rest) := match afterWhole with
    | '.' :: more => (more.takeWhile Char.isDigit, more.dropWhile Char.isDigit)
    | _ => ([], afterWhole)
  if whole.isEmpty && fraction.isEmpty then none
  else
    let exponent := match rest with
      | [] => some 0
      | c :: more => if c == 'e' || c == 'E' then readExponent more else none
    exponent.map fun e => ⟨digitsValue (whole ++ fraction), e - fraction.length⟩

/--
The double nearest to a decimal. Past `10 ^ 310` every decimal is infinite and below `10 ^ -330` every decimal is
zero, so no power beyond those is computed.
-/
def Decimal.toDouble (negative : Bool) (d : Decimal) : Double :=
  let magnitude : Int := digitCount d.digits + d.exponent
  if d.digits = 0 ∨ magnitude < -330 then Double.ofRatio negative 0 1
  else if magnitude > 310 then Double.infinity negative
  else Double.ofRatio negative (d.digits * 10 ^ d.exponent.toNat) (10 ^ (-d.exponent).toNat)

/-- A decimal literal with an optional sign. -/
def readDecimal (cs : List Char) : Option Double :=
  match cs with
  | '-' :: rest => (readUnsigned rest).map (Decimal.toDouble true)
  | '+' :: rest => (readUnsigned rest).map (Decimal.toDouble false)
  | _ => (readUnsigned cs).map (Decimal.toDouble false)

/-- The value of a hexadecimal digit of either case. -/
def hexDigit? (c : Char) : Option Nat :=
  if c.isDigit then some (c.toNat - '0'.toNat)
  else if 'a' ≤ c ∧ c ≤ 'f' then some (c.toNat - 'a'.toNat + 10)
  else if 'A' ≤ c ∧ c ≤ 'F' then some (c.toNat - 'A'.toNat + 10)
  else none

/-- Hexadecimal digits, at least one. -/
def readHexDigits (cs : List Char) : Option Nat :=
  if cs.isEmpty then none
  else cs.foldl (fun n c => n.bind fun n => (hexDigit? c).map (16 * n + ·)) (some 0)

/-- A hexadecimal word of at most 64 bits; a plus sign may precede the digits. -/
def readHexWord (cs : List Char) : Option Nat :=
  let digits := match cs with
    | '+' :: rest => rest
    | _ => cs
  (readHexDigits digits).filter (· < UInt64.size)

/-- The characters a decimal literal is made of. -/
def isDecimalChar (c : Char) : Bool :=
  c.isDigit || c == '.' || c == 'e' || c == 'E' || c == '+' || c == '-'

/-- One leading sign taken off: whether it was a minus, whether there was one, and the rest. -/
def takeSign : List Char → Bool × Bool × List Char
  | '-' :: rest => (true, true, rest)
  | '+' :: rest => (false, true, rest)
  | cs => (false, false, cs)

/-- What follows the marker of a hexadecimal literal. -/
def afterHexMarker? : List Char → Option (List Char)
  | '0' :: 'x' :: rest => some rest
  | '0' :: 'X' :: rest => some rest
  | _ => none

/-- The number denoted by script text without white space at its ends. -/
def trimmedNumber (cs : List Char) : Double :=
  if cs.isEmpty then Double.zero
  else
    let (negative, signed, body) := takeSign cs
    if body = "Infinity".toList then Double.infinity negative
    else match afterHexMarker? body with
      | some hex =>
        match readHexWord hex with
        | some n => if signed then Double.nan else Double.ofNat n
        | none => Double.nan
      | none =>
        if body.all isDecimalChar then
          match readDecimal body with
          | some x => if negative then x.negate else x
          | none => Double.nan
        else Double.nan

/-- The number denoted by script text. -/
def scriptNumber (s : String) : Double := trimmedNumber (Text.trim s.toList)

end Interop.Numeral
