import Interop.Numeral.Reading
import Interop.Value.Native

/-!
# Narrowing of numbers

A script number becomes a native number of a kind. Kinds that hold whole numbers drop the fraction and take what then
lies in their range; the 32-bit kind takes every number up to the largest it has. Nothing is ever clamped: what does
not fit is refused.

Ranges are tested among doubles, before a number becomes an integer. The greatest long number is no double, but one past
the greatest of every kind is.
-/

namespace Interop

/-- The whole part of a number held within bounds; zero for not-a-number. -/
def Double.clamp (least greatest : Int) (x : Double) : Int :=
  match x.datum with
  | .nan => 0
  | .infinite negative => if negative then least else greatest
  | .finite _ _ _ => max least (min (x.truncate?.getD 0) greatest)

/-- The whole part of a number held within the range of a signed 64-bit word. -/
def Double.saturateLong (x : Double) : Int64 := .ofInt (x.clamp (-0x8000000000000000) 0x7fffffffffffffff)

/-- The number without its fraction, by way of a signed 64-bit word, if a kind that holds whole numbers can take it. -/
def NumericKind.wholeInRange (kind : NumericKind) (x : Double) : Option Int := do
  let (least, greatest) ← kind.range?
  let whole := x.wholePart
  if !x.isFinite || whole.less (.ofInt least) || whole.atLeast ((Double.ofInt greatest).add .one) then none
  else some whole.saturateLong.toInt

/-- Whether a finite number lies beyond the largest single. -/
def Double.exceedsSingle (x : Double) : Bool :=
  match x.datum with
  | .finite _ significand scale =>
    let (num, den) := Datum.magnitude significand scale
    num > Single.largest * den
  | _ => false

/-- A number as a native number of a kind, if it fits. -/
def NumericKind.ofDouble? (kind : NumericKind) (x : Double) : Option Native :=
  match kind with
  | .double => some (.double x)
  | .float => if x.exceedsSingle then none else some (.float (.ofDouble x))
  | .long => (kind.wholeInRange x).map fun n => .long (.ofInt n)
  | .int => (kind.wholeInRange x).map fun n => .int (.ofInt n)
  | .short => (kind.wholeInRange x).map fun n => .short (.ofInt n)
  | .char => (kind.wholeInRange x).map fun n => .char (.ofInt n)
  | .byte => (kind.wholeInRange x).map fun n => .byte (.ofInt n)

/-- Numeric text as a native number; text that is no number never fits. -/
def NumericKind.parse (kind : NumericKind) (text : String) : Option Native :=
  let x := Numeral.scriptNumber text
  if x.isNaN then none else kind.ofDouble? x

/-- Text as a character: a single unit stands for itself, anything else is read as a code. -/
def parseChar (text : String) : Option Native :=
  match Text.units text with
  | [unit] => some (.char unit)
  | _ => NumericKind.parse .char text

/-- The whole part of a number held within the range of a signed 32-bit word. -/
def Double.saturateInt (x : Double) : Int32 := .ofInt (x.clamp (-0x80000000) 0x7fffffff)

end Interop
