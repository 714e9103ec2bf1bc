import Interop.Number.Binary

/-!
# Doubles and singles

The numbers of the two sides. Script code has one kind of number, the 64-bit `Double`; native code also has
the 32-bit `Single`. Two notions of equality are kept apart: `Double.sameValue`, under which a not-a-number
differs from everything, and `Double.equivalent`, the total one used by native containers and literal types,
under which all not-a-numbers are one value. Both take the two zeros for one.
-/

namespace Interop

/-- A 64-bit binary floating-point number, by its bit pattern. -/
structure Double where
  bits : UInt64
  deriving DecidableEq, Repr, Inhabited

/-- A 32-bit binary floating-point number, by its bit pattern. -/
structure Single where
  bits : UInt32
  deriving DecidableEq, Repr, Inhabited

namespace Double

def datum (x : Double) : Datum := Format.binary64.decode x.bits.toNat

def ofDatum (d : Datum) : Double := ⟨(Format.binary64.encode d).toUInt64⟩

/-- The double nearest to `± num / den`. -/
def ofRatio (negative : Bool) (num den : Nat) : Double :=
  ⟨(Format.binary64.round negative num den).toUInt64⟩

/-- The double nearest to an integer. -/
def ofInt (n : Int) : Double := ofRatio (n < 0) n.natAbs 1

/-- The double nearest to a natural number. -/
def ofNat (n : Nat) : Double := ofRatio false n 1

def nan : Double := ofDatum .nan

def infinity (negative : Bool) : Double := ofDatum (.infinite negative)

def zero : Double := ⟨0⟩

def one : Double := ofNat 1

/-- The sign bit flipped. -/
def negate (x : Double) : Double := ⟨x.bits ^^^ 0x8000000000000000⟩

def isNaN (x : Double) : Bool := x.datum == .nan

/-- Neither infinite nor a not-a-number. -/
def isFinite (x : Double) : Bool :=
  match x.datum with
  | .finite _ _ _ => true
  | _ => false

/-- True of both zeros. -/
def isZero (x : Double) : Bool := x.bits &&& 0x7fffffffffffffff == 0

/-- Numeric equality: not-a-number differs from everything, the two zeros agree. -/
def sameValue (x y : Double) : Bool :=
  !x.isNaN && (x.bits == y.bits || (x.isZero && y.isZero))

/-- Total equality: all not-a-numbers agree, the two zeros agree. -/
def equivalent (x y : Double) : Bool :=
  (x.isNaN && y.isNaN) || x.sameValue y

/-- The value with its fractional part dropped, if finite. -/
def truncate? (x : Double) : Option Int := x.datum.truncate?

/-- The value, if it is a whole number. -/
def whole? (x : Double) : Option Int := x.datum.whole?

/-- The number without its fractional part; the sign stays, also on zero. -/
def wholePart (x : Double) : Double :=
  match x.datum with
  | .finite negative significand scale =>
    let (num, den) := Datum.magnitude significand scale
    ofRatio negative (num / den) 1
  | _ => x

/-- Numeric order: not-a-number is less than nothing and nothing is less than it, the two zeros agree. -/
def less (x y : Double) : Bool :=
  match x.datum, y.datum with
  | .nan, _ => false
  | _, .nan => false
  | .infinite a, .infinite b => a && !b
  | .infinite a, .finite _ _ _ => a
  | .finite _ _ _, .infinite b => !b
  | .finite a m p, .finite b n q =>
    Datum.significandAt (min p q) a m p < Datum.significandAt (min p q) b n q

/-- Greater or numerically equal; false where one of the two is not-a-number. -/
def atLeast (x y : Double) : Bool := !x.isNaN && !y.isNaN && !x.less y

/-- The sum, rounded once; a sum of zero is negative only where both terms are. -/
def add (x y : Double) : Double :=
  match x.datum, y.datum with
  | .nan, _ => nan
  | _, .nan => nan
  | .infinite a, .infinite b => if a = b then infinity a else nan
  | .infinite a, .finite _ _ _ => infinity a
  | .finite _ _ _, .infinite b => infinity b
  | .finite a m p, .finite b n q =>
    let sum := Datum.significandAt (min p q) a m p + Datum.significandAt (min p q) b n q
    ofDatum (.finite (if sum = 0 then a && b else sum < 0) sum.natAbs (min p q))

/-- The product, rounded once. -/
def mul (x y : Double) : Double :=
  match x.datum, y.datum with
  | .nan, _ => nan
  | _, .nan => nan
  | .infinite a, .infinite b => infinity (a != b)
  | .infinite a, .finite b m _ => if m = 0 then nan else infinity (a != b)
  | .finite a m _, .infinite b => if m = 0 then nan else infinity (a != b)
  | .finite a m p, .finite b n q => ofDatum (.finite (a != b) (m * n) (p + q))

end Double

namespace Single

def datum (x : Single) : Datum := Format.binary32.decode x.bits.toNat

def ofDatum (d : Datum) : Single := ⟨(Format.binary32.encode d).toUInt32⟩

/-- The nearest single; infinite past the largest finite one. -/
def ofDouble (x : Double) : Single := ofDatum x.datum

/-- Every single is a double. -/
def toDouble (x : Single) : Double := Double.ofDatum x.datum

def zero : Single := ⟨0⟩

/-- Total equality, as for doubles. -/
def equivalent (x y : Single) : Bool := x.toDouble.equivalent y.toDouble

/-- The largest finite single, `(2 ^ 24 - 1) · 2 ^ 104`. -/
def largest : Nat := 0xffffff <<< 104

end Single

end Interop
