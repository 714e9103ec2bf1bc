import Interop.Descriptor.Basic
import Interop.Numeral.Positional
import Interop.Text.Units

/-!
# Native values

Values on the native side. Primitives and strings are carried inline; everything else is a reference to an object,
and two references are equal when they refer to the same object. Equality of inline numbers takes all
not-a-numbers for one and the two zeros for one, and values of different kinds are never equal.
-/

namespace Interop

/-- Refers to a native object. -/
structure NativeRef where
  index : Nat
  deriving DecidableEq, Hashable, Repr, Inhabited

inductive Native where
  /-- The result of a call that returns nothing. -/
  | void
  | null
  | boolean (value : Bool)
  /-- A UTF-16 unit. -/
  | char (unit : UInt16)
  | byte (value : Int8)
  | short (value : Int16)
  | int (value : Int32)
  | long (value : Int64)
  | float (value : Single)
  | double (value : Double)
  | string (value : String)
  | object (ref : NativeRef)
  deriving DecidableEq, Repr, Inhabited

namespace Native

/-- Equality of native values. -/
def same : Native → Native → Bool
  | void, void => true
  | null, null => true
  | boolean a, boolean b => a == b
  | char a, char b => a == b
  | byte a, byte b => a == b
  | short a, short b => a == b
  | int a, int b => a == b
  | long a, long b => a == b
  | float a, float b => a.equivalent b
  | double a, double b => a.equivalent b
  | string a, string b => a == b
  | object a, object b => a == b
  | _, _ => false

instance : BEq Native := ⟨same⟩

/-- Null, or the absence of a result. -/
def isNull : Native → Bool
  | void => true
  | null => true
  | _ => false

/-- The kind of an inline number or character. -/
def numericKind? : Native → Option NumericKind
  | char _ => some .char
  | byte _ => some .byte
  | short _ => some .short
  | int _ => some .int
  | long _ => some .long
  | float _ => some .float
  | double _ => some .double
  | _ => none

/-- The number that an inline number or character holds. -/
def toDouble? : Native → Option Double
  | char u => some (.ofNat u.toNat)
  | byte v => some (.ofInt v.toInt)
  | short v => some (.ofInt v.toInt)
  | int v => some (.ofInt v.toInt)
  | long v => some (.ofInt v.toInt)
  | float x => some x.toDouble
  | double x => some x
  | _ => none

def toBool? : Native → Option Bool
  | boolean b => some b
  | _ => none

def toText? : Native → Option String
  | string s => some s
  | _ => none

def toRef? : Native → Option NativeRef
  | object r => some r
  | _ => none

/-- The zero of a numeric kind. -/
def zero : NumericKind → Native
  | .double => double .zero
  | .float => float .zero
  | .long => long 0
  | .int => int 0
  | .short => short 0
  | .char => char 0
  | .byte => byte 0

/-- What a fresh array slot, an unset field or an unanswered call of a type holds. -/
def initialFor (d : Descriptor) : Native :=
  match d.primitiveKind? with
  | some .boolean => boolean false
  | some (.numeric kind) => zero kind
  | _ => null

/-- The text of an inline value. -/
def inlineText? : Native → Option String
  | void => some "void"
  | null => some "null"
  | boolean b => some (if b then "true" else "false")
  | char u => some (String.ofList [Text.ofUnit u])
  | byte v => some (toString v.toInt)
  | short v => some (toString v.toInt)
  | int v => some (toString v.toInt)
  | long v => some (toString v.toInt)
  | float x => some x.text
  | double x => some x.text
  | string s => some s
  | object _ => none

end Native

end Interop
