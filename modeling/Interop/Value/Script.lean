import Interop.Number.Double

/-!
# Script values

Values on the script side. Objects and functions are references; everything else is carried inline. Property keys
keep names and indices apart.
-/

namespace Interop

/-- Refers to a script object. -/
structure ObjectRef where
  index : Nat
  deriving DecidableEq, Hashable, Repr, Inhabited

/-- Refers to a script function. -/
structure FunctionRef where
  index : Nat
  deriving DecidableEq, Hashable, Repr, Inhabited

inductive Script where
  | undefined
  | null
  | boolean (value : Bool)
  | number (value : Double)
  | string (value : String)
  | object (ref : ObjectRef)
  | callable (ref : FunctionRef)
  deriving DecidableEq, Repr, Inhabited

/-- What tells two script objects or functions apart. -/
inductive Identity where
  | object (ref : ObjectRef)
  | callable (ref : FunctionRef)
  deriving DecidableEq, Repr

namespace Script

def isNullish : Script → Bool
  | undefined => true
  | null => true
  | _ => false

def toNumber? : Script → Option Double
  | number x => some x
  | _ => none

def toText? : Script → Option String
  | string s => some s
  | _ => none

def toObject? : Script → Option ObjectRef
  | object r => some r
  | _ => none

/-- The identity of an object or function; inline values have none. -/
def identity? : Script → Option Identity
  | object r => some (.object r)
  | callable r => some (.callable r)
  | _ => none

end Script

/-- A property key. -/
inductive PropertyKey where
  | name (text : String)
  | index (i : Nat)
  deriving DecidableEq, Repr

namespace PropertyKey

/-- The key as a property name. -/
def text : PropertyKey → String
  | name s => s
  | index i => toString i

def name? : PropertyKey → Option String
  | name s => some s
  | index _ => none

/-- The key as a script value: a name is a string, an index a number. -/
def toScript : PropertyKey → Script
  | name s => .string s
  | index i => .number (.ofNat i)

end PropertyKey

/-- The kind of primitive that an object is asked to become. -/
inductive Hint where
  | unspecified
  | string
  | number
  | boolean
  deriving DecidableEq, Repr

/-- What a script value is, as conversion sees it. -/
inductive ValueKind where
  | undefined
  | null
  | boolean
  | number
  | string
  | nativeClass
  | nativeObject
  | nativeArray
  | scriptObject
  | scriptArray
  | scriptCallable
  deriving DecidableEq, Repr

def ValueKind.name : ValueKind → String
  | undefined => "Undefined"
  | null => "Null"
  | boolean => "Boolean"
  | number => "Number"
  | string => "String"
  | nativeClass => "NativeClass"
  | nativeObject => "NativeObject"
  | nativeArray => "NativeArray"
  | scriptObject => "ScriptObject"
  | scriptArray => "ScriptArray"
  | scriptCallable => "ScriptCallable"

end Interop
