/-!
# Failures

Everything that script code can see go wrong is a `Failure`; its wording is in `Failure.message` alone. `Stop` adds
the two ways in which a computation ends without an answer for script code: a broken promise between the parts of
the library, and work that has no end.
-/

namespace Interop

inductive Failure where
  /-- The name denotes no member of the type. -/
  | memberNotFound (typeName name : String)
  /-- No overload takes the arguments. -/
  | noApplicableOverload (name args : String)
  /-- Several overloads fit the arguments equally well. -/
  | ambiguousOverload (name args : String) (candidates : List String)
  /-- The value cannot become the target type. -/
  | conversion (value target : String)
  /-- The name or ordinal denotes no constant of the enum. -/
  | illegalEnumValue (enumName value : String) (valid : List String)
  /-- A final field, a property without setter or a method was written. -/
  | readOnly (typeName name : String)
  /-- The host has no handle for the member. -/
  | inaccessible (typeName name : String)
  /-- An index fell outside a container. -/
  | outOfBounds (index length : Nat)
  /-- The type has no constructor to call. -/
  | notConstructible (typeName : String)
  /-- The value is not a function. -/
  | notCallable (value : String)
  /-- The native call itself failed. -/
  | native (member text : String)
  /-- The host refused to describe the members of the type. -/
  | accessDenied (typeName : String)
  /-- The host does not describe the type. -/
  | unknownType (typeName : String)
  deriving DecidableEq, Repr

namespace Failure

def message : Failure → String
  | memberNotFound typeName name => "'" ++ name ++ "' is not a member of '" ++ typeName ++ "'"
  | noApplicableOverload name args => "no overload of '" ++ name ++ "' matches arguments (" ++ args ++ ")"
  | ambiguousOverload name args candidates =>
    "call to '" ++ name ++ "' with arguments (" ++ args ++ ") is ambiguous; candidates: "
      ++ ", ".intercalate candidates
  | conversion value target => "cannot convert " ++ value ++ " to " ++ target
  | illegalEnumValue enumName value valid =>
    value ++ " is not a constant of enum '" ++ enumName ++ "'; valid values: " ++ ", ".intercalate valid
  | readOnly typeName name => "'" ++ name ++ "' of '" ++ typeName ++ "' is read-only"
  | inaccessible typeName name => "member '" ++ name ++ "' of '" ++ typeName ++ "' is not accessible"
  | outOfBounds index length =>
    "index " ++ toString index ++ " out of bounds for length " ++ toString length
  | notConstructible typeName => "'" ++ typeName ++ "' cannot be constructed"
  | notCallable value => value ++ " is not callable"
  | native member text => "native exception in '" ++ member ++ "': " ++ text
  | accessDenied typeName => "access denied while introspecting '" ++ typeName ++ "'"
  | unknownType typeName => "unknown native type '" ++ typeName ++ "'"

/-- A value of the right kind of target, with content the target cannot take. -/
def isConversion : Failure → Bool
  | conversion _ _ => true
  | illegalEnumValue _ _ _ => true
  | _ => false

/-- An overload set without a single best candidate. -/
def isResolution : Failure → Bool
  | noApplicableOverload _ _ => true
  | ambiguousOverload _ _ _ => true
  | _ => false

def isMemberNotFound : Failure → Bool
  | memberNotFound _ _ => true
  | _ => false

end Failure

/-- Why a computation ended without a value. -/
inductive Stop where
  /-- Script code gets a failure. -/
  | failed (failure : Failure)
  /-- A type variable is left where only resolved types may stand. -/
  | unresolvedVariable (name : String)
  /-- The computation does not end, or not within its allowance. -/
  | diverged
  deriving DecidableEq, Repr

end Interop
