import Interop.Value.Native

/-!
# Native code

What runs when a native member is called, as data. Host code is one of a few small operations, all of which end; calls
of it are recorded. The members of the standard types have operations of their own. An abstract method hands the call to its
receiver, and a method without code fails.
-/

namespace Interop

/--
Host code of a method or constructor. A host may run anything; here it runs one of a few operations, each of which
gives a value or fails and keeps to itself but for what it says. What is proved of computations that run such code, as
numbers do that ask an accessor, is proved for code of these forms only.
-/
inductive HostCode where
  /-- Gives one value, the same on every call. -/
  | constant (value : Native)
  /-- Gives an argument, null if it is missing. -/
  | argument (i : Nat)
  /-- Gives the receiver, null without one. -/
  | receiver
  /-- Reads a field of the receiver. -/
  | readField (name : String)
  /-- Writes the first argument to a field of the receiver. -/
  | writeField (name : String)
  /-- Makes an object of a type, its fields set from the arguments in order. -/
  | allocate (type : Descriptor) (fields : List String)
  /-- Calls a method of the first argument with the remaining ones. -/
  | dispatch (method : String)
  | raise (text : String)
  deriving Repr

/-- Members of the standard types. -/
inductive StandardCode where
  | objectText
  | objectEquals
  | objectNew
  | stringLength
  | stringIsEmpty
  | numberDouble
  | numberInt
  | className
  | collectionSize
  | collectionIsEmpty
  | collectionContains
  | collectionAdd
  | listGet
  | listSet
  | mapSize
  | mapGet
  | mapPut
  | mapContainsKey
  | enumName
  | enumOrdinal
  deriving DecidableEq, Repr

/-- The name under which a standard member reports its failures. -/
def StandardCode.memberName : StandardCode → String
  | objectText => "toString"
  | objectEquals => "equals"
  | objectNew => "<init>"
  | stringLength => "length"
  | stringIsEmpty => "isEmpty"
  | numberDouble => "doubleValue"
  | numberInt => "intValue"
  | className => "getName"
  | collectionSize => "size"
  | collectionIsEmpty => "isEmpty"
  | collectionContains => "contains"
  | collectionAdd => "add"
  | listGet => "get"
  | listSet => "set"
  | mapSize => "size"
  | mapGet => "get"
  | mapPut => "put"
  | mapContainsKey => "containsKey"
  | enumName => "name"
  | enumOrdinal => "ordinal"

/-- What a call of a member runs. -/
inductive Invoker where
  /-- Host code under a name; calls are recorded. -/
  | host (name : String) (code : HostCode)
  | standard (code : StandardCode)
  /-- Hands the call to the receiver. -/
  | virtual (name : String)
  /-- A method without code. -/
  | missing (name : String)
  deriving Repr

/-- Refers to the storage of a static field. -/
structure CellRef where
  index : Nat
  deriving DecidableEq, Hashable, Repr, Inhabited

/-- Where a field keeps its value. -/
inductive Storage where
  /-- One cell for the whole type. -/
  | cell (ref : CellRef)
  /-- A named slot of the receiver, with the value it holds until it is set. -/
  | slot (name : String) (unset : Native)
  /-- Neither reading nor writing works. -/
  | broken (name : String)
  deriving Repr

end Interop
