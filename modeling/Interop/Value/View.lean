import Interop.Value.Object

/-!
# Views

A view is what a value looks like at one moment, with everything it refers to written out. Records of calls hold
views, because the objects themselves may change afterwards.
-/

namespace Interop

inductive View where
  /-- An inline native value. -/
  | native (value : Native)
  | nativeArray (component : String) (elements : List View)
  | nativeList (kind : CollectionKind) (elementType : String) (elements : List View)
  | nativeMap (keyType valueType : String) (entries : List (View × View))
  | constant (enumName : String) (ordinal : Nat) (name : String)
  | classRef (type : String)
  | handle (value : View)
  | adapter (interface : String) (target : View)
  | record (typeName display : String)
  /-- An inline script value. -/
  | script (value : Script)
  | function (name : String)
  | method (name : String) (signatures : List String)
  | scriptArray (elements : List View)
  | scriptObject (properties : List (String × View))
  | wrapped (className type : String) (value : View)
  /-- A part that refers back to a value around it. -/
  | cut
  deriving Repr, Inhabited

/-- A call that ran host code or a script function. -/
inductive CallRecord where
  | native (name : String) (receiver : Option View) (args : List View)
  | script (name : String) (receiver : View) (args : List View)
  deriving Repr

end Interop
