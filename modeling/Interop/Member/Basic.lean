import Interop.Descriptor.Signature
import Interop.TypeTable.Basic

/-!
# Members

The members of a native type as script code sees them. Overloads of one name form a set. A field that shares its name
with methods keeps them behind it. A property is made of getter and setter methods. An entry has one table for
instance members and one for static members, each in the order in which they are met, and the constructors.
-/

namespace Interop

/-- A method or constructor whose signature mentions no type variables. -/
structure Callable where
  name : String
  declaring : TypeId
  params : List Descriptor
  returnType : Descriptor
  flags : Flags
  invoker : Invoker
  deriving Repr

namespace Callable

def arity (c : Callable) : Nat := c.params.length

def isStatic (c : Callable) : Bool := c.flags.isStatic

def isAbstract (c : Callable) : Bool := c.flags.isAbstract

/-- Takes any number of trailing arguments, in an array. -/
def isVariadic (c : Callable) : Bool :=
  c.flags.isVariadic && c.params.getLast?.any Descriptor.isArray

/-- The name and the parameter types. -/
def signature (c : Callable) : String :=
  c.name ++ "(" ++ ", ".intercalate (c.params.map Descriptor.signature) ++ ")"

end Callable

/-- The methods of one name, or the constructors of one type. -/
structure OverloadSet where
  name : String
  candidates : List Callable
  deriving Repr

structure MemberField where
  name : String
  declaring : TypeId
  type : Descriptor
  flags : Flags
  storage : Storage
  /-- Methods of the same name. -/
  methods : Option OverloadSet
  deriving Repr

/-- A property made of accessor methods. -/
structure Property where
  name : String
  getter : Option Callable
  setter : Option Callable
  /-- Several setters, none of them for the type of the getter. -/
  setters : Option OverloadSet
  deriving Repr

def Property.isReadOnly (p : Property) : Bool := p.setter.isNone && p.setters.isNone

inductive Member where
  | methods (set : OverloadSet)
  | field (accessor : MemberField)
  | property (property : Property)
  deriving Repr

/-- The overloads reachable under the name of a member. -/
def Member.overloads? : Member → Option OverloadSet
  | methods set => some set
  | field accessor => accessor.methods
  | property _ => none

/-- Members under their names, in the order in which the names are met. -/
structure MemberTable where
  rows : List (String × Member)
  deriving Repr, Inhabited

namespace MemberTable

def empty : MemberTable := ⟨[]⟩

def find? (t : MemberTable) (name : String) : Option Member := t.rows.lookup name

def contains (t : MemberTable) (name : String) : Bool := (t.find? name).isSome

def names (t : MemberTable) : List String := t.rows.map (·.1)

/-- Puts a member under a name, in the place of an earlier one. -/
def insertRow (name : String) (m : Member) : List (String × Member) → List (String × Member)
  | [] => [(name, m)]
  | (n, k) :: rest => if n = name then (n, m) :: rest else (n, k) :: insertRow name m rest

def insert (t : MemberTable) (name : String) (m : Member) : MemberTable := ⟨insertRow name m t.rows⟩

end MemberTable

/-- The members of one native type. -/
structure TypeMembers where
  typeId : TypeId
  typeName : String
  instances : MemberTable
  statics : MemberTable
  constructors : Option OverloadSet
  deriving Repr

namespace TypeMembers

def table (e : TypeMembers) (isStatic : Bool) : MemberTable := if isStatic then e.statics else e.instances

/--
The member of a name, and whether it is in the static table. Instance members come first; a name that is none of
them may still be a static member.
-/
def find? (e : TypeMembers) (name : String) (isStatic : Bool) : Option (Bool × Member) :=
  if isStatic then (e.statics.find? name).map (true, ·)
  else match e.instances.find? name with
    | some m => some (false, m)
    | none => (e.statics.find? name).map (true, ·)

def has (e : TypeMembers) (name : String) (isStatic : Bool) : Bool := (e.find? name isStatic).isSome

end TypeMembers

end Interop
