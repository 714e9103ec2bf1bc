import Interop.Descriptor.Substitution
import Interop.Failure
import Interop.Member.Code
import Interop.Member.Flags

/-!
# Type tables

What a host says about its native types: kind, generic supertypes, type parameters, enum constants, and the members
that each type declares itself. A member for which the host has no handle is declared without one. A host may
refuse to list the members of a type.
-/

namespace Interop

structure MethodDecl where
  name : String
  declaring : TypeId
  params : List Descriptor
  returnType : Descriptor
  flags : Flags
  /-- Absent when the host has no handle. -/
  invoker : Option Invoker
  deriving Repr

structure FieldDecl where
  name : String
  declaring : TypeId
  type : Descriptor
  flags : Flags
  /-- Absent when the host has no handle. -/
  storage : Option Storage
  deriving Repr

structure ConstructorDecl where
  declaring : TypeId
  params : List Descriptor
  flags : Flags
  /-- Absent when the host has no handle. -/
  invoker : Option Invoker
  deriving Repr

inductive TypeKind where
  | ofClass
  | ofInterface
  | ofEnum
  deriving DecidableEq, Repr

def TypeKind.name : TypeKind → String
  | ofClass => "Class"
  | ofInterface => "Interface"
  | ofEnum => "Enum"

/-- A native type as the host describes it. -/
structure TypeDecl where
  name : String
  kind : TypeKind
  flags : Flags
  typeParams : List TypeVar
  superclass : Option Descriptor
  interfaces : List Descriptor
  /-- The constants of an enum, by ordinal. -/
  constants : List String
  /-- An interface with a single abstract method. -/
  functional : Bool
  methods : List MethodDecl
  fields : List FieldDecl
  constructors : List ConstructorDecl
  /-- The host refuses to list the members. -/
  denied : Bool
  deriving Repr

namespace TypeDecl

def id (d : TypeDecl) : TypeId := .ofName d.name

def isInterface (d : TypeDecl) : Bool := d.kind == .ofInterface

def isAbstract (d : TypeDecl) : Bool := d.flags.isAbstract || d.isInterface

def descriptor (d : TypeDecl) : Descriptor :=
  match d.kind with
  | .ofEnum => .enumeration d.name
  | .ofInterface => .interface d.name d.functional
  | .ofClass => .plain d.name

/-- The generic supertypes, the superclass first and marked. -/
def supertypes (d : TypeDecl) : List (Bool × Descriptor) :=
  d.superclass.toList.map (true, ·) ++ d.interfaces.map (false, ·)

/-- The ids of the direct supertypes, the superclass first. -/
def supertypeIds (d : TypeDecl) : List TypeId := d.supertypes.filterMap (·.2.typeId?)

end TypeDecl

/-- The native types that the host describes, each under its id. -/
structure TypeTable where
  entries : List (TypeId × TypeDecl)
  deriving Repr, Inhabited

namespace TypeTable

def empty : TypeTable := ⟨[]⟩

def find? (t : TypeTable) (id : TypeId) : Option TypeDecl := t.entries.lookup id

/-- Puts a type under its id, in the place of an earlier one. -/
def insertEntry (d : TypeDecl) : List (TypeId × TypeDecl) → List (TypeId × TypeDecl)
  | [] => [(d.id, d)]
  | (id, e) :: rest => if id = d.id then (id, d) :: rest else (id, e) :: insertEntry d rest

def insert (t : TypeTable) (d : TypeDecl) : TypeTable := ⟨insertEntry d t.entries⟩

/-- The host refuses to list the members of a type from now on. -/
def deny (t : TypeTable) (id : TypeId) : TypeTable :=
  ⟨t.entries.map fun (i, d) => (i, if i = id then { d with denied := true } else d)⟩

/-- The type with an id, if the host lists its members. -/
def describe (t : TypeTable) (id : TypeId) : Except Failure TypeDecl :=
  match t.find? id with
  | none => .error (.unknownType id.text)
  | some d => if d.denied then .error (.accessDenied d.name) else .ok d

/-- How many supertype references the described types make. -/
def edgeCount (t : TypeTable) : Nat := (t.entries.flatMap fun (_, d) => d.supertypes).length

/-- The printable name of an id: of a primitive type, of a described type, or the id itself. -/
def typeName (t : TypeTable) (id : TypeId) : String :=
  match PrimitiveKind.ofTypeId? id with
  | some kind => kind.name
  | none =>
    match t.find? id with
    | some d => d.name
    | none => id.text

end TypeTable

end Interop
