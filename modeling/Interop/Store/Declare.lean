import Interop.Store.Basic
import Interop.TypeTable.Standard

/-!
# Declaring types

A type is declared by its shape and the code of its members; the store then gives static fields their cells. An
abstract method without code hands calls to its receiver. An enum is final; its constants are objects in static final
fields, and it has methods for the name and the ordinal of a constant.
-/

namespace Interop

structure MethodSpec where
  name : String
  params : List Descriptor := []
  returnType : Descriptor := .void
  flags : Flags := {}
  code : Option HostCode := none
  accessible : Bool := true

structure FieldSpec where
  name : String
  type : Descriptor
  flags : Flags := {}
  initial : Option Native := none
  broken : Bool := false
  accessible : Bool := true

structure ConstructorSpec where
  params : List Descriptor := []
  flags : Flags := {}
  code : Option HostCode := none

structure TypeSpec where
  name : String
  kind : TypeKind
  functional : Bool := false
  flags : Flags := {}
  typeParams : List String := []
  superclass : Option Descriptor := none
  interfaces : List Descriptor := []
  constants : List String := []
  methods : List MethodSpec := []
  fields : List FieldSpec := []
  constructors : List ConstructorSpec := []
  denied : Bool := false

/-- Members are public unless they are declared protected. -/
def Flags.ofMember (declared : Flags) : Flags :=
  (if declared.isProtected then { isProtected := true } else { isPublic := true } : Flags).union declared

def MethodSpec.declare (m : MethodSpec) (declaring : TypeId) : MethodDecl :=
  let flags := m.flags.ofMember
  let invoker :=
    match m.code with
    | some code => .host m.name code
    | none => if flags.isAbstract then .virtual m.name else .missing m.name
  { name := m.name
    declaring := declaring
    params := m.params
    returnType := m.returnType
    flags := flags
    invoker := if m.accessible then some invoker else none }

def ConstructorSpec.declare (c : ConstructorSpec) (declaring : TypeId) : ConstructorDecl :=
  { declaring := declaring
    params := c.params
    flags := ({ isPublic := true } : Flags).union c.flags
    invoker := c.code.map (.host "<init>") }

namespace Store

/-- Declares a field; a static field gets a cell. -/
def declareField (s : Store) (declaring : TypeId) (f : FieldSpec) : FieldDecl × Store :=
  let flags := f.flags.ofMember
  let initial := f.initial.getD (.initialFor f.type)
  let declared (storage : Option Storage) : FieldDecl :=
    { name := f.name, declaring := declaring, type := f.type, flags := flags, storage := storage }
  if !f.accessible then (declared none, s)
  else if f.broken then (declared (some (.broken f.name)), s)
  else if flags.isStatic then
    let (cell, s) := s.addCell initial
    (declared (some (.cell cell)), s)
  else (declared (some (.slot f.name initial)), s)

def declareFields (s : Store) (declaring : TypeId) : List FieldSpec → List FieldDecl × Store
  | [] => ([], s)
  | f :: rest =>
    let (field, s) := s.declareField declaring f
    let (fields, s) := s.declareFields declaring rest
    (field :: fields, s)

/-- The static final fields of enum constants; `ordinal` is that of the first one. -/
def constantFields (s : Store) (enumName : String) (type : Descriptor) : Nat → List String → List FieldSpec × Store
  | _, [] => ([], s)
  | ordinal, name :: rest =>
    let (r, s) := s.addNative (.constant enumName ordinal name)
    let (fields, s) := s.constantFields enumName type (ordinal + 1) rest
    ({ name := name, type := type, flags := { isStatic := true, isFinal := true },
       initial := some (.object r) } :: fields, s)

/-- The methods that every enum has. -/
def enumMethods (enumName : String) : List MethodDecl :=
  [StandardType.method enumName "name" [] .string .enumName,
   StandardType.method enumName "ordinal" [] (.numeric .int) .enumOrdinal]

/-- Declares a type, in the place of an earlier one of its name. -/
def declare (s : Store) (d : TypeSpec) : Store :=
  let id := TypeId.ofName d.name
  let isEnum := d.kind == .ofEnum
  let base : Flags := { isPublic := true, isFinal := isEnum }
  let shape : TypeDecl :=
    { StandardType.bare d.name d.kind with
      flags := base.union d.flags
      typeParams := d.typeParams.map fun name => ⟨id, name⟩
      superclass := d.superclass
      interfaces := d.interfaces
      constants := if isEnum then d.constants else []
      functional := d.functional
      denied := d.denied }
  let (constants, s) := s.constantFields d.name shape.descriptor 0 shape.constants
  let (fields, s) := s.declareFields id (d.fields ++ constants)
  let decl : TypeDecl :=
    { shape with
      methods := d.methods.map (·.declare id) ++ (if isEnum then enumMethods d.name else [])
      fields := fields
      constructors := d.constructors.map (·.declare id) }
  { s with types := s.types.insert decl }

/-- A store over the standard types. -/
def standard (config : Config) (wrapPrimitives : Bool) : Store :=
  { types := StandardType.table, config := config, wrapPrimitives := wrapPrimitives }

/-- A store over no types. -/
def bare (config : Config) (wrapPrimitives : Bool) : Store :=
  { config := config, wrapPrimitives := wrapPrimitives }

end Store

/-- A set of overloads that belongs to no type, from public methods of any types; those without code are left out. -/
def Eval.newOverloads (name : String) (methods : List (TypeId × MethodSpec)) : Eval Overloads := do
  let decls := methods.map fun (declaring, m) =>
    { name := name
      declaring := declaring
      params := m.params
      returnType := m.returnType
      flags := ({ isPublic := true } : Flags).union m.flags
      invoker := m.code.map (.host name) : MethodDecl }
  let candidates ← ofResult (decls.mapM (Callable.ofMethod? .empty))
  let s ← get
  set { s with nextSet := s.nextSet + 1 }
  pure ⟨⟨name, candidates.filterMap id⟩, .standalone s.nextSet⟩

end Interop
