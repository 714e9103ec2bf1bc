import Interop.TypeId.Basic

/-!
# Kinds of native types

The primitive types and the standard named types that conversion treats specially, with their ids, and the direct
supertypes assumed for standard types that a host does not describe.
-/

namespace Interop

/-- Numeric primitives, the widest first. -/
inductive NumericKind where
  | double
  | float
  | long
  | int
  | short
  | char
  | byte
  deriving DecidableEq, Repr, Inhabited

namespace NumericKind

/-- All kinds, the widest first. -/
def all : List NumericKind := [double, float, long, int, short, char, byte]

/-- One for the widest kind up to seven for the narrowest. -/
def narrowness : NumericKind → Nat
  | double => 1
  | float => 2
  | long => 3
  | int => 4
  | short => 5
  | char => 6
  | byte => 7

def name : NumericKind → String
  | double => "double"
  | float => "float"
  | long => "long"
  | int => "int"
  | short => "short"
  | char => "char"
  | byte => "byte"

/-- The least and the greatest value of a kind that holds whole numbers. -/
def range? : NumericKind → Option (Int × Int)
  | double => none
  | float => none
  | long => some (-0x8000000000000000, 0x7fffffffffffffff)
  | int => some (-0x80000000, 0x7fffffff)
  | short => some (-0x8000, 0x7fff)
  | char => some (0, 0xffff)
  | byte => some (-0x80, 0x7f)

def isIntegral (k : NumericKind) : Bool := k.range?.isSome

def typeId (k : NumericKind) : TypeId := TypeId.ofName k.name

end NumericKind

/-- Primitive native types. -/
inductive PrimitiveKind where
  | void
  | boolean
  | numeric (kind : NumericKind)
  deriving DecidableEq, Repr

namespace PrimitiveKind

/-- All primitive types. -/
def all : List PrimitiveKind := void :: boolean :: NumericKind.all.map numeric

def name : PrimitiveKind → String
  | void => "void"
  | boolean => "boolean"
  | numeric kind => kind.name

def typeId (k : PrimitiveKind) : TypeId := TypeId.ofName k.name

/-- The ids of the primitive types, each beside its kind. -/
def byId : List (TypeId × PrimitiveKind) := all.map fun k => (k.typeId, k)

/-- The primitive type with an id. -/
def ofTypeId? (id : TypeId) : Option PrimitiveKind := byId.lookup id

end PrimitiveKind

/-- Lists keep duplicates, sets do not. -/
inductive CollectionKind where
  | list
  | set
  deriving DecidableEq, Repr, Inhabited

/-! ## Names and ids of the standard types -/

namespace Standard

def objectName : String := "host.Object"
def stringName : String := "host.String"
def numberName : String := "host.Number"
def charSequenceName : String := "host.CharSequence"
def className : String := "host.Class"
def collectionName : String := "host.Collection"
def listName : String := "host.List"
def setName : String := "host.Set"
def mapName : String := "host.Map"

def object : TypeId := TypeId.ofName objectName
def string : TypeId := TypeId.ofName stringName
def number : TypeId := TypeId.ofName numberName
def charSequence : TypeId := TypeId.ofName charSequenceName
def class_ : TypeId := TypeId.ofName className
def collection : TypeId := TypeId.ofName collectionName
def list : TypeId := TypeId.ofName listName
def set : TypeId := TypeId.ofName setName
def map : TypeId := TypeId.ofName mapName

def boolean : TypeId := PrimitiveKind.typeId .boolean
def double : TypeId := NumericKind.typeId .double

/-! Script values have no native class of their own; these ids stand for one where a class is asked for. -/

def scriptUndefined : TypeId := TypeId.ofName "script.undefined"
def scriptObject : TypeId := TypeId.ofName "script.Object"
def scriptArray : TypeId := TypeId.ofName "script.Array"
def scriptFunction : TypeId := TypeId.ofName "script.Function"
def scriptBoxed : TypeId := TypeId.ofName "script.Boxed"
def scriptHandle : TypeId := TypeId.ofName "script.Handle"

end Standard

namespace TypeId

def isPrimitive (id : TypeId) : Bool := (PrimitiveKind.ofTypeId? id).isSome

/-- Primitive types and the string type: their members mention no type variables. -/
def isSimple (id : TypeId) : Bool := id == Standard.string || id.isPrimitive

/-- The direct supertypes of a type that the host does not describe. -/
def assumedSupertypes (id : TypeId) : List TypeId :=
  if id = Standard.list ∨ id = Standard.set then [Standard.collection]
  else if id = Standard.string then [Standard.charSequence]
  else if id = Standard.object ∨ id.isPrimitive then []
  else [Standard.object]

end TypeId

def CollectionKind.typeId : CollectionKind → TypeId
  | list => Standard.list
  | set => Standard.set

end Interop
