import Interop.TypeTable.Basic

/-!
# The standard types

The types that a host describes in the same way everywhere: the root type, strings and numbers, classes, collections
and maps, with members that work on the native values of this library.
-/

namespace Interop.StandardType

/-- A public method of a standard type. -/
def method (owner name : String) (params : List Descriptor) (returnType : Descriptor) (code : StandardCode) :
    MethodDecl :=
  { name := name
    declaring := .ofName owner
    params := params
    returnType := returnType
    flags := { isPublic := true }
    invoker := some (.standard code) }

/-- A standard type without members, supertypes or type parameters. -/
def bare (name : String) (kind : TypeKind) : TypeDecl :=
  { name := name
    kind := kind
    flags := { isPublic := true }
    typeParams := []
    superclass := none
    interfaces := []
    constants := []
    functional := false
    methods := []
    fields := []
    constructors := []
    denied := false }

/-- The type parameter of a name that a type declares. -/
def param (owner name : String) : TypeVar := ⟨.ofName owner, name⟩

/-- A type parameter as a type; its bound is the root type. -/
def var (owner name : String) : Descriptor := .typeVar (param owner name) .object

def int : Descriptor := .numeric .int

def object : TypeDecl :=
  { bare Standard.objectName .ofClass with
    methods :=
      [method Standard.objectName "toString" [] .string .objectText,
       method Standard.objectName "equals" [.object] .boolean .objectEquals]
    constructors :=
      [{ declaring := Standard.object, params := [], flags := { isPublic := true },
         invoker := some (.standard .objectNew) }] }

def charSequence : TypeDecl :=
  { bare Standard.charSequenceName .ofInterface with
    methods :=
      [{ name := "length", declaring := Standard.charSequence, params := [], returnType := int,
         flags := { isPublic := true, isAbstract := true }, invoker := some (.virtual "length") }] }

def string : TypeDecl :=
  { bare Standard.stringName .ofClass with
    flags := { isPublic := true, isFinal := true }
    interfaces := [charSequence.descriptor]
    methods :=
      [method Standard.stringName "length" [] int .stringLength,
       method Standard.stringName "isEmpty" [] .boolean .stringIsEmpty] }

def number : TypeDecl :=
  { bare Standard.numberName .ofClass with
    flags := { isPublic := true, isAbstract := true }
    methods :=
      [method Standard.numberName "doubleValue" [] (.numeric .double) .numberDouble,
       method Standard.numberName "intValue" [] int .numberInt] }

def classRef : TypeDecl :=
  { bare Standard.className .ofClass with
    flags := { isPublic := true, isFinal := true }
    methods := [method Standard.className "getName" [] .string .className] }

def collection : TypeDecl :=
  { bare Standard.collectionName .ofInterface with
    typeParams := [param Standard.collectionName "E"]
    methods :=
      [method Standard.collectionName "size" [] int .collectionSize,
       method Standard.collectionName "isEmpty" [] .boolean .collectionIsEmpty,
       method Standard.collectionName "contains" [.object] .boolean .collectionContains,
       method Standard.collectionName "add" [var Standard.collectionName "E"] .boolean .collectionAdd] }

def list : TypeDecl :=
  { bare Standard.listName .ofInterface with
    typeParams := [param Standard.listName "E"]
    interfaces := [.parameterized collection.descriptor [var Standard.listName "E"]]
    methods :=
      [method Standard.listName "get" [int] (var Standard.listName "E") .listGet,
       method Standard.listName "set" [int, var Standard.listName "E"] (var Standard.listName "E") .listSet] }

def set : TypeDecl :=
  { bare Standard.setName .ofInterface with
    typeParams := [param Standard.setName "E"]
    interfaces := [.parameterized collection.descriptor [var Standard.setName "E"]] }

def map : TypeDecl :=
  { bare Standard.mapName .ofInterface with
    typeParams := [param Standard.mapName "K", param Standard.mapName "V"]
    methods :=
      [method Standard.mapName "size" [] int .mapSize,
       method Standard.mapName "get" [.object] (var Standard.mapName "V") .mapGet,
       method Standard.mapName "put" [var Standard.mapName "K", var Standard.mapName "V"]
         (var Standard.mapName "V") .mapPut,
       method Standard.mapName "containsKey" [.object] .boolean .mapContainsKey] }

/-- All standard types. -/
def table : TypeTable :=
  [object, charSequence, string, number, classRef, collection, list, set, map].foldl TypeTable.insert .empty

end Interop.StandardType
