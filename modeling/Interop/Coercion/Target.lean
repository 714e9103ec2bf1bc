import Interop.Store.Basic
import Interop.TypeTable.Hierarchy

/-!
# Conversion targets

A descriptor as conversion sees it. Named types are told apart by id: primitives, the standard types, and for all
others by what the host says of them. A type variable is no target; meeting one breaks a promise of whoever asked.
-/

namespace Interop

inductive Target where
  /-- No conversion is requested. -/
  | any
  | void
  | boolean
  | numeric (kind : NumericKind)
  | string
  | charSequence
  /-- The boxed number type. -/
  | number
  | classRef
  | object
  | enumeration (name : String)
  | array (component : Descriptor)
  /-- A list, set or collection; the element type is unspecified when none is given. -/
  | collection (raw : TypeId) (element : Descriptor)
  | map (key value : Descriptor)
  | interface (type : Descriptor)
  /-- Any other native type. -/
  | named (id : TypeId)
  | stringLiteral (value : String)
  | numberLiteral (value : Double)
  | booleanLiteral (value : Bool)
  | union (members : List Descriptor)
  | objectShape (fields : List (String × Descriptor))
  | functionShape
  deriving Repr

namespace Target

/-- Null becomes every type but primitives and literals. -/
def takesNull : Target → Bool
  | void => false
  | boolean => false
  | numeric _ => false
  | stringLiteral _ => false
  | numberLiteral _ => false
  | booleanLiteral _ => false
  | _ => true

end Target

namespace TypeTable

/-- The target that a named type is. -/
def namedTarget (t : TypeTable) (d : Descriptor) : Target :=
  match d.typeId? with
  | none => .object
  | some id =>
    match PrimitiveKind.ofTypeId? id with
    | some .void => .void
    | some .boolean => .boolean
    | some (.numeric kind) => .numeric kind
    | none =>
      if id = Standard.object then .object
      else if id = Standard.string then .string
      else if id = Standard.charSequence then .charSequence
      else if id = Standard.number then .number
      else if id = Standard.class_ then .classRef
      else if id = Standard.list ∨ id = Standard.set ∨ id = Standard.collection then
        .collection id (d.argument 0)
      else if id = Standard.map then .map (d.argument 0) (d.argument 1)
      else if d.isInterface then .interface d.erase
      else match t.find? id with
        | none => .named id
        | some decl =>
          match decl.kind with
          | .ofEnum => .enumeration decl.name
          | .ofInterface => .interface decl.descriptor
          | .ofClass => .named id

/-- The target that a descriptor is. -/
def targetOf (t : TypeTable) : Descriptor → Except Stop Target
  | .unspecified => .ok .any
  | .typeVar v _ => .error (.unresolvedVariable v.name)
  | .array component => .ok (.array component)
  | .enumeration name => .ok (.enumeration name)
  | .stringLiteral s => .ok (.stringLiteral s)
  | .numberLiteral x => .ok (.numberLiteral x)
  | .booleanLiteral b => .ok (.booleanLiteral b)
  | .union members => .ok (.union members)
  | .objectShape fields => .ok (.objectShape fields)
  | .functionShape _ _ => .ok .functionShape
  | d => .ok (t.namedTarget d)

end TypeTable

/-- An open element type, or the root type, takes elements of every type. -/
def elementsFit (wanted actual : Descriptor) : Bool :=
  match wanted.typeId? with
  | none => true
  | some id => id == Standard.object || actual.typeId? == some id

/--
Whether a native value already is an instance of a target. Primitives are instances of no primitive target; inline
numbers are instances of the boxed number type. Lists, sets and maps must have the element types asked for.
-/
def Store.conforms (s : Store) (v : Native) (target : Target) : Bool :=
  match s.memberTypeOf? v with
  | none => false
  | some source =>
    match target with
    | .any => true
    | .object => true
    | .string => source == Standard.string
    | .charSequence => s.types.isSubtype source Standard.charSequence
    | .number => s.types.isSubtype source Standard.number
    | .classRef => source == Standard.class_
    | .enumeration name => source == TypeId.ofName name
    | .named id => s.types.isSubtype source id
    | .interface d =>
      match d.typeId? with
      | some id => s.types.isSubtype source id
      | none => false
    | .array component =>
      match s.array? v with
      | some a => s.types.isAssignable (.array component) (.array a.component)
      | none => false
    | .collection raw element =>
      s.types.isSubtype source raw &&
        match s.list? v with
        | some l => elementsFit element l.elementType
        | none => true
    | .map key value =>
      s.types.isSubtype source Standard.map &&
        match s.map? v with
        | some m => elementsFit key m.keyType && elementsFit value m.valueType
        | none => true
    | _ => false

end Interop
