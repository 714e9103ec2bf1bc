import Interop.Kind
import Interop.Number.Double

/-!
# Type descriptors

A descriptor says what native type a value is wanted as, or was obtained as. Named types come in three forms:
plain (classes and primitives), enum and interface. Generic code adds arrays, parameterized types and type
variables with a bound. The remaining forms are written by script code only: literal types, unions, object shapes
and function shapes. `unspecified` asks for no conversion at all.

Erasure forgets type arguments and replaces a variable by the erasure of its bound; the id of a descriptor is the id
of its erasure. Descriptors are compared by structure. An interface has one identity whatever is said about its
functional flag, and number literals are compared as values, so `Descriptor.same` is coarser than equality.
-/

namespace Interop

/-- A type variable: the type that declares it, and its name there. -/
structure TypeVar where
  site : TypeId
  name : String
  deriving DecidableEq, Repr, Inhabited

inductive Descriptor where
  /-- No conversion is requested. -/
  | unspecified
  | plain (name : String)
  | array (component : Descriptor)
  | parameterized (raw : Descriptor) (args : List Descriptor)
  | enumeration (name : String)
  | interface (name : String) (functional : Bool)
  | typeVar (var : TypeVar) (bound : Descriptor)
  | stringLiteral (value : String)
  | numberLiteral (value : Double)
  | booleanLiteral (value : Bool)
  | union (members : List Descriptor)
  | objectShape (fields : List (String × Descriptor))
  | functionShape (params : List Descriptor) (result : Descriptor)
  deriving Repr, Inhabited

namespace Descriptor

/-! ## Equality -/

mutual

/-- Structural equality; functional flags are ignored and number literals are compared as values. -/
def same : Descriptor → Descriptor → Bool
  | unspecified, unspecified => true
  | plain a, plain b => a == b
  | array a, array b => same a b
  | parameterized r as, parameterized s bs => same r s && sameAll as bs
  | enumeration a, enumeration b => a == b
  | interface a _, interface b _ => a == b
  | typeVar v a, typeVar w b => v == w && same a b
  | stringLiteral a, stringLiteral b => a == b
  | numberLiteral a, numberLiteral b => a.equivalent b
  | booleanLiteral a, booleanLiteral b => a == b
  | union as, union bs => sameAll as bs
  | objectShape as, objectShape bs => sameFields as bs
  | functionShape as a, functionShape bs b => sameAll as bs && same a b
  | _, _ => false

def sameAll : List Descriptor → List Descriptor → Bool
  | [], [] => true
  | a :: as, b :: bs => same a b && sameAll as bs
  | _, _ => false

def sameFields : List (String × Descriptor) → List (String × Descriptor) → Bool
  | [], [] => true
  | (m, a) :: as, (n, b) :: bs => m == n && same a b && sameFields as bs
  | _, _ => false

end

instance : BEq Descriptor := ⟨same⟩

/-! ## Names and ids -/

/-- The name of a plain, enum or interface type. -/
def name? : Descriptor → Option String
  | plain n => some n
  | enumeration n => some n
  | interface n _ => some n
  | _ => none

/-- The id of the erased type, if the descriptor denotes a native type. -/
def typeId? : Descriptor → Option TypeId
  | plain n => some (.ofName n)
  | enumeration n => some (.ofName n)
  | interface n _ => some (.ofName n)
  | array c => c.typeId?.map .ofArray
  | parameterized raw _ => raw.typeId?
  | typeVar _ bound => bound.typeId?
  | _ => none

/-- Erasure: no type arguments, and bounds in place of variables. -/
def erase : Descriptor → Descriptor
  | array c => array c.erase
  | parameterized raw _ => raw.erase
  | typeVar _ bound => bound.erase
  | d => d

/-! ## Parts and kinds -/

def component? : Descriptor → Option Descriptor
  | array c => some c
  | _ => none

/-- The type argument at a position; `unspecified` when there is none. -/
def argument (i : Nat) : Descriptor → Descriptor
  | parameterized _ args => args.getD i unspecified
  | _ => unspecified

def isUnspecified : Descriptor → Bool
  | unspecified => true
  | _ => false

def isVariable : Descriptor → Bool
  | typeVar _ _ => true
  | _ => false

def isArray : Descriptor → Bool
  | array _ => true
  | _ => false

def isEnum (d : Descriptor) : Bool :=
  match d.erase with
  | enumeration _ => true
  | _ => false

def isInterface (d : Descriptor) : Bool :=
  match d.erase with
  | interface _ _ => true
  | _ => false

def isFunctional (d : Descriptor) : Bool :=
  match d.erase with
  | interface _ functional => functional
  | _ => false

/-- The primitive type that a plain descriptor names. -/
def primitiveKind? : Descriptor → Option PrimitiveKind
  | plain n => PrimitiveKind.ofTypeId? (.ofName n)
  | _ => none

def numericKind? (d : Descriptor) : Option NumericKind :=
  match d.primitiveKind? with
  | some (.numeric kind) => some kind
  | _ => none

def isPrimitive (d : Descriptor) : Bool := d.primitiveKind?.isSome

def isVoid (d : Descriptor) : Bool := d.primitiveKind? == some .void

/-- Primitive types and the string type. -/
def isSimple (d : Descriptor) : Bool := d.isPrimitive || d.typeId? == some Standard.string

/-- Numeric primitives and the boxed number type. -/
def isNumeric (d : Descriptor) : Bool :=
  d.numericKind?.isSome || (d.name?.isSome && d.typeId? == some Standard.number)

mutual

/-- Whether a variable occurs outside bounds and outside the raw slot of parameterized types. -/
def mentionsVariables : Descriptor → Bool
  | typeVar _ _ => true
  | array c => c.mentionsVariables
  | parameterized _ args => anyMentionsVariables args
  | union members => anyMentionsVariables members
  | objectShape fields => fieldsMentionVariables fields
  | functionShape params result => anyMentionsVariables params || result.mentionsVariables
  | _ => false

def anyMentionsVariables : List Descriptor → Bool
  | [] => false
  | d :: ds => d.mentionsVariables || anyMentionsVariables ds

def fieldsMentionVariables : List (String × Descriptor) → Bool
  | [] => false
  | (_, d) :: fields => d.mentionsVariables || fieldsMentionVariables fields

end

/-! ## Standard types -/

def object : Descriptor := plain Standard.objectName
def string : Descriptor := plain Standard.stringName
def void : Descriptor := plain "void"
def boolean : Descriptor := plain "boolean"
def numeric (kind : NumericKind) : Descriptor := plain kind.name

end Descriptor

end Interop
