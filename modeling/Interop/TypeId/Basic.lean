import Interop.TypeId.Digest

/-!
# Type ids

A native type is identified by a 64-bit word computed from its qualified name, so ids need no central allocator and
one name always has one id. Ids of composite things (array types, parameterized types, member signatures, type
variables) are mixed from the ids of their parts. Mixing multiplies by an odd word and xors with a word fixed for
the position, both of which lose nothing: with all other parts fixed, different parts give different ids.
-/

namespace Interop

/-- The identity of a native type. -/
structure TypeId where
  word : UInt64
  deriving DecidableEq, Repr, Inhabited

namespace TypeId

/-! ## Mixing words -/

/-- Multiplier between the parts of a composite id. -/
def separator : UInt64 := 0x4bc94d6bd06053ad

/-- Marks ids of named types. -/
def nameMark : UInt64 := 0x2fac10b63a6cc57c

/-- Marks ids of member signatures. -/
def signatureMark : UInt64 := 0x5ea77ffbcdf5f302

/-- Marks ids of array types. -/
def arrayMark : UInt64 := 0x7d3c8b4a92e15f6d

/-- Marks ids of type variables. -/
def variableMark : UInt64 := 0x3e9f5d2a8c7b1403

/-- One word for each of the first sixteen positions, so that the order of parts matters. -/
def positionMarks : List UInt64 :=
  [0x9e3779b97f4a7c15, 0xbf58476d1ce4e5b9, 0x94d049bb133111eb, 0xd6e8feb86659fd93,
   0xe7037ed1a0b428db, 0xc6a4a7935bd1e995, 0x8648dbbc94d49b8d, 0xa2b48b2c69e0d657,
   0x7c3e9f2a5b8d1403, 0x5d8c7b4a3e9f2106, 0x3f1e9d8c7b5a4203, 0x1a2b3c4d5e6f7089,
   0x9f8e7d6c5b4a3210, 0x2468ace013579bdf, 0xfdb97531eca86420, 0x123456789abcdef0]

/-- The word of a position; past the sixteenth it is the first word moved on by the position. -/
def positionMark (i : Nat) : UInt64 :=
  (positionMarks[i]?).getD (0x9e3779b97f4a7c15 + i.toUInt64)

/-- Mixes the ids of parts into a word, the first part at position `i`. -/
def mixFrom (i : Nat) (word : UInt64) : List TypeId → UInt64
  | [] => word
  | part :: rest => mixFrom (i + 1) (word * separator + (positionMark i ^^^ part.word)) rest

/-! ## Ids of named and composite types -/

/-- The id that stands for no type. -/
def empty : TypeId := ⟨0⟩

/-- The id of the type with a qualified name. -/
def ofName (name : String) : TypeId := ⟨nameMark ^^^ Digest.ofText name⟩

/-- The id of a member signature: a name and the erased ids of its parameters. -/
def ofSignature (name : String) (params : List TypeId) : TypeId :=
  ⟨mixFrom 0 (signatureMark ^^^ Digest.ofText name) params⟩

/-- The id of the array type over a component. -/
def ofArray (component : TypeId) : TypeId := ⟨(arrayMark ^^^ component.word) * separator⟩

/-- The id of a generic type applied to arguments. -/
def ofParameterized (raw : TypeId) (args : List TypeId) : TypeId := ⟨mixFrom 0 raw.word args⟩

/-- The id of the type variable that a site declares under a name. -/
def ofVariable (site : TypeId) (name : String) : TypeId :=
  ⟨variableMark ^^^ site.word ^^^ Digest.ofText name⟩

def isEmpty (id : TypeId) : Bool := id.word == 0

/-- Sixteen lower-case hexadecimal digits after `0x`. -/
def text (id : TypeId) : String :=
  let digits := Nat.toDigits 16 id.word.toNat
  "0x" ++ String.ofList (List.replicate (16 - digits.length) '0' ++ digits)

end TypeId

end Interop
