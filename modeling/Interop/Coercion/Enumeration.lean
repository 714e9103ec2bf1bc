import Interop.Call.Invoker
import Interop.Numeral.Reading

/-!
# Enum constants

A string names a constant of an enum, in any letter case, or is the text of its ordinal; a number is an ordinal. The
constant object is the one in the static final field of its name, so that a constant is one object wherever it comes
from; an enum whose fields cannot be reached gets a new one.
-/

namespace Interop

/-- The constants of an enum, by ordinal. -/
def TypeTable.constantsOf (t : TypeTable) (enumName : String) : List String :=
  ((t.find? (.ofName enumName)).map (·.constants)).getD []

/-- Equality of texts up to the case of ASCII letters. -/
def equalIgnoringCase (a b : String) : Bool := a.toList.map Char.toLower == b.toList.map Char.toLower

/-- The constants with their ordinals, as failures list them. -/
def constantList (constants : List String) : List String :=
  constants.zipIdx.map fun (name, ordinal) => name ++ "(" ++ toString ordinal ++ ")"

def illegalConstant (enumName : String) (constants : List String) (value : String) : Eval α :=
  Eval.fail (.illegalEnumValue enumName value (constantList constants))

/-- The object of a constant. -/
def constantObject (enumName : String) (ordinal : Nat) (name : String) : Eval Native := do
  let members ← Eval.attempt (Eval.membersOf (.ofName enumName) none false)
  match members with
  | .ok m =>
    match m.entry.statics.find? name with
    | some (.field f) =>
      if f.flags.isFinal then f.storage.read none
      else Eval.newNative (.constant enumName ordinal name)
    | _ => Eval.newNative (.constant enumName ordinal name)
  | .error _ => Eval.newNative (.constant enumName ordinal name)

/-- The ordinal that a number is, for an enum with so many constants. -/
def ordinal? (count : Nat) (x : Double) : Option Nat := do
  let n ← x.whole?
  if 0 ≤ n ∧ n < count then some n.toNat else none

/-- The constant with an ordinal. -/
def constantByOrdinal (enumName : String) (x : Double) : Eval Native := do
  let constants := (← get).types.constantsOf enumName
  match (ordinal? constants.length x).bind fun i => constants[i]?.map fun name => (i, name) with
  | some (i, name) => constantObject enumName i name
  | none => illegalConstant enumName constants x.scriptText

/-- The constant with a name, or with the ordinal that the text is. -/
def constantByName (enumName text : String) : Eval Native := do
  let constants := (← get).types.constantsOf enumName
  match constants.zipIdx.find? fun (name, _) => equalIgnoringCase name text with
  | some (name, i) => constantObject enumName i name
  | none =>
    let x := Numeral.scriptNumber text
    if x.whole?.isSome && !(Text.trim text.toList).isEmpty then constantByOrdinal enumName x
    else illegalConstant enumName constants (Text.quote text)

end Interop
