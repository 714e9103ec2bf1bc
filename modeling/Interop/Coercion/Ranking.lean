import Interop.Coercion.Rank
import Interop.Coercion.Target

/-!
# Ranks of conversions

`rankOf` ranks the conversion of a script value to a descriptor. It looks at what kind of value it is, and for a
wrapped native value at its class and at the element types of a container, never at content. A union takes the best
rank of its members.

Whether a function or object can implement an interface depends on the abstract methods of the interface, which are
looked up; that is the only effect of ranking.
-/

namespace Interop

/-! ## Ranks by kind of value -/

def rankBoolean : Target → Rank
  | .boolean => .exact
  | .booleanLiteral _ => .exact
  | .object => .converted 3
  | .string => .converted 4
  | _ => .none

def rankNumber : Target → Rank
  | .numeric .double => .exact
  | .numberLiteral _ => .exact
  | .numeric kind => .converted (1 + kind.narrowness)
  | .number => .converted 2
  | .enumeration _ => .converted 3
  | .string => .converted 9
  | .object => .converted 10
  | _ => .none

def rankString : Target → Rank
  | .string => .exact
  | .stringLiteral _ => .exact
  | .charSequence => .converted 2
  | .object => .converted 2
  | .enumeration _ => .converted 2
  | .numeric .char => .converted 3
  | .numeric _ => .converted 4
  | _ => .none

def rankClass : Target → Rank
  | .classRef => .exact
  | .object => .converted 3
  | .string => .converted 4
  | _ => .none

/-- A wrapped native value that is no class. -/
def Store.rankWrapped (s : Store) (v : Native) (isArray : Bool) (target : Target) : Rank :=
  if s.conforms v target then .nontrivial
  else match target with
    | .string => .converted 2
    | .numeric kind => if isArray then .none else .converted (2 + kind.narrowness)
    | .collection raw _ =>
      match s.list? v with
      | some l => if s.types.isSubtype l.kind.typeId raw then .converted 3 else .none
      | none => .none
    | _ => .none

/-! ## Interfaces that script values can implement -/

/-- The names under which an entry has abstract methods. -/
def TypeMembers.abstractNames (e : TypeMembers) : List String :=
  (e.instances.rows.filter fun (_, m) =>
    match m.overloads? with
    | some set => set.candidates.any Callable.isAbstract
    | none => false).map (·.1)

/-- A function implements an interface whose abstract methods share one name, an object one with abstract methods. -/
def canImplement (interface : Descriptor) (isFunction : Bool) : Eval Bool := do
  match interface.typeId? with
  | none => pure false
  | some id =>
    match ← Eval.attempt (Eval.membersOf id none false) with
    | .error _ => pure false
    | .ok members =>
      let names := members.entry.abstractNames
      pure (if isFunction then names.length == 1 else !names.isEmpty)

/-- The rank of script objects, arrays and functions where no interface is involved. -/
def rankGeneric : Target → Rank
  | .object => .converted 3
  | .string => .converted 4
  | .number => .converted 4
  | .numeric kind => .converted (4 + kind.narrowness)
  | _ => .none

def rankScript (kind : ValueKind) (target : Target) : Eval Rank :=
  match kind, target with
  | .scriptArray, .array _ => pure (.converted 2)
  | .scriptArray, .collection _ _ => pure (.converted 2)
  | .scriptObject, .map _ _ => pure (.converted 2)
  | .scriptObject, .objectShape _ => pure (.converted 2)
  | .scriptCallable, .functionShape => pure .exact
  | .scriptCallable, .interface d => do
    pure (if ← canImplement d true then .exact else .none)
  | .scriptObject, .interface d => do
    pure (if ← canImplement d false then .exact else .none)
  | _, _ => pure (rankGeneric target)

/-! ## All values -/

/-- The rank of a value against a target that is no union. -/
def rankTarget (v : Script) (target : Target) : Eval Rank := do
  let s ← get
  match target with
  | .any => pure .exact
  | _ =>
    match s.kindOf v with
    | .undefined =>
      match target with
      | .string => pure .exact
      | .object => pure .exact
      | _ => pure .none
    | .null => pure (if target.takesNull then .exact else .none)
    | .boolean => pure (rankBoolean target)
    | .number => pure (rankNumber target)
    | .string => pure (rankString target)
    | .nativeClass => pure (rankClass target)
    | .nativeObject => pure (((s.unwrap? v).map fun n => s.rankWrapped n false target).getD .none)
    | .nativeArray => pure (((s.unwrap? v).map fun n => s.rankWrapped n true target).getD .none)
    | kind => rankScript kind target

mutual

/-- The rank of the conversion of a value to a type. -/
def rankOf (v : Script) : Descriptor → Eval Rank
  | .union members => bestRank v members
  | d => do
    let target ← Eval.ofResult ((← get).types.targetOf d)
    rankTarget v target

/-- The best rank among the members of a union. -/
def bestRank (v : Script) : List Descriptor → Eval Rank
  | [] => pure .none
  | d :: ds => do
    let first ← rankOf v d
    let others ← bestRank v ds
    pure (first.best others)

end

/-- Whether a value wraps an instance of a type. -/
def isInstance (v : Script) (d : Descriptor) : Eval Bool := do pure ((← rankOf v d) == .nontrivial)

end Interop
