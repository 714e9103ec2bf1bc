import Interop.Member.Basic
import Interop.Text.Case

/-!
# Properties from accessor methods

Methods named `getX`, `isX` and `setX` make a property `x`, unless the table has a member of that name. A getter takes
no arguments and gives something, for `is` a boolean; a `get` accessor wins over an `is` accessor. A setter takes one
argument. A single setter is used as it is; of several, the one for the type of the getter; otherwise all of them are
kept and the choice is made when the property is written.
-/

namespace Interop

/--
The property named by what follows the prefix of an accessor: the first letter in lower case, unless the second one
is in upper case too. Nothing follows: no property.
-/
def propertyName (rest : List Char) : Option (List Char) :=
  match rest with
  | [] => none
  | first :: more =>
    if !Text.isUppercase first then some rest
    else match more with
      | second :: _ => if Text.isUppercase second then some rest else some (Text.lowercase first ++ more)
      | [] => some (Text.lowercase first)

inductive AccessorKind where
  | get
  | is
  | set
  deriving DecidableEq, Repr

/-- The kind of accessor that a method name announces, and what follows the announcement. -/
def accessorKind? (name : List Char) : Option (AccessorKind × List Char) :=
  match name with
  | 'g' :: 'e' :: 't' :: rest => some (.get, rest)
  | 'i' :: 's' :: rest => some (.is, rest)
  | 's' :: 'e' :: 't' :: rest => some (.set, rest)
  | _ => none

/-- An accessor method that is found: its kind, the name that a table has it under, and its overloads. -/
structure AccessorMethod where
  kind : AccessorKind
  name : String
  set : OverloadSet

/-- The accessors found for one property. -/
structure AccessorGroup where
  getter : Option Callable := none
  setters : List Callable := []
  /-- The name that the table has the setter methods found last under. -/
  setterName : Option String := none

namespace AccessorGroup

/-- Takes in the overloads of one accessor method. -/
def add (a : AccessorGroup) (m : AccessorMethod) : AccessorGroup :=
  match m.kind with
  | .get =>
    match m.set.candidates.find? fun c => c.arity == 0 && !c.returnType.isVoid with
    | some getter => { a with getter := some getter }
    | none => a
  | .is =>
    if a.getter.isSome then a
    else
      { a with
        getter := m.set.candidates.find? fun c =>
          c.arity == 0 && c.returnType.primitiveKind? == some .boolean }
  | .set =>
    { a with
      setters := a.setters ++ m.set.candidates.filter (·.arity == 1)
      setterName := some m.name }

/-- Whether a setter takes the type that the getter gives. -/
def matchesGetter (getter setter : Callable) : Bool :=
  setter.params.head?.any (· == getter.returnType)

/-- The property made of the accessors, if there are any. -/
def toProperty? (a : AccessorGroup) (name : String) : Option Property :=
  match a.getter, a.setters with
  | none, [] => none
  | getter, [] => some ⟨name, getter, none, none⟩
  | getter, [only] => some ⟨name, getter, some only, none⟩
  | getter, several =>
    match getter.bind fun g => several.find? (matchesGetter g) with
    | some setter => some ⟨name, getter, some setter, none⟩
    | none => some ⟨name, getter, none, some ⟨a.setterName.getD "set", several⟩⟩

end AccessorGroup

namespace MemberTable

/-- The property that a row is an accessor of, if the table leaves its name free. -/
def accessorOf? (t : MemberTable) (row : String × Member) : Option (String × AccessorMethod) :=
  match row.2 with
  | .methods set => do
    let (kind, rest) ← accessorKind? row.1.toList
    let property ← propertyName rest
    let name := String.ofList property
    if t.contains name then none else some (name, ⟨kind, row.1, set⟩)
  | _ => none

/-- Takes an accessor into the accessors of its property, a new property last. -/
def collectAccessor (found : List (String × AccessorGroup)) (name : String) (m : AccessorMethod) :
    List (String × AccessorGroup) :=
  match found with
  | [] => [(name, ({} : AccessorGroup).add m)]
  | (n, a) :: rest =>
    if n = name then (n, a.add m) :: rest else (n, a) :: collectAccessor rest name m

/-- The accessors of every property, in the order in which the properties are met. -/
def accessors (t : MemberTable) : List (String × AccessorGroup) :=
  (t.rows.filterMap t.accessorOf?).foldl (fun found (name, m) => collectAccessor found name m) []

/-- The properties that the accessor methods of a table make. -/
def properties (t : MemberTable) : List Property :=
  t.accessors.filterMap fun (name, a) => a.toProperty? name

/-- The table with the properties of its accessor methods added. -/
def withProperties (t : MemberTable) : MemberTable :=
  t.properties.foldl (fun t p => t.insert p.name (.property p)) t

end MemberTable

end Interop
