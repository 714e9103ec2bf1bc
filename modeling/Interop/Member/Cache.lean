import Interop.Generics.Inherited
import Interop.Member.Inheritance

/-!
# Collected members, kept

Members are collected once for each type and visibility, and kept until they are forgotten on request. When the host
refuses to list the members of a type, or of one of its supertypes, the declared type is tried if that is an
interface, and then the superclasses one after the other up to the root type; what is found is kept under the type
asked for. Signatures are always resolved by the bindings of the type asked for.

An entry is numbered when it is published, which tells it apart from every other entry.
-/

namespace Interop

/-- A published entry. -/
structure Membership where
  serial : Nat
  entry : TypeMembers
  deriving Repr

/-- Says which overload set a memo belongs to. -/
inductive SetKey where
  /-- The set under a name in a table of a published entry. -/
  | member (serial : Nat) (isStatic : Bool) (name : String)
  | constructors (serial : Nat)
  /-- A set that belongs to no entry. -/
  | standalone (serial : Nat)
  deriving DecidableEq, Repr

/-- An overload set together with the key of its memo. -/
structure Overloads where
  set : OverloadSet
  key : SetKey
  deriving Repr

namespace Membership

/-- The overloads of a name, those behind a field included. -/
def overloads? (m : Membership) (name : String) (isStatic : Bool) : Option Overloads :=
  (m.entry.find? name isStatic).bind fun (inStatics, found) =>
    found.overloads?.map fun set => ⟨set, .member m.serial inStatics name⟩

def constructors? (m : Membership) : Option Overloads :=
  m.entry.constructors.map fun set => ⟨set, .constructors m.serial⟩

end Membership

structure MemberCache where
  bindings : BindingsCache := []
  entries : List ((TypeId × Bool) × Membership) := []
  /-- The number of the next entry. -/
  next : Nat := 0
  deriving Repr

namespace TypeTable

/-- The type to try after a refusal: the superclass, the root type where there is none, and nothing past the root. -/
def nextAfterRefusal (t : TypeTable) (id : TypeId) : Option TypeId :=
  if id = Standard.object then none
  else some ((((t.find? id).bind (·.superclass)).bind (·.typeId?)).getD Standard.object)

/--
Tries one type after the other until the host lists the members of one. Only described types can refuse, so more
refusals than there are described types mean that the types repeat and the search has no end.
-/
def collectAbove (t : TypeTable) (b : Bindings) (includeNonPublic : Bool) (refused : String) :
    Nat → Option TypeId → Except Stop TypeMembers
  | 0, _ => .error .diverged
  | _ + 1, none => .error (.failed (.accessDenied refused))
  | n + 1, some id =>
    match t.collectMembers id b includeNonPublic with
    | .error (.failed (.accessDenied _)) => t.collectAbove b includeNonPublic refused n (t.nextAfterRefusal id)
    | result => result

/-- Where the search after a refusal starts: at the declared type if that is an interface. -/
def firstAfterRefusal (t : TypeTable) (id : TypeId) (declared : Option TypeId) : Option TypeId :=
  match declared.filter fun d => (t.find? d).any (·.isInterface) with
  | some interfaceId => some interfaceId
  | none => t.nextAfterRefusal id

/-- The members of a type, or of the first type above it whose members the host lists. -/
def collectOrAbove (t : TypeTable) (b : Bindings) (includeNonPublic : Bool) (declared : Option TypeId) (id : TypeId) :
    Except Stop TypeMembers :=
  match t.collectMembers id b includeNonPublic with
  | .error (.failed (.accessDenied refused)) =>
    t.collectAbove b includeNonPublic refused (t.entries.length + 2) (t.firstAfterRefusal id declared)
  | result => result

end TypeTable

namespace MemberCache

def find? (r : MemberCache) (id : TypeId) (includeNonPublic : Bool) : Option Membership :=
  r.entries.lookup (id, includeNonPublic)

/-- Publishes an entry under a key. -/
def publish (r : MemberCache) (id : TypeId) (includeNonPublic : Bool) (entry : TypeMembers) :
    Membership × MemberCache :=
  let published : Membership := ⟨r.next, entry⟩
  (published,
    { r with entries := r.entries ++ [((id, includeNonPublic), published)], next := r.next + 1 })

/-- The members of a type. The declared type matters only after a refusal. -/
def lookup (r : MemberCache) (t : TypeTable) (id : TypeId) (declared : Option TypeId) (includeNonPublic : Bool) :
    Except Stop Membership × MemberCache :=
  match r.find? id includeNonPublic with
  | some known => (.ok known, r)
  | none =>
    let (b, bindings) := t.inheritedBindings r.bindings id
    let r := { r with bindings := bindings }
    match t.collectOrAbove b includeNonPublic declared id with
    | .ok entry =>
      let (published, r) := r.publish id includeNonPublic entry
      (.ok published, r)
    | .error stop => (.error stop, r)

/-- The bindings of a type. -/
def bindingsOf (r : MemberCache) (t : TypeTable) (id : TypeId) : Bindings × MemberCache :=
  let (b, bindings) := t.inheritedBindings r.bindings id
  (b, { r with bindings := bindings })

/-- Forgets the entries and the bindings of a type. -/
def forget (r : MemberCache) (id : TypeId) : MemberCache :=
  { r with
    entries := r.entries.filter fun ((i, _), _) => i ≠ id
    bindings := r.bindings.filter fun (i, _) => i ≠ id }

end MemberCache

end Interop
