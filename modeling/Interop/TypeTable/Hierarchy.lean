import Interop.TypeTable.Basic

/-!
# The supertype hierarchy

`ancestry` lists a type and its supertypes, the nearest first. `isSubtype` searches the same graph for one
type and stops when it is found. A table may hold cycles; both walks visit no type twice, and every type they meet is
named in the table or is one of the standard types, so the number of steps is bounded by the number of edges.

`isAssignable` compares descriptors by erasure: arrays are covariant in reference components and invariant in
primitive ones, and every array can stand for the root type.
-/

namespace Interop.TypeTable

/-- The ids of the direct supertypes, assumed ones for types the host does not describe. -/
def parents (t : TypeTable) (id : TypeId) : List TypeId :=
  match t.find? id with
  | some d => d.supertypeIds
  | none => id.assumedSupertypes

/--
Steps that suffice for a walk: it takes one step for the start and one for each edge of a type it visits. A type the
host does not describe has at most one edge, and is the start, the end of a described edge or a standard type.
-/
def walkBudget (t : TypeTable) : Nat := 2 * t.edgeCount + 5

/-- Visits the types of a queue and their supertypes, each once; `order` holds those visited so far. -/
def walk (t : TypeTable) : Nat → List TypeId → List TypeId → List TypeId
  | 0, _, order => order
  | _ + 1, [], order => order
  | n + 1, id :: queue, order =>
    if id ∈ order then t.walk n queue order
    else t.walk n (queue ++ t.parents id) (order ++ [id])

/-- A type and its supertypes, the nearest first; the root type comes last where the hierarchy leaves it out. -/
def ancestry (t : TypeTable) (root : TypeId) : List TypeId :=
  let order := t.walk t.walkBudget [root] []
  if root.isPrimitive ∨ Standard.object ∈ order then order else order ++ [Standard.object]

/-- Searches the types of a queue and their supertypes for a target; `seen` holds those visited so far. -/
def search (t : TypeTable) (target : TypeId) : Nat → List TypeId → List TypeId → Bool
  | 0, _, _ => false
  | _ + 1, [], _ => false
  | n + 1, id :: queue, seen =>
    if id = target then true
    else if id ∈ seen then t.search target n queue seen
    else t.search target n (queue ++ t.parents id) (id :: seen)

/-- Whether a value of type `sub` can stand for one of type `sup`. Primitive types are related to themselves only. -/
def isSubtype (t : TypeTable) (sub sup : TypeId) : Bool :=
  if sub = sup then true
  else if sub.isPrimitive || sup.isPrimitive then false
  else if sup = Standard.object then true
  else t.search sup t.walkBudget [sub] []

/-- Assignability of erased descriptors. -/
def isAssignableErased (t : TypeTable) : Descriptor → Descriptor → Bool
  | .array target, .array source =>
    target == source || (!target.isPrimitive && !source.isPrimitive && t.isAssignableErased target source)
  | target, .array _ => target.typeId? == some Standard.object
  | .array _, _ => false
  | target, source =>
    match source.typeId?, target.typeId? with
    | some sub, some sup => t.isSubtype sub sup
    | _, _ => false

/-- Whether values of type `source` can stand where `target` is expected. -/
def isAssignable (t : TypeTable) (target source : Descriptor) : Bool :=
  target == source || t.isAssignableErased target.erase source.erase

end Interop.TypeTable
