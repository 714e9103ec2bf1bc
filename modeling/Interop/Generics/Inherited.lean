import Interop.TypeTable.Basic

/-!
# What inherited type variables stand for

A member declared on a generic supertype mentions the type variables of that supertype. Seen from a concrete type,
each of them stands for what the chain of supertype references makes of it. A reference binds the type parameters of
the type it names to its arguments; what that type knows of its own supertypes is carried through these bindings.
The superclass is taken first and its bindings win over those of the interfaces; of the interfaces the first one
wins.

Answers are remembered for every type met on the way. A type met again while its own answer is being worked out
contributes nothing, which is how cycles end.
-/

namespace Interop

/-- Answers worked out so far. -/
abbrev BindingsCache := List (TypeId × Bindings)

namespace TypeTable

/-- The bindings of one supertype reference: the type parameters of the type it names, and its arguments. -/
def referenceBindings (t : TypeTable) : Descriptor → Bindings
  | .parameterized raw args =>
    match raw.typeId?.bind t.find? with
    | some d => Bindings.empty.insertAll (d.typeParams.zip args)
    | none => .empty
  | _ => .empty

/-- What a supertype knows, seen through the reference to it: carried through its bindings, which are added. -/
def seenThrough (t : TypeTable) (reference : Descriptor) (parent : Bindings) : Bindings :=
  let own := t.referenceBindings reference
  (Bindings.mk (parent.entries.map fun (v, d) => (v, d.substitute own))).insertAll own.entries

/-- Adds what one supertype contributes: the superclass overrides, an interface only fills gaps. -/
def merge (isSuperclass : Bool) (merged contribution : Bindings) : Bindings :=
  if isSuperclass then merged.insertAll contribution.entries
  else merged.insertMissing contribution.entries

/-- The bindings of a type, while those of `visiting` are being worked out. -/
def inheritedWithin (t : TypeTable) :
    Nat → List TypeId → BindingsCache → TypeId → Bindings × BindingsCache
  | 0, _, cache, _ => (.empty, cache)
  | n + 1, visiting, cache, id =>
    match cache.lookup id with
    | some known => (known, cache)
    | none =>
      if id ∈ visiting then (.empty, cache)
      else
        let supertypes :=
          if id = Standard.object ∨ id.isSimple then []
          else match t.find? id with
            | some d => d.supertypes
            | none => []
        let (merged, cache) := supertypes.foldl
          (fun (merged, cache) (isSuperclass, reference) =>
            match reference.typeId? with
            | none => (merged, cache)
            | some parentId =>
              let (parent, cache) := t.inheritedWithin n (id :: visiting) cache parentId
              (merge isSuperclass merged (t.seenThrough reference parent), cache))
          (Bindings.empty, cache)
        (merged, cache ++ [(id, merged)])

/--
The bindings of a type, with the answers known so far, and the answers known afterwards. Every type met above the
first one is named by a reference, so the number of references bounds how deep a chain without repetition goes.
-/
def inheritedBindings (t : TypeTable) (cache : BindingsCache) (id : TypeId) : Bindings × BindingsCache :=
  t.inheritedWithin (t.edgeCount + 2) [] cache id

end TypeTable

end Interop
