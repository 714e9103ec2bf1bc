import Interop.Store.AdapterCache
import Std.Data.HashSet

/-!
# Live adapters

An object lives as long as something that lives refers to it. The embedder and the running computation hold what is in
use; the declared types and the kept members hold what their members hold. Objects that refer to one another in a
circle keep each other alive, and all that they refer to, when nothing else does.

So the objects that live are the most that can live: starting from all objects, those that nothing holds any more are
let go, round by round, until every remaining one is held. `releaseAdapters` brings up to
date which adapters are referred to: those that do not live are dropped, one after the other, so that a later conversion
makes a new adapter.
-/

namespace Interop.Store

/-- What the thing behind a reference holds. -/
def references (s : Store) : Referent → List Referent
  | .native r => (s.native r).held
  | .object r => (s.object r).held
  | .function r => (s.function r).held
  | .cell r => (s.cell r).held

/-- Everything that the store has made. -/
def referents (s : Store) : List Referent :=
  (List.range s.natives.size).map (fun i => .native ⟨i⟩) ++ (List.range s.objects.size).map (fun i => .object ⟨i⟩)
    ++ (List.range s.functions.size).map (fun i => .function ⟨i⟩) ++ (List.range s.cells.size).map fun i => .cell ⟨i⟩

/-- What is held by other things than objects. -/
def roots (s : Store) : List Referent :=
  s.inUse ++ s.types.entries.flatMap (fun (_, d) => d.held)
    ++ s.memberCache.entries.flatMap fun (_, m) => m.held

/-- Those of some objects that a root or one of them holds. -/
def stillHeld (s : Store) (objects : List Referent) : List Referent :=
  let held := Std.HashSet.ofList (s.roots ++ objects.flatMap s.references)
  objects.filter held.contains

/-- Lets go of objects round by round; each round but the last loses at least one. -/
def survivorsWithin (s : Store) : Nat → List Referent → List Referent
  | 0, objects => objects
  | n + 1, objects =>
    let kept := s.stillHeld objects
    if kept.length = objects.length then objects else s.survivorsWithin n kept

/-- The objects that live. -/
def survivors (s : Store) : List Referent := s.survivorsWithin s.referents.length s.referents

/-- The adapters that were referred to and do not live any more. -/
def unreferred (s : Store) : List NativeRef :=
  let live := Std.HashSet.ofList s.survivors
  s.referred.filter fun r => !live.contains (.native r)

/-- Drops the adapters whose last reference has gone, one after the other. -/
def releaseAdapters (s : Store) : Store := if s.referred.isEmpty then s else s.unreferred.foldl dropAdapter s

end Interop.Store
