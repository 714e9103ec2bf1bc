import Interop.Store.Liveness
import Interop.Value.Display

/-!
# Interface adapters

A script function or object becomes an object of an interface through an adapter. While an adapter lives, the same
script value and the same interface give the same adapter.
-/

namespace Interop

/-- A new adapter, which is referred to from the start. -/
def newAdapter (v : Script) (interface : Descriptor) (id : TypeId) (key : Option AdapterKey) : Eval NativeRef := do
  let members ← Eval.membersOf id none false
  let (r, s) := (← get).addNative (.adapter v interface members key)
  set { s with referred := s.referred ++ [r] }
  pure r

/--
The adapter that is kept under a key, or a new one. What has been let go up to now is dropped first; after the new
adapter is made, the entry is looked at once more. A new adapter that finds the entry taken is not given, and is dropped
with what is let go next.
-/
def cachedAdapter (key : AdapterKey) (make : Eval NativeRef) : Eval NativeRef := do
  modify (·.releaseAdapters)
  match (← get).upgrade? key with
  | some r => pure r
  | none => do
    let made ← make
    let (winner, s) := (← get).publish key made
    set s
    pure winner

/-- Adapts a script value to an interface. -/
def adapterFor (v : Script) (interface : Descriptor) : Eval Native := do
  match interface.typeId? with
  | none => cannotConvert v interface
  | some id =>
    let s ← get
    match if s.config.adapterCache then v.identity? else none with
    | none => .object <$> newAdapter v interface id none
    | some identity => .object <$> cachedAdapter (identity, id) (newAdapter v interface id (some (identity, id)))

end Interop
