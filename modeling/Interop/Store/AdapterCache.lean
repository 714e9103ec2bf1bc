import Interop.Store.Basic

/-!
# The adapter cache

While an adapter is referred to, it is kept under its script value and its interface. An entry does not keep its adapter
alive: once the count of references is zero the entry gives nothing, and another adapter may take it over. A dropped
adapter takes its own entry away, but not one that has been taken over.
-/

namespace Interop.Store

/-- The adapter of an entry, unless its count is zero. -/
def upgrade? (s : Store) (key : AdapterKey) : Option NativeRef := (s.adapters.lookup key).filter s.referred.contains

/-- Puts an adapter under a key, in the place of what is there. -/
def putEntry (key : AdapterKey) (r : NativeRef) : List (AdapterKey × NativeRef) → List (AdapterKey × NativeRef)
  | [] => [(key, r)]
  | (k, kept) :: rest => if k = key then (k, r) :: rest else (k, kept) :: putEntry key r rest

/--
Keeps an adapter under a key unless one that is referred to is kept there by now; gives the one that is kept in the end. The
entry of an adapter that is gone is taken over.
-/
def publish (s : Store) (key : AdapterKey) (r : NativeRef) : NativeRef × Store :=
  match s.upgrade? key with
  | some winner => (winner, s)
  | none => (r, { s with adapters := putEntry key r s.adapters })

/-- Takes the entry of a key away unless an adapter that is referred to has taken it over. -/
def forget (s : Store) (key : AdapterKey) : Store :=
  { s with adapters := s.adapters.filter fun (k, r) => k ≠ key || s.referred.contains r }

/-- The last reference to an adapter is gone, and the adapter takes away the entry that it was kept under. -/
def dropAdapter (s : Store) (r : NativeRef) : Store :=
  let s : Store := { s with referred := s.referred.filter (· ≠ r) }
  match (s.native r).cacheKey? with
  | some key => s.forget key
  | none => s

end Interop.Store
