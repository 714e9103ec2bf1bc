import Interop.Descriptor.Interning
import Interop.Store.Declare
import Interop.Store.Liveness

/-!
# Sessions

An embedder works on a store in steps and keeps what it wants to come back to in named registers. In a step it also
holds what it made for the step; after the step only what the registers hold is in use, and adapters that do not live
any more are let go. The record of calls starts anew with each step.
-/

namespace Interop

/-- What a register holds. -/
inductive Slot where
  | script (value : Script)
  | native (value : Native)
  | members (members : Membership)
  | overloads (overloads : Overloads)
  deriving Repr

namespace Slot

/--
Whether two registers hold one thing: script objects and functions by identity, native values by equality, members and
overload sets by what they were published as. Inline script values are never one thing.
-/
def same : Slot → Slot → Bool
  | script u, script v => u.identity?.isSome && u.identity? == v.identity?
  | native u, native v => u.same v
  | members m, members k => m.serial == k.serial
  | overloads o, overloads p => o.key == p.key
  | _, _ => false

/-- What a register holds on to. -/
def held : Slot → List Referent
  | script v => v.held
  | native v => v.held
  | members m => m.held
  | overloads o => o.held

end Slot

structure Session where
  store : Store := {}
  registers : List (String × Slot) := []
  interfaces : Interfaces := {}

namespace Session

def slot? (s : Session) (name : String) : Option Slot := s.registers.lookup name

/-- Empties a register; says whether it held anything. -/
def drop (s : Session) (name : String) : Bool × Session :=
  ((s.slot? name).isSome, { s with registers := s.registers.filter fun (n, _) => n ≠ name })

/-- Puts something into a register, in the place of what it held. -/
def keep (s : Session) (name : String) (slot : Slot) : Session :=
  { s with registers := (name, slot) :: (s.drop name).2.registers }

/-- Before a step: no calls are recorded. -/
def start (s : Session) : Session := { s with store := { s.store with calls := [] } }

/-- Holds something until the end of the step. -/
def hold (s : Session) (slot : Slot) : Session :=
  { s with store := { s.store with inUse := slot.held ++ s.store.inUse } }

/-- After a step: only what the registers hold is in use, and adapters that do not live are let go. -/
def settle (s : Session) : Session :=
  let store : Store := { s.store with inUse := s.registers.flatMap fun (_, slot) => slot.held }
  { s with store := store.releaseAdapters }

/-- The calls of the current step, the earliest first. -/
def calls (s : Session) : List CallRecord := s.store.calls.reverse

/-- Runs a computation on the store. -/
def eval (s : Session) (x : Eval α) : Except Stop α × Session :=
  let (result, store) := x.run.run s.store
  (result, { s with store := store })

/-- The descriptor of an interface; the first mention of a name settles whether it is functional. -/
def mention (s : Session) (name : String) (functional : Bool) : Descriptor × Session :=
  let (d, interfaces) := s.interfaces.mention name functional
  (d, { s with interfaces := interfaces })

end Session

end Interop
