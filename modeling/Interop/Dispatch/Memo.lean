import Interop.TypeId.Basic

/-!
# Remembered resolutions

An overload set remembers which candidate won for a vector of argument classes. Nothing is forgotten or replaced, and
at twice the number of candidates the memo is full, so that a call site with ever new argument classes does not make
it grow.
-/

namespace Interop

/-- The classes of the arguments of a call; null has none. -/
abbrev ArgumentClasses := List (Option TypeId)

structure Memo where
  capacity : Nat
  /-- The winners, the earliest remembered first. -/
  entries : List (ArgumentClasses × Nat)
  deriving Repr

namespace Memo

/-- The memo of a set with so many candidates. -/
def ofCandidates (n : Nat) : Memo := ⟨2 * n, []⟩

def size (m : Memo) : Nat := m.entries.length

/-- The winner remembered for exactly these classes. -/
def lookup (m : Memo) (classes : ArgumentClasses) : Option Nat := m.entries.lookup classes

/-- Remembers a winner, unless the memo is full or has one for these classes; says whether it did. -/
def record (m : Memo) (classes : ArgumentClasses) (winner : Nat) : Bool × Memo :=
  if m.size ≥ m.capacity ∨ (m.lookup classes).isSome then (false, m)
  else (true, { m with entries := m.entries ++ [(classes, winner)] })

end Memo

end Interop
