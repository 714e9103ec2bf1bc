/-!
# Ranks

How well a script value fits a native type; lower is better. A value that already is an instance of the type comes
first, then an exact fit, then conversions that change the representation, and last what cannot be converted.
-/

namespace Interop

structure Rank where
  value : Nat
  deriving DecidableEq, Repr, Inhabited

namespace Rank

/-- The value wraps an instance of the type. -/
def nontrivial : Rank := ⟨0⟩

/-- The value is of the type as it stands. -/
def exact : Rank := ⟨1⟩

/-- The value cannot be converted. -/
def none : Rank := ⟨99⟩

/-- A conversion that changes the representation, from 2 (best) to 11 (worst). -/
def converted (value : Nat) : Rank := ⟨value⟩

def isNone (r : Rank) : Bool := r == none

def isExact (r : Rank) : Bool := r == exact

/-- The better of two ranks. -/
def best (a b : Rank) : Rank := if a.value ≤ b.value then a else b

def text (r : Rank) : String :=
  if r = exact then "exact"
  else if r = nontrivial then "nontrivial"
  else if r = none then "none"
  else toString r.value

end Rank

end Interop
