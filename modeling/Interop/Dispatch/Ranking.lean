import Interop.Coercion.Rank
import Interop.Member.Basic
import Interop.TypeTable.Hierarchy

/-!
# Ranking of candidates

Candidates that can take the arguments are compared in pairs, position by position. The lower rank wins a position;
two instances of the parameter type are told apart by which parameter type is the more specific, and every other tie
is undecided. Positions where both have the same parameter type do not count. A candidate that wins somewhere and
loses nowhere is preferred.

The candidates are folded into the best ones: a newcomer that is preferred to all of them replaces them, one to which
all of them are preferred is left out, and otherwise it joins them. A newcomer with the very parameters of a static
one takes its place if it is declared on a subtype.
-/

namespace Interop

/-- A candidate with one parameter type and one rank for each argument. -/
structure RankedCandidate where
  /-- Where the candidate stands in its set. -/
  index : Nat
  candidate : Callable
  params : List Descriptor
  ranks : List Rank
  deriving Repr

/-- Where two candidates differ: whether the first, the second, or either is better somewhere. -/
structure Preference where
  first : Bool
  second : Bool
  deriving DecidableEq, Repr

namespace Preference

/-- No position tells them apart. -/
def equal : Preference := ⟨false, false⟩

/-- The first is better somewhere and worse nowhere. -/
def toFirst : Preference := ⟨true, false⟩

/-- The second is better somewhere and worse nowhere. -/
def toSecond : Preference := ⟨false, true⟩

/-- Neither can be preferred. -/
def undecided : Preference := ⟨true, true⟩

/-- What two positions say together. -/
def both (a b : Preference) : Preference := ⟨a.first || b.first, a.second || b.second⟩

end Preference

namespace TypeTable

/-- What one position says about two candidates. -/
def preferAt (t : TypeTable) (type₁ type₂ : Descriptor) (rank₁ rank₂ : Rank) : Preference :=
  if type₁ == type₂ then .equal
  else if rank₁.value < rank₂.value then .toFirst
  else if rank₂.value < rank₁.value then .toSecond
  else if rank₁ = .nontrivial then
    if t.isAssignable type₁ type₂ then .toSecond
    else if t.isAssignable type₂ type₁ then .toFirst
    else .undecided
  else .undecided

/-- What all positions say about two candidates. -/
def preferPositions (t : TypeTable) : List Descriptor → List Descriptor → List Rank → List Rank → Preference
  | type₁ :: types₁, type₂ :: types₂, rank₁ :: ranks₁, rank₂ :: ranks₂ =>
    (t.preferAt type₁ type₂ rank₁ rank₂).both (t.preferPositions types₁ types₂ ranks₁ ranks₂)
  | _, _, _, _ => .equal

/-- Which of two candidates fits the arguments better. -/
def prefer (t : TypeTable) (a b : RankedCandidate) : Preference :=
  t.preferPositions a.params b.params a.ranks b.ranks

end TypeTable

/-- How a newcomer fares against the best candidates so far. -/
inductive Standing where
  /-- It is better than so many and worse than so many; the comparison ends at the first undecided one. -/
  | counted (better worse : Nat)
  /-- It has the parameters of the one at this place. -/
  | twin (place : Nat)
  deriving DecidableEq, Repr

namespace TypeTable

/-- Compares a newcomer with the best candidates in order. -/
def compareWith (t : TypeTable) (newcomer : RankedCandidate) : Nat → Nat → Nat → List RankedCandidate → Standing
  | _, better, worse, [] => .counted better worse
  | place, better, worse, incumbent :: rest =>
    let preference := t.prefer newcomer incumbent
    if preference = .undecided then .counted better worse
    else if preference = .toFirst then t.compareWith newcomer (place + 1) (better + 1) worse rest
    else if preference = .toSecond then t.compareWith newcomer (place + 1) better (worse + 1) rest
    else .twin place

/-- Whether a newcomer with the parameters of an incumbent takes its place. -/
def replaces (t : TypeTable) (newcomer incumbent : RankedCandidate) : Bool :=
  incumbent.candidate.isStatic && t.isSubtype newcomer.candidate.declaring incumbent.candidate.declaring

/-- The best candidates after one more is taken in. -/
def takeIn (t : TypeTable) (best : List RankedCandidate) (newcomer : RankedCandidate) : List RankedCandidate :=
  match t.compareWith newcomer 0 0 0 best with
  | .twin place =>
    match best[place]? with
    | some incumbent => if t.replaces newcomer incumbent then best.set place newcomer else best
    | none => best
  | .counted better worse =>
    if !best.isEmpty && better == best.length then [newcomer]
    else if !best.isEmpty && worse == best.length then best
    else best ++ [newcomer]

/-- The best of the candidates that can take the arguments. -/
def bestCandidates (t : TypeTable) (candidates : List RankedCandidate) : List RankedCandidate :=
  candidates.foldl t.takeIn []

end TypeTable

/-- The outcome of choosing a candidate. -/
inductive Resolution where
  | resolved (index : Nat)
  | ambiguous (indices : List Nat)
  | noMatch
  deriving DecidableEq, Repr

namespace Resolution

def index? : Resolution → Option Nat
  | resolved i => some i
  | _ => none

/-- One best candidate is chosen, several are ambiguous. -/
def ofBest : List RankedCandidate → Resolution
  | [] => noMatch
  | [only] => resolved only.index
  | several => ambiguous (several.map (·.index))

end Resolution

end Interop
