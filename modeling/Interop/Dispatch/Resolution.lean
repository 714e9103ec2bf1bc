import Interop.Coercion.Ranking
import Interop.Dispatch.Ranking

/-!
# Choosing an overload

The parameters of a candidate are expanded to the number of arguments: a variadic candidate takes trailing arguments
against the component of its last parameter, unless a single null or array in the last place stands for the array
itself. Each argument is ranked; a candidate drops out when one cannot be converted. The best of the others wins.

A winner is remembered under the classes of the arguments, and taken again for arguments of the same classes without
ranking them.
-/

namespace Interop

/-- Whether an argument in the place of a variadic parameter stands for the whole array. -/
def ValueKind.standsForArray : ValueKind → Bool
  | .null => true
  | .nativeArray => true
  | .scriptArray => true
  | _ => false

/-- One parameter type for each argument; absent when the number of arguments does not fit. -/
def Callable.paramsFor? (c : Callable) (kinds : List ValueKind) : Option (List Descriptor) :=
  if !c.isVariadic then
    if kinds.length = c.params.length then some c.params else none
  else
    let fixed := c.params.length - 1
    if kinds.length < fixed then none
    else if kinds.length = c.params.length ∧ kinds.getLast?.any ValueKind.standsForArray then some c.params
    else do
      let last ← c.params[fixed]?
      let component ← last.component?
      some (c.params.take fixed ++ List.replicate (kinds.length - fixed) component)

/-- The ranks of arguments against parameter types, in order. -/
def rankAll : List Script → List Descriptor → Eval (List Rank)
  | arg :: args, param :: params => do
    let rank ← rankOf arg param
    let ranks ← rankAll args params
    pure (rank :: ranks)
  | _, _ => pure []

/-- Ranks arguments against one candidate; absent when it cannot take them. -/
def rankCandidate (index : Nat) (c : Callable) (args : List Script) : Eval (Option RankedCandidate) := do
  let s ← get
  match c.paramsFor? (args.map s.kindOf) with
  | none => pure none
  | some params =>
    let ranks ← rankAll args params
    pure (if ranks.any Rank.isNone then none else some ⟨index, c, params, ranks⟩)

/-- The candidates that can take the arguments, in order; `index` is the place of the first one. -/
def applicable (args : List Script) : Nat → List Callable → Eval (List RankedCandidate)
  | _, [] => pure []
  | index, c :: rest => do
    let candidate ← rankCandidate index c args
    let others ← applicable args (index + 1) rest
    pure (candidate.toList ++ others)

/-- Chooses from scratch. -/
def chooseBest (set : OverloadSet) (args : List Script) : Eval Resolution := do
  let candidates ← applicable args 0 set.candidates
  let t := (← get).types
  pure (.ofBest (t.bestCandidates candidates))

/-- Remembers the winner for the classes of the arguments. -/
def rememberWinner (o : Overloads) (classes : ArgumentClasses) : Resolution → Eval Unit
  | .resolved index => modify fun s => s.setMemo o ((s.memo o).record classes index).2
  | _ => pure ()

/-- Chooses the candidate for the arguments, from memory where possible. -/
def chooseOverload (o : Overloads) (args : List Script) : Eval Resolution := do
  match o.set.candidates with
  | [only] =>
    match ← rankCandidate 0 only args with
    | some _ => pure (.resolved 0)
    | none => pure .noMatch
  | _ =>
    let s ← get
    if s.config.overloadMemo then
      let classes := args.map s.argumentClass?
      match (s.memo o).lookup classes with
      | some index => pure (.resolved index)
      | none =>
        let resolution ← chooseBest o.set args
        rememberWinner o classes resolution
        pure resolution
    else chooseBest o.set args

/-! ## Failures -/

/-- What an argument is, in a diagnostic. -/
def Store.describeArgument (s : Store) (v : Script) : String :=
  match v with
  | .undefined => "undefined"
  | .null => "null"
  | .boolean _ => "boolean"
  | .number _ => "number"
  | .string _ => "string"
  | .callable _ => "function"
  | .object r =>
    match s.object r with
    | .proxy p =>
      match s.array? p.value with
      | some a => (Descriptor.array a.component).signature
      | none => ((s.typeOf? p.value).map s.types.typeName).getD "null"
    | o => o.className

def Store.describeArguments (s : Store) (args : List Script) : String :=
  ", ".intercalate (args.map s.describeArgument)

/-- The candidate for the arguments; it is a failure if there is none or no single best one. -/
def selectCandidate (o : Overloads) (args : List Script) : Eval Callable := do
  let resolution ← chooseOverload o args
  let s ← get
  let candidates := o.set.candidates
  match resolution with
  | .resolved index =>
    match candidates[index]? with
    | some c => pure c
    | none => Eval.fail (.noApplicableOverload o.set.name (s.describeArguments args))
  | .ambiguous indices =>
    Eval.fail (.ambiguousOverload o.set.name (s.describeArguments args)
      (indices.filterMap fun i => candidates[i]?.map Callable.signature))
  | .noMatch => Eval.fail (.noApplicableOverload o.set.name (s.describeArguments args))

end Interop
