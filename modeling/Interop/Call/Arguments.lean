import Interop.Coercion.Convert

/-!
# Arguments of a call

Script arguments become the native arguments of a chosen candidate, one parameter after the other. Trailing arguments
of a variadic candidate are packed into an array, unless the last one already stands for it.
-/

namespace Interop

/-- Converts arguments to parameter types, in order; those that are converted already are in use. -/
def convertAll : List Script → List Descriptor → Eval (List Native)
  | arg :: args, param :: params => do
    let native ← convert param arg
    let natives ← Eval.holding native.held (convertAll args params)
    pure (native :: natives)
  | _, _ => pure []

/-- The native arguments of a candidate. -/
def convertArguments (c : Callable) (args : List Script) : Eval (List Native) := do
  if !c.isVariadic then convertAll args c.params
  else
    let fixed := c.params.length - 1
    let last := c.params.getLast?.getD .unspecified
    let leading ← convertAll (args.take fixed) (c.params.take fixed)
    let trailing := args.drop fixed
    let s ← get
    Eval.holding (leading.flatMap Native.held) do
      if trailing.length = 1 ∧ trailing.any fun v => (s.kindOf v).standsForArray then
        pure (leading ++ (← convertAll trailing [last]))
      else
        let component := last.component?.getD .object
        let packed ← convertAll trailing (List.replicate trailing.length component)
        pure (leading ++ [← Eval.newNative (.array ⟨component, packed⟩)])

end Interop
