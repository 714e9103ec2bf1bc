import Interop.Call.Invoker
import Interop.Dispatch.Resolution

/-!
# Objects as primitives

A script object that is asked for a primitive gives one by its kind. A proxy asked for a number or a boolean calls the
accessor of that kind on its value, if the type has one that takes no arguments, and otherwise gives its text. The
number of a script value comes from the primitive; where that fails, or gives an object again, it is not a number.
-/

namespace Interop

/-- The arguments of a call without arguments: an empty array for a variadic parameter. -/
def noArguments (c : Callable) : Eval (List Native) := do
  if c.isVariadic then
    let component := (c.params.getLast?.bind Descriptor.component?).getD .object
    pure [← Eval.newNative (.array ⟨component, []⟩)]
  else pure []

/-- The receiver of a call: none for a static member, and never null for the others. -/
def receiverFor (c : Callable) (this : Option Native) : Eval (Option Native) :=
  if c.isStatic then pure none
  else match this.filter fun v => !v.isNull with
    | some v => pure (some v)
    | none => Eval.fail (.notCallable (c.signature ++ " without a receiver"))

/-- Calls an accessor on a value without arguments. The value behind a proxy is never an adapter. -/
def callAccessor (o : Overloads) (v : Native) : Eval Script := do
  let c ← selectCandidate o []
  let receiver ← receiverFor c (some v)
  let args ← noArguments c
  let result ← c.invoker.run refuse receiver args
  Eval.wrap result c.returnType

/-- The accessor method that gives the primitive asked for. -/
def Hint.accessor? : Hint → Option String
  | boolean => some "booleanValue"
  | number => some "doubleValue"
  | _ => none

/-- The primitive that a proxy with members gives. -/
def proxyPrimitive (members : Option Membership) (v : Native) (hint : Hint) : Eval Script := do
  let accessor := do
    let name ← hint.accessor?
    let overloads ← (← members).overloads? name false
    if overloads.set.candidates.any (·.arity == 0) then some overloads else none
  match accessor with
  | some overloads => callAccessor overloads v
  | none => pure (.string (← displayNative v))

/-- The primitive that an object gives. -/
def primitiveOf (r : ObjectRef) (hint : Hint) : Eval Script := do
  match (← get).object r with
  | .plain _ => pure (if hint = .boolean then .boolean true else .string "[object Object]")
  | .array _ => pure (.string (← displayScript (.object r)))
  | .proxy p =>
    match p.kind with
    | .ofArray => pure (.string (← displayNative p.value))
    | .ofClass => pure (.string (← displayNative p.value))
    | _ => do
      let members ← Eval.attempt (Eval.proxyMembers r p)
      proxyPrimitive members.toOption p.value hint

/-- The number of a value that is no object. -/
def Script.primitiveNumber : Script → Double
  | undefined => .nan
  | null => .zero
  | boolean b => if b then .one else .zero
  | number x => x
  | string s => Numeral.scriptNumber s
  | object _ => .nan
  | callable _ => .nan

/-- The number of a script value. -/
def toNumber (v : Script) : Eval Double := do
  match v with
  | .object r =>
    match ← Eval.attempt (primitiveOf r .number) with
    | .ok primitive => pure primitive.primitiveNumber
    | .error _ => pure .nan
  | _ => pure v.primitiveNumber

end Interop
