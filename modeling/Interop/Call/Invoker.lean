import Interop.Call.Standard
import Interop.Store.View

/-!
# Running native members

What a call of a native member does, given how a method is called on an object by name (`send`). Only abstract
methods and dispatching host code use `send`. Static fields live in cells, instance fields in records.
-/

namespace Interop

/-- How a method is called on an object by its name. -/
abbrev Send := NativeRef → String → List Native → Eval Native

/-- Objects that are no adapters answer to no method by name. -/
def refuse : Send := fun r name _ => do
  Eval.fail (.notCallable ((← displayNative (.object r)) ++ "." ++ name))

/-- The record that a value refers to. -/
def Store.record? (s : Store) : Native → Option (NativeRef × String × Option String × List (String × Native))
  | .object r =>
    match s.native r with
    | .record typeName display fields => some (r, typeName, display, fields)
    | _ => none
  | _ => none

def HostCode.run (send : Send) (name : String) (code : HostCode) (this : Option Native) (args : List Native) :
    Eval Native := do
  let s ← get
  match code with
  | constant v => pure v
  | argument i => pure (args.getD i .null)
  | receiver => pure (this.getD .null)
  | readField field =>
    match this.bind s.record? with
    | some (_, _, _, fields) => pure ((fields.lookup field).getD .null)
    | none => Eval.fail (.native name "no receiver")
  | writeField field =>
    match this.bind s.record? with
    | some (r, typeName, display, fields) => do
      let fields := NativeObject.setField field (args.headD .null) fields
      modify (·.setNative r (.record typeName display fields))
      pure .void
    | none => Eval.fail (.native name "no receiver")
  | allocate type fields => Eval.newNative (.newRecord type none (fields.zip args))
  | dispatch method =>
    match args with
    | .object r :: rest => send r method rest
    | _ => Eval.fail (.native name "nothing to dispatch on")
  | raise text => Eval.fail (.native name text)

def Invoker.run (send : Send) (invoker : Invoker) (this : Option Native) (args : List Native) : Eval Native := do
  match invoker with
  | host name code => do
    modify (·.recordNative name this args)
    code.run send name this args
  | standard code => code.run this args
  | virtual name =>
    match this with
    | some (.object r) => send r name args
    | _ => Eval.fail (.native name "abstract method called without receiver")
  | missing name => Eval.fail (.native name "no implementation")

namespace Storage

def read (storage : Storage) (this : Option Native) : Eval Native := do
  let s ← get
  match storage with
  | cell r => pure (s.cell r)
  | slot name unset =>
    match this.bind s.record? with
    | some (_, _, _, fields) => pure ((fields.lookup name).getD unset)
    | none => Eval.fail (.native name "receiver has no field storage")
  | broken name => Eval.fail (.native name "broken read")

def write (storage : Storage) (this : Option Native) (v : Native) : Eval Unit := do
  let s ← get
  match storage with
  | cell r => set (s.setCell r v)
  | slot name _ =>
    match this.bind s.record? with
    | some (r, typeName, display, fields) =>
      set (s.setNative r (.record typeName display (NativeObject.setField name v fields)))
    | none => Eval.fail (.native name "receiver has no field storage")
  | broken name => Eval.fail (.native name "broken write")

end Storage

end Interop
