import Interop.Coercion.Narrowing
import Interop.Value.Display

/-!
# Members of the standard types

What the members of the root type, strings, numbers, classes, collections, maps and enums do. Each of them checks its
receiver and its arguments itself and fails under its own name.
-/

namespace Interop.StandardCode

def fail (code : StandardCode) (text : String) : Eval α := Eval.fail (.native code.memberName text)

def receiver (code : StandardCode) (this : Option Native) : Eval Native :=
  match this with
  | some v => pure v
  | none => code.fail "missing receiver"

def argument (code : StandardCode) (args : List Native) (i : Nat) : Eval Native :=
  match args[i]? with
  | some v => pure v
  | none => code.fail "missing argument"

/-- The first argument as an index. -/
def indexArgument (code : StandardCode) (args : List Native) : Eval Nat := do
  match ← code.argument args 0 with
  | .int i => if 0 ≤ i.toInt then pure i.toInt.toNat else code.fail "index must be a non-negative int"
  | _ => code.fail "index must be a non-negative int"

/-- The list that the receiver refers to. -/
def thisList (code : StandardCode) (this : Option Native) : Eval (NativeRef × NativeList) := do
  let s ← get
  match this.bind Native.toRef?, this.bind s.list? with
  | some r, some l => pure (r, l)
  | _, _ => code.fail "receiver is not a collection"

/-- The map that the receiver refers to. -/
def thisMap (code : StandardCode) (this : Option Native) : Eval (NativeRef × NativeMap) := do
  let s ← get
  match this.bind Native.toRef?, this.bind s.map? with
  | some r, some m => pure (r, m)
  | _, _ => code.fail "receiver is not a map"

/-- The native object that the receiver refers to. -/
def objectReceiver? (this : Option Native) : Eval (Option NativeObject) := do
  let s ← get
  pure ((this.bind Native.toRef?).map s.native)

def numberReceiver (code : StandardCode) (this : Option Native) : Eval Double := do
  match (← code.receiver this).toDouble? with
  | some x => pure x
  | none => code.fail "receiver is not a number"

def run (code : StandardCode) (this : Option Native) (args : List Native) : Eval Native := do
  match code with
  | objectText => pure (.string (← displayNative (← code.receiver this)))
  | objectEquals => do
    let self ← code.receiver this
    let other ← code.argument args 0
    pure (.boolean (self.same other))
  | objectNew => Eval.newNative (.newRecord .object none [])
  | stringLength => do
    match ← code.receiver this with
    | .string s => pure (.int (.ofNat (Text.units s).length))
    | _ => code.fail "receiver is not a string"
  | stringIsEmpty => pure (.boolean (← displayNative (← code.receiver this)).isEmpty)
  | numberDouble => pure (.double (← code.numberReceiver this))
  | numberInt => pure (.int (← code.numberReceiver this).saturateInt)
  | className => do
    match ← objectReceiver? this with
    | some (.classRef type) => pure (.string type.signature)
    | _ => code.fail "receiver is not a class"
  | collectionSize => do
    let (_, l) ← code.thisList this
    pure (.int (.ofNat l.elements.length))
  | collectionIsEmpty => do
    let (_, l) ← code.thisList this
    pure (.boolean l.elements.isEmpty)
  | collectionContains => do
    let (_, l) ← code.thisList this
    pure (.boolean (l.contains (← code.argument args 0)))
  | collectionAdd => do
    let (r, l) ← code.thisList this
    let (added, l) := l.add (← code.argument args 0)
    modify (·.setNative r (.list l))
    pure (.boolean added)
  | listGet => do
    let (_, l) ← code.thisList this
    let i ← code.indexArgument args
    match l.elements[i]? with
    | some v => pure v
    | none => Eval.fail (.outOfBounds i l.elements.length)
  | listSet => do
    let (r, l) ← code.thisList this
    let i ← code.indexArgument args
    let v ← code.argument args 1
    let (old, l) ← Eval.ofFailure (l.replaceAt i v)
    modify (·.setNative r (.list l))
    pure old
  | mapSize => do
    let (_, m) ← code.thisMap this
    pure (.int (.ofNat m.size))
  | mapGet => do
    let (_, m) ← code.thisMap this
    pure ((m.get? (← code.argument args 0)).getD .null)
  | mapPut => do
    let key ← code.argument args 0
    let value ← code.argument args 1
    let (r, m) ← code.thisMap this
    let (old, m) := m.insert key value
    modify (·.setNative r (.map m))
    pure (old.getD .null)
  | mapContainsKey => do
    let (_, m) ← code.thisMap this
    pure (.boolean (m.contains (← code.argument args 0)))
  | enumName => do
    match ← objectReceiver? this with
    | some (.constant _ _ name) => pure (.string name)
    | _ => code.fail "receiver is not an enum constant"
  | enumOrdinal => do
    match ← objectReceiver? this with
    | some (.constant _ ordinal _) => pure (.int (.ofNat ordinal))
    | _ => code.fail "receiver is not an enum constant"

end Interop.StandardCode
