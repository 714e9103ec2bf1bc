import Interop.Call.Arguments

/-!
# Calls

Calls go back and forth between the two sides. Script code calls native members through overload sets; native code
calls script functions through adapters; a script function may read properties, which calls native getters. Nothing
bounds how deep such calls nest, so everything here takes an allowance and counts it down by one at each call; a
computation that uses it up has diverged. Arguments are in use during a call, and a result while it is converted.
-/

namespace Interop

/-- The key of the length of arrays and lists. -/
def lengthName : String := "length"

/-- The text of the failure to find a member. -/
def TypeMembers.missingMember (e : TypeMembers) (name : String) : Failure := .memberNotFound e.typeName name

mutual

/-- Calls a script function. -/
def callFunction : Nat → FunctionRef → Script → List Script → Eval Script
  | 0, _, _, _ => throw .diverged
  | n + 1, f, this, args => do
    match (← get).function f with
    | .closure name code => do
      modify (·.recordScript name this args)
      match code with
      | .constant v => pure v
      | .argument i => pure (args.getD i .undefined)
      | .receiver => pure this
      | .scale factor => do
        let x ← toNumber (args.headD .undefined)
        pure (.number (x.mul factor))
      | .property i key =>
        match args[i]? with
        | some (.object r) => do pure ((← getProperty n r key).getD .undefined)
        | _ => pure .undefined
      | .raise text => Eval.fail (.native name text)
    | .method overloads receiver => do
      let s ← get
      callOverload n overloads (receiver.or (s.unwrap? this)) args

/-- Chooses an overload for script arguments and calls it. -/
def callOverload : Nat → Overloads → Option Native → List Script → Eval Script
  | 0, _, _, _ => throw .diverged
  | n + 1, overloads, this, args => do
    let c ← selectCandidate overloads args
    let receiver ← receiverFor c this
    let natives ← convertArguments c args
    let result ← Eval.holding (natives.flatMap Native.held) (c.invoker.run (send n) receiver natives)
    Eval.wrap result c.returnType

/-- Calls a method of a native object by name. An adapter answers by calling the script value behind it. -/
def send : Nat → Send
  | 0, _, _, _ => throw .diverged
  | n + 1, r, name, args => do
    match (← get).native r with
    | .adapter target _ members _ => do
      let overloads := members.overloads? name false
      match overloads.bind fun o => o.set.candidates.find? (·.arity == args.length) with
      | none => Eval.fail (members.entry.missingMember name)
      | some method => do
        match ← answering n target name with
        | none => pure (if method.returnType.isVoid then .void else .initialFor method.returnType)
        | some f => do
          let scripts ← (args.zip method.params).mapM fun (arg, param) => Eval.wrap arg param
          Eval.holding (.function f :: scripts.flatMap Script.held) do
            let result ← callFunction n f target scripts
            if method.returnType.isVoid then pure .void
            else Eval.holding result.held (convert method.returnType result)
    | _ => refuse r name args

/-- The script function that answers to a method name: a function itself, or a property of an object. -/
def answering : Nat → Script → String → Eval (Option FunctionRef)
  | 0, _, _ => throw .diverged
  | n + 1, target, name => do
    match target with
    | .callable f => pure (some f)
    | .object r =>
      match ← getProperty n r (.name name) with
      | some (.callable f) => pure (some f)
      | none => pure none
      | some .undefined => pure none
      | some other => do
        let whole ← describe target
        let part ← describe other
        Eval.fail (.notCallable (whole ++ "." ++ name ++ " (" ++ part ++ ")"))
    | _ => do Eval.fail (.notCallable (← describe target))

/-- Reads a member: methods as a function bound to the receiver, fields and getters by their value. -/
def readMember : Nat → Membership → Option Native → String → Bool → Eval Script
  | 0, _, _, _, _ => throw .diverged
  | n + 1, members, this, name, isStatic => do
    match members.entry.find? name isStatic with
    | none => Eval.fail (members.entry.missingMember name)
    | some (inStatics, .methods set) =>
      Eval.newFunction (.method ⟨set, .member members.serial inStatics name⟩ this)
    | some (_, .field f) => do
      let v ← f.storage.read this
      Eval.wrap v f.type
    | some (_, .property p) =>
      match p.getter with
      | none => pure .undefined
      | some getter => do
        let v ← getter.invoker.run (send n) this []
        Eval.wrap v getter.returnType

/-- Reads a property of a script object; absent when it has none of that key. -/
def getProperty : Nat → ObjectRef → PropertyKey → Eval (Option Script)
  | 0, _, _ => throw .diverged
  | n + 1, r, key => do
    let s ← get
    match s.object r with
    | .plain properties => pure (properties.lookup key.text)
    | .array elements =>
      match key with
      | .index i => pure elements[i]?
      | .name name => pure (if name = lengthName then some (.number (.ofNat elements.length)) else none)
    | .proxy p =>
      let member (name : String) : Eval (Option Script) := do
        let members ← Eval.proxyMembers r p
        if members.entry.has name false then
          pure (some (← readMember n members (some p.value) name false))
        else pure none
      match p.kind, key with
      | .ofInstance, .name name => member name
      | .ofInstance, .index _ => pure none
      | .ofClass, .name name => do
        let members ← Eval.proxyMembers r p
        if members.entry.has name true then
          pure (some (← readMember n members none name true))
        else pure none
      | .ofClass, .index _ => pure none
      | .ofArray, .name name =>
        let length := ((s.array? p.value).map (·.elements.length)).getD 0
        pure (if name = lengthName then some (.number (.ofNat length)) else none)
      | .ofArray, .index i =>
        match (s.array? p.value).bind (·.elements[i]?) with
        | some v => do pure (some (← Eval.wrap v p.type))
        | none => pure none
      | .ofList, .name name =>
        if name = lengthName then
          pure (some (.number (.ofNat (((s.list? p.value).map (·.elements.length)).getD 0))))
        else member name
      | .ofList, .index i =>
        match s.list? p.value with
        | some l =>
          match l.elements[i]? with
          | some v => do pure (some (← Eval.wrap v l.elementType))
          | none => pure none
        | none => pure none
      | .ofMap, _ => do
        let keyType := ((s.map? p.value).map (·.keyType)).getD .unspecified
        let native ← Eval.attempt (convert keyType key.toScript)
        let s ← get
        let found := native.toOption.bind fun k => (s.map? p.value).bind fun m =>
          (m.get? k).map fun v => (v, m.valueType)
        match found, key with
        | some (v, valueType), _ => do pure (some (← Eval.wrap v valueType))
        | none, .name name => member name
        | none, .index _ => pure none

end

/-- Constructs an instance of the type that an entry describes. -/
def construct (n : Nat) (members : Membership) (args : List Script) : Eval Script := do
  match members.constructors? with
  | none => Eval.fail (.notConstructible members.entry.typeName)
  | some overloads => do
    let c ← selectCandidate overloads args
    let natives ← convertArguments c args
    let v ← Eval.holding (natives.flatMap Native.held) (c.invoker.run (send n) none natives)
    Eval.wrapInstance v members.entry.typeId

/-- Constructs an instance of a type. -/
def constructType (n : Nat) (id : TypeId) (args : List Script) : Eval Script := do
  construct n (← Eval.membersOf id none false) args

end Interop
