import Interop.Call.Basic

/-!
# Properties of script objects

Testing, writing, removing and listing properties; reading is part of calls, because getters are. A proxy of a list or
array takes writes by index, and a list grows by one when it is written at its length. A proxy of a map prefers its
keys to the members of its type; writing a key that is neither inserts it.
-/

namespace Interop

/-- Sets the first property of a name, or adds one at the end. -/
def setProperty (name : String) (v : Script) : List (String × Script) → List (String × Script)
  | [] => [(name, v)]
  | (n, w) :: rest => if n = name then (n, v) :: rest else (n, w) :: setProperty name v rest

/-- Sets an element, with undefined elements before it where the array is too short. -/
def setElement (i : Nat) (v : Script) (elements : List Script) : List Script :=
  (elements ++ List.replicate (i + 1 - elements.length) Script.undefined).set i v

/-- Writes a member. Methods, final fields and properties without setter are read-only. -/
def writeMember (n : Nat) (members : Membership) (this : Option Native) (name : String) (v : Script)
    (isStatic : Bool) : Eval Unit := do
  let readOnly : Failure := .readOnly members.entry.typeName name
  match members.entry.find? name isStatic with
  | none => Eval.fail (members.entry.missingMember name)
  | some (_, .methods _) => Eval.fail readOnly
  | some (_, .field f) =>
    if f.flags.isFinal then Eval.fail readOnly
    else do
      let native ← convert f.type v
      f.storage.write this native
  | some (inStatics, .property p) =>
    match p.setter, p.setters with
    | some setter, _ => do
      let native ← convert (setter.params.headD .unspecified) v
      let _ ← Eval.holding native.held (setter.invoker.run (send n) this [native])
    | none, some setters => do
      let _ ← callOverload n ⟨setters, .member members.serial inStatics name⟩ this [v]
    | none, none => Eval.fail readOnly

namespace Eval

/-- Whether the value behind a proxy has a member; a type without members has none. -/
def memberBehind (r : ObjectRef) (p : Proxy) (name : String) : Eval Bool := do
  match ← attempt (proxyMembers r p) with
  | .ok members => pure (members.entry.has name false)
  | .error _ => pure false

/-- The key of a map proxy as a key of the map. -/
def keyInMap (p : Proxy) (key : PropertyKey) : Eval (Except Failure Native) := do
  let s ← get
  attempt (convert (((s.map? p.value).map (·.keyType)).getD .unspecified) key.toScript)

/-- Whether a key is in the map behind a proxy. -/
def mapContains (p : Proxy) (key : Except Failure Native) : Eval Bool := do
  let s ← get
  match key, s.map? p.value with
  | .ok k, some m => pure (m.contains k)
  | _, _ => pure false

end Eval

/-- Whether an object has a property of a key. -/
def hasProperty (r : ObjectRef) (key : PropertyKey) : Eval Bool := do
  let s ← get
  match s.object r with
  | .plain properties => pure (properties.any (·.1 == key.text))
  | .array elements =>
    match key with
    | .index i => pure (i < elements.length)
    | .name name => pure (name = lengthName)
  | .proxy p =>
    match p.kind, key with
    | .ofInstance, .name name => Eval.memberBehind r p name
    | .ofInstance, .index _ => pure false
    | .ofClass, .name name => do
      match ← Eval.attempt (Eval.proxyMembers r p) with
      | .ok members => pure (members.entry.has name true)
      | .error _ => pure false
    | .ofClass, .index _ => pure false
    | .ofArray, .name name => pure (name = lengthName)
    | .ofArray, .index i => pure ((s.array? p.value).any (i < ·.elements.length))
    | .ofList, .name name => if name = lengthName then pure true else Eval.memberBehind r p name
    | .ofList, .index i => pure ((s.list? p.value).any (i < ·.elements.length))
    | .ofMap, _ => do
      if ← Eval.mapContains p (← Eval.keyInMap p key) then pure true
      else match key with
        | .name name => Eval.memberBehind r p name
        | .index _ => pure false

/-- Writes an element of the array behind a proxy. -/
def putArrayElement (p : Proxy) (i : Nat) (v : Script) : Eval Unit := do
  let native ← convert p.type v
  let s ← get
  match p.value.toRef?, s.array? p.value with
  | some r, some a => do
    let a ← Eval.ofFailure (a.set i native)
    modify (·.setNative r (.array a))
  | _, _ => pure ()

/-- Writes an element of the list behind a proxy, or adds one at its end. -/
def putListElement (p : Proxy) (i : Nat) (v : Script) : Eval Unit := do
  match (← get).list? p.value with
  | none => pure ()
  | some before =>
    if i > before.elements.length then Eval.fail (.outOfBounds i before.elements.length)
    else do
      let native ← convert before.elementType v
      let s ← get
      match p.value.toRef?, s.list? p.value with
      | some r, some l =>
        if i = before.elements.length then modify (·.setNative r (.list (l.add native).2))
        else do
          let (_, l) ← Eval.ofFailure (l.replaceAt i native)
          modify (·.setNative r (.list l))
      | _, _ => pure ()

/-- Writes a key of the map behind a proxy, or a member where the map lacks the key and the type has the member. -/
def putMapKey (n : Nat) (r : ObjectRef) (p : Proxy) (key : PropertyKey) (v : Script) : Eval Unit := do
  let native ← Eval.keyInMap p key
  let present ← Eval.mapContains p native
  let member ← match present, key with
    | false, .name name => Eval.memberBehind r p name
    | _, _ => pure false
  if member then
    let members ← Eval.proxyMembers r p
    writeMember n members (some p.value) key.text v false
  else do
    let k ← Eval.ofFailure native
    let valueType := (((← get).map? p.value).map (·.valueType)).getD .unspecified
    let value ← convert valueType v
    let s ← get
    match p.value.toRef?, s.map? p.value with
    | some ref, some m => modify (·.setNative ref (.map (m.insert k value).2))
    | _, _ => pure ()

/-- Writes a property. -/
def putProperty (n : Nat) (r : ObjectRef) (key : PropertyKey) (v : Script) : Eval Unit := do
  let s ← get
  match s.object r with
  | .plain properties => set (s.setObject r (.plain (setProperty key.text v properties)))
  | .array elements =>
    match key with
    | .index i => set (s.setObject r (.array (setElement i v elements)))
    | .name name => Eval.fail (.memberNotFound "Array" name)
  | .proxy p =>
    let member (name : String) : Eval Unit := do
      let members ← Eval.proxyMembers r p
      writeMember n members (some p.value) name v false
    match p.kind, key with
    | .ofInstance, .name name => member name
    | .ofInstance, .index i => Eval.fail (.memberNotFound p.type.signature (toString i))
    | .ofClass, _ => do
      let members ← Eval.proxyMembers r p
      writeMember n members none key.text v true
    | .ofArray, .index i => putArrayElement p i v
    | .ofArray, .name name =>
      let arrayType := (Descriptor.array p.type).signature
      if name = lengthName then Eval.fail (.readOnly arrayType name)
      else Eval.fail (.memberNotFound arrayType name)
    | .ofList, .index i => putListElement p i v
    | .ofList, .name name =>
      if name = lengthName then Eval.fail (.readOnly p.type.signature name) else member name
    | .ofMap, _ => putMapKey n r p key v

/-- Removes a property; says whether it was there. Only plain objects, arrays and maps give anything up. -/
def deleteProperty (r : ObjectRef) (key : PropertyKey) : Eval Bool := do
  let s ← get
  match s.object r with
  | .plain properties => do
    let kept := properties.filter fun (name, _) => name ≠ key.text
    set (s.setObject r (.plain kept))
    pure (kept.length ≠ properties.length)
  | .array elements =>
    match key with
    | .index i =>
      if i < elements.length then do
        set (s.setObject r (.array (elements.set i .undefined)))
        pure true
      else pure false
    | .name _ => pure false
  | .proxy p =>
    match p.kind with
    | .ofMap => do
      match ← Eval.keyInMap p key with
      | .error _ => pure false
      | .ok k => do
        let s ← get
        match p.value.toRef?, s.map? p.value with
        | some ref, some m => do
          let (old, m) := m.erase k
          set (s.setNative ref (.map m))
          pure old.isSome
        | _, _ => pure false
    | _ => pure false

/-- The indices below a length, as keys. -/
def indexKeys (length : Nat) : List PropertyKey := (List.range length).map .index

/-- Adds the keys that are not there yet, in order. -/
def addNewKeys (keys more : List PropertyKey) : List PropertyKey :=
  more.foldl (fun keys key => if keys.contains key then keys else keys ++ [key]) keys

/-- The names of the members behind a proxy. -/
def keysOfMembers (r : ObjectRef) (p : Proxy) (isStatic : Bool) : Eval (List PropertyKey) := do
  match ← Eval.attempt (Eval.proxyMembers r p) with
  | .ok members => pure ((members.entry.table isStatic).names.map .name)
  | .error _ => pure []

/-- The keys of an object, in order. -/
def objectKeys (r : ObjectRef) : Eval (List PropertyKey) := do
  let s ← get
  match s.object r with
  | .plain properties => pure (properties.map fun (name, _) => .name name)
  | .array elements => pure (indexKeys elements.length)
  | .proxy p =>
    match p.kind with
    | .ofInstance => keysOfMembers r p false
    | .ofClass => keysOfMembers r p true
    | .ofArray => pure (indexKeys (((s.array? p.value).map (·.elements.length)).getD 0))
    | .ofList => do
      let members ← keysOfMembers r p false
      pure (indexKeys (((s.list? p.value).map (·.elements.length)).getD 0) ++ members)
    | .ofMap => do
      let keys := ((s.map? p.value).map (·.order)).getD []
      let texts ← keys.mapM displayNative
      let members ← keysOfMembers r p false
      pure (addNewKeys (texts.map .name) members)

end Interop
