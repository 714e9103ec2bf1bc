import Interop.Dispatch.Memo
import Interop.Value.Referent
import Interop.Value.View

/-!
# The store

All state in one value: the types of the host, the objects of both sides, static fields, the members collected so far,
the memos of overload sets, the adapters that are kept and those that are referred to, what is in use, and the calls
recorded so far. A reference that was never handed out reads as a bare object, so reading needs no failure case.

`Eval` is a computation over the store. It ends with a value or stops; what it did to the store before it stopped
stays done.
-/

namespace Interop

/-- Switches that are fixed for the life of a store. -/
structure Config where
  /-- Show protected members also where they are not asked for. -/
  includeNonPublic : Bool := false
  /-- Remember resolved overloads. -/
  overloadMemo : Bool := true
  /-- Use one adapter for one script value and one interface. -/
  adapterCache : Bool := true
  deriving DecidableEq, Repr

structure Store where
  types : TypeTable := .empty
  config : Config := {}
  /-- Whether primitives reach script code as proxies where their declared type is not primitive. -/
  wrapPrimitives : Bool := false
  natives : Array NativeObject := #[]
  objects : Array ScriptObject := #[]
  functions : Array ScriptFunction := #[]
  cells : Array Native := #[]
  memberCache : MemberCache := {}
  memos : List (SetKey × Memo) := []
  /-- The number of the next standalone overload set. -/
  nextSet : Nat := 0
  /-- The adapters that are kept. An entry is no reference to its adapter. -/
  adapters : List (AdapterKey × NativeRef) := []
  /-- The adapters that are referred to: those whose count of references is not zero. -/
  referred : List NativeRef := []
  /-- What the embedder and the running computation hold. -/
  inUse : List Referent := []
  /-- The calls recorded so far, the latest first. -/
  calls : List CallRecord := []

namespace Store

/-! ## Reading -/

def native (s : Store) (r : NativeRef) : NativeObject :=
  s.natives.getD r.index (.record Standard.objectName none [])

def object (s : Store) (r : ObjectRef) : ScriptObject := s.objects.getD r.index (.plain [])

def function (s : Store) (r : FunctionRef) : ScriptFunction :=
  s.functions.getD r.index (.closure "" (.constant .undefined))

def cell (s : Store) (r : CellRef) : Native := s.cells.getD r.index .null

/-- The list that a native value refers to. -/
def list? (s : Store) : Native → Option NativeList
  | .object r =>
    match s.native r with
    | .list l => some l
    | _ => none
  | _ => none

/-- The map that a native value refers to. -/
def map? (s : Store) : Native → Option NativeMap
  | .object r =>
    match s.native r with
    | .map m => some m
    | _ => none
  | _ => none

/-- The array that a native value refers to. -/
def array? (s : Store) : Native → Option NativeArray
  | .object r =>
    match s.native r with
    | .array a => some a
    | _ => none
  | _ => none

/-- The class of a native value; null has none. -/
def typeOf? (s : Store) : Native → Option TypeId
  | .void => none
  | .null => none
  | .boolean _ => some Standard.boolean
  | .string _ => some Standard.string
  | .object r => some (s.native r).typeId
  | v => v.numericKind?.map (·.typeId)

/-- The class of a native value with the element types of lists and maps folded in. -/
def exactTypeOf? (s : Store) : Native → Option TypeId
  | .object r => some (s.native r).exactTypeId
  | v => s.typeOf? v

/-- The type whose members a native value has; inline values have those of their boxed form. -/
def memberTypeOf? (s : Store) : Native → Option TypeId
  | .void => none
  | .null => none
  | .boolean _ => some Standard.object
  | .char _ => some Standard.object
  | .string _ => some Standard.string
  | .object r => some (s.native r).typeId
  | _ => some Standard.number

/-- The native value behind a proxy. -/
def unwrap? (s : Store) : Script → Option Native
  | .object r => (s.object r).native?
  | _ => none

def kindOf (s : Store) : Script → ValueKind
  | .undefined => .undefined
  | .null => .null
  | .boolean _ => .boolean
  | .number _ => .number
  | .string _ => .string
  | .callable _ => .scriptCallable
  | .object r => (s.object r).kindOf

/-- The class of a script value in a vector of argument classes; null has none. -/
def argumentClass? (s : Store) : Script → Option TypeId
  | .null => none
  | .undefined => some Standard.scriptUndefined
  | .boolean _ => some Standard.boolean
  | .number _ => some Standard.double
  | .string _ => some Standard.string
  | .callable _ => some Standard.scriptFunction
  | .object r =>
    match s.object r with
    | .plain _ => some Standard.scriptObject
    | .array _ => some Standard.scriptArray
    | .proxy p =>
      match p.value with
      | .object n => some (s.native n).exactTypeId
      | boxed => (s.typeOf? boxed).map fun id => .ofParameterized Standard.scriptBoxed [id]

/-! ## Writing -/

def addNative (s : Store) (o : NativeObject) : NativeRef × Store :=
  (⟨s.natives.size⟩, { s with natives := s.natives.push o })

def addObject (s : Store) (o : ScriptObject) : ObjectRef × Store :=
  (⟨s.objects.size⟩, { s with objects := s.objects.push o })

def addFunction (s : Store) (f : ScriptFunction) : FunctionRef × Store :=
  (⟨s.functions.size⟩, { s with functions := s.functions.push f })

def addCell (s : Store) (v : Native) : CellRef × Store :=
  (⟨s.cells.size⟩, { s with cells := s.cells.push v })

def setNative (s : Store) (r : NativeRef) (o : NativeObject) : Store :=
  { s with natives := s.natives.setIfInBounds r.index o }

def setObject (s : Store) (r : ObjectRef) (o : ScriptObject) : Store :=
  { s with objects := s.objects.setIfInBounds r.index o }

def setCell (s : Store) (r : CellRef) (v : Native) : Store :=
  { s with cells := s.cells.setIfInBounds r.index v }

/-- The memo of an overload set; empty until something is remembered. -/
def memo (s : Store) (o : Overloads) : Memo :=
  (s.memos.lookup o.key).getD (.ofCandidates o.set.candidates.length)

/-- Puts the memo of an overload set in the place of an earlier one. -/
def setMemo (s : Store) (o : Overloads) (m : Memo) : Store :=
  { s with memos := (o.key, m) :: s.memos.filter fun (k, _) => k ≠ o.key }

/--
How deep a chain of references without repetition goes. Following references further than this comes back to an
object met before.
-/
def depth (s : Store) : Nat := s.natives.size + s.objects.size + 1

end Store

/-- A computation over the store. -/
abbrev Eval := ExceptT Stop (StateM Store)

namespace Eval

/-- Stops with a failure. -/
def fail (f : Failure) : Eval α := throw (.failed f)

/-- Runs a computation; a failure becomes a value, any other stop goes on. -/
def attempt (x : Eval α) : Eval (Except Failure α) :=
  tryCatch (Except.ok <$> x) fun
    | .failed f => pure (.error f)
    | stop => throw stop

/-- The value of a computation on the store itself. -/
def ofResult (r : Except Stop α) : Eval α :=
  match r with
  | .ok a => pure a
  | .error stop => throw stop

/-- The value of a computation that may fail. -/
def ofFailure (r : Except Failure α) : Eval α :=
  match r with
  | .ok a => pure a
  | .error f => fail f

/-- Runs a computation while something is in use besides what is in use already. -/
def holding (held : List Referent) (x : Eval α) : Eval α := ExceptT.mk do
  let inUse := (← get).inUse
  modify fun s => { s with inUse := held ++ inUse }
  let result ← x.run
  modify fun s => { s with inUse := inUse }
  pure result

def newNative (o : NativeObject) : Eval Native := do
  let (r, s) := (← get).addNative o
  set s
  pure (.object r)

def newObject (o : ScriptObject) : Eval Script := do
  let (r, s) := (← get).addObject o
  set s
  pure (.object r)

def newFunction (f : ScriptFunction) : Eval Script := do
  let (r, s) := (← get).addFunction f
  set s
  pure (.callable r)

/-- The members of a type, protected ones included when asked for or by default. -/
def membersOf (id : TypeId) (declared : Option TypeId) (includeProtected : Bool) : Eval Membership := do
  let s ← get
  let (result, memberCache) :=
    s.memberCache.lookup s.types id declared (includeProtected || s.config.includeNonPublic)
  set { s with memberCache := memberCache }
  ofResult result

end Eval

end Interop
