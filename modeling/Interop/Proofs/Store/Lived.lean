import Interop.Proofs.Proxy.Properties
import Interop.Proofs.Store.Declarations

/-!
# Lived stores

A store comes about in the course of a program: a host declares and denies types, forgets members, makes objects and
changes what they hold, and both sides read, write, test, remove and list properties, call functions and methods,
construct instances and convert values, in any order and as often as they like. `Operation` lists what may be asked of
a store, `Store.Lived` says which stores come about in this way, and `Store.Lived.holds` that a discipline which the
host does not break either holds in all of them.

* **`Operation`**, **`Operation.follows`**: what may be asked of a store, and that it keeps lenient disciplines.
* **`Store.Lived`**, **`Store.Lived.holds`**: what holds in every store that comes about.
-/

namespace Interop

/-! ## Operations -/

/-- What script code and embedders may ask of a store; calls come with their allowance. -/
inductive Operation where
  | getProperty (n : Nat) (r : ObjectRef) (key : PropertyKey)
  | hasProperty (r : ObjectRef) (key : PropertyKey)
  | putProperty (n : Nat) (r : ObjectRef) (key : PropertyKey) (v : Script)
  | deleteProperty (r : ObjectRef) (key : PropertyKey)
  | objectKeys (r : ObjectRef)
  | readMember (n : Nat) (members : Membership) (this : Option Native) (name : String) (isStatic : Bool)
  | writeMember (n : Nat) (members : Membership) (this : Option Native) (name : String) (v : Script) (isStatic : Bool)
  | callFunction (n : Nat) (f : FunctionRef) (this : Script) (args : List Script)
  | callOverload (n : Nat) (overloads : Overloads) (this : Option Native) (args : List Script)
  | send (n : Nat) (r : NativeRef) (name : String) (args : List Native)
  | construct (n : Nat) (members : Membership) (args : List Script)
  | constructType (n : Nat) (id : TypeId) (args : List Script)
  | chooseOverload (overloads : Overloads) (args : List Script)
  | convert (d : Descriptor) (v : Script)
  | newNative (o : NativeObject)
  | newPlain (properties : List (String × Script))
  | newArray (elements : List Script)
  | newFunction (f : ScriptFunction)
  | wrap (v : Native) (type : Descriptor)
  | wrapInstance (v : Native) (type : TypeId)
  | displayNative (v : Native)
  | displayScript (v : Script)
  | membersOf (id : TypeId) (declared : Option TypeId) (includeProtected : Bool)

/-- Does what is asked for. -/
def Operation.run : Operation → Eval Unit
  | getProperty n r key => do let _ ← Interop.getProperty n r key
  | hasProperty r key => do let _ ← Interop.hasProperty r key
  | putProperty n r key v => Interop.putProperty n r key v
  | deleteProperty r key => do let _ ← Interop.deleteProperty r key
  | objectKeys r => do let _ ← Interop.objectKeys r
  | readMember n members this name isStatic => do let _ ← Interop.readMember n members this name isStatic
  | writeMember n members this name v isStatic => Interop.writeMember n members this name v isStatic
  | callFunction n f this args => do let _ ← Interop.callFunction n f this args
  | callOverload n overloads this args => do let _ ← Interop.callOverload n overloads this args
  | send n r name args => do let _ ← Interop.send n r name args
  | construct n members args => do let _ ← Interop.construct n members args
  | constructType n id args => do let _ ← Interop.constructType n id args
  | chooseOverload overloads args => do let _ ← Interop.chooseOverload overloads args
  | convert d v => do let _ ← Interop.convert d v
  | newNative o => do let _ ← Eval.newNative o
  | newPlain properties => do let _ ← Eval.newObject (.plain properties)
  | newArray elements => do let _ ← Eval.newObject (.array elements)
  | newFunction f => do let _ ← Eval.newFunction f
  | wrap v type => do let _ ← Eval.wrap v type
  | wrapInstance v type => do let _ ← Eval.wrapInstance v type
  | displayNative v => do let _ ← Interop.displayNative v
  | displayScript v => do let _ ← Interop.displayScript v
  | membersOf id declared includeProtected => do let _ ← Eval.membersOf id declared includeProtected

/-- **Every operation keeps every lenient discipline.** -/
theorem Operation.follows {D : Discipline} (hD : D.Lenient) (operation : Operation) : operation.run.Follows D := by
  -- the store is the only part of an operation that matters, so its result is thrown away
  cases operation with
  | getProperty n r key => exact ((callsFollow hD n).getProperty r key).bind fun _ => .pure _
  | hasProperty r key => exact (follows_hasProperty hD r key).bind fun _ => .pure _
  | putProperty n r key v => exact follows_putProperty hD n r key v
  | deleteProperty r key => exact (follows_deleteProperty hD r key).bind fun _ => .pure _
  | objectKeys r => exact (follows_objectKeys hD r).bind fun _ => .pure _
  | readMember n members this name isStatic =>
    exact ((callsFollow hD n).readMember members this name isStatic).bind fun _ => .pure _
  | writeMember n members this name v isStatic => exact follows_writeMember hD n members this name v isStatic
  | callFunction n f this args => exact ((callsFollow hD n).callFunction f this args).bind fun _ => .pure _
  | callOverload n overloads this args =>
    exact ((callsFollow hD n).callOverload overloads this args).bind fun _ => .pure _
  | send n r name args => exact ((callsFollow hD n).send r name args).bind fun _ => .pure _
  | construct n members args => exact (follows_construct hD n members args).bind fun _ => .pure _
  | constructType n id args => exact (follows_constructType hD n id args).bind fun _ => .pure _
  | chooseOverload overloads args => exact (follows_chooseOverload hD overloads args).bind fun _ => .pure _
  | convert d v => exact (follows_convert d (hD.admits d) v).bind fun _ => .pure _
  | newNative o => exact (Eval.Follows.newNative o).bind fun _ => .pure _
  | newPlain properties => exact (Eval.Follows.newObject (o := .plain properties) rfl).bind fun _ => .pure _
  | newArray elements => exact (Eval.Follows.newObject (o := .array elements) rfl).bind fun _ => .pure _
  | newFunction f => exact (Eval.Follows.newFunction f).bind fun _ => .pure _
  | wrap v type => exact (Eval.Follows.wrap v type).bind fun _ => .pure _
  | wrapInstance v type => exact (Eval.Follows.wrapInstance v type).bind fun _ => .pure _
  | displayNative v => exact (follows_displayNative v).bind fun _ => .pure _
  | displayScript v => exact (follows_displayScript v).bind fun _ => .pure _
  | membersOf id declared includeProtected =>
    exact (Eval.Follows.membersOf id declared includeProtected).bind fun _ => .pure _

/-! ## Stores -/

/-- A store that begins with the standard types or with none, and what may become of it. -/
inductive Store.Lived : Store → Prop where
  | standard (config : Config) (wrapPrimitives : Bool) : Lived (.standard config wrapPrimitives)
  | bare (config : Config) (wrapPrimitives : Bool) : Lived (.bare config wrapPrimitives)
  | declare {s : Store} (h : Lived s) (spec : TypeSpec) : Lived (s.declare spec)
  | deny {s : Store} (h : Lived s) (id : TypeId) : Lived { s with types := s.types.deny id }
  | forget {s : Store} (h : Lived s) (id : TypeId) : Lived { s with memberCache := s.memberCache.forget id }
  | bindingsOf {s : Store} (h : Lived s) (id : TypeId) :
    Lived { s with memberCache := (s.memberCache.bindingsOf s.types id).2 }
  | wrapPrimitives {s : Store} (h : Lived s) (wrapPrimitives : Bool) : Lived { s with wrapPrimitives := wrapPrimitives }
  /-- Host code changes what containers and records hold, and the embedder lets go of what it held. -/
  | change {s s' : Store} (h : Lived s) (hchange : s.Change s') : Lived s'
  /-- Whether it ends with a result or stops, an operation leaves a store to go on with. -/
  | operation {s : Store} (h : Lived s) (operation : Operation) : Lived (operation.run.outcome s).2

/-- What an embedder does between operations does not break a discipline either. -/
structure Discipline.Enduring (D : Discipline) : Prop extends D.Lenient where
  standard : ∀ config wrapPrimitives, D.holds (.standard config wrapPrimitives)
  bare : ∀ config wrapPrimitives, D.holds (.bare config wrapPrimitives)
  declare : ∀ {s : Store} (spec : TypeSpec), D.holds s → D.holds (s.declare spec)
  deny : ∀ {s : Store} (id : TypeId), D.holds s → D.holds { s with types := s.types.deny id }
  forget : ∀ {s : Store} (id : TypeId), D.holds s → D.holds { s with memberCache := s.memberCache.forget id }
  bindingsOf : ∀ {s : Store} (id : TypeId), D.holds s →
    D.holds { s with memberCache := (s.memberCache.bindingsOf s.types id).2 }
  wrapPrimitives : ∀ {s : Store} (wrapPrimitives : Bool), D.holds s →
    D.holds { s with wrapPrimitives := wrapPrimitives }

/-- **What endures holds in every lived store.** -/
theorem Store.Lived.holds {D : Discipline} (hD : D.Enduring) {s : Store} (h : s.Lived) : D.holds s := by
  induction h with
  | standard config wrapPrimitives => exact hD.standard config wrapPrimitives
  | bare config wrapPrimitives => exact hD.bare config wrapPrimitives
  | declare _ spec ih => exact hD.declare spec ih
  | deny _ id ih => exact hD.deny id ih
  | forget _ id ih => exact hD.forget id ih
  | bindingsOf _ id ih => exact hD.bindingsOf id ih
  | wrapPrimitives _ wrapPrimitives ih => exact hD.wrapPrimitives wrapPrimitives ih
  | change _ hchange ih => exact D.step hchange ih
  | @operation s _ operation ih => exact (operation.follows hD.toLenient s ih).1

end Interop
