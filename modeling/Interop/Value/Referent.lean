import Interop.Value.Object

/-!
# What holds what

Objects of both sides, script functions and the cells of static fields can be referred to. Whatever refers to one of
them holds it: a container its elements, a proxy its value and the members it has looked up, an adapter its script
value and the members of its interface, a member the cell or the value behind it. `held` lists what a thing holds
directly.
-/

namespace Interop

/-- What can be referred to. -/
inductive Referent where
  | native (ref : NativeRef)
  | object (ref : ObjectRef)
  | function (ref : FunctionRef)
  | cell (ref : CellRef)
  deriving DecidableEq, Hashable, Repr

/-! ## Values -/

def Native.held : Native → List Referent
  | object r => [.native r]
  | _ => []

def Script.held : Script → List Referent
  | object r => [.object r]
  | callable r => [.function r]
  | _ => []

/-! ## Members -/

/-- Host code holds the value it always gives. -/
def HostCode.held : HostCode → List Referent
  | constant v => v.held
  | _ => []

def Invoker.held : Invoker → List Referent
  | host _ code => code.held
  | _ => []

/-- A field holds its cell, or the value it has until it is set. -/
def Storage.held : Storage → List Referent
  | cell r => [.cell r]
  | slot _ unset => unset.held
  | broken _ => []

def Callable.held (c : Callable) : List Referent := c.invoker.held

def OverloadSet.held (o : OverloadSet) : List Referent := o.candidates.flatMap Callable.held

def MemberField.held (f : MemberField) : List Referent := f.storage.held ++ f.methods.toList.flatMap OverloadSet.held

def Property.held (p : Property) : List Referent :=
  p.getter.toList.flatMap Callable.held ++ p.setter.toList.flatMap Callable.held
    ++ p.setters.toList.flatMap OverloadSet.held

def Member.held : Member → List Referent
  | methods set => set.held
  | field accessor => accessor.held
  | property p => p.held

def MemberTable.held (t : MemberTable) : List Referent := t.rows.flatMap fun (_, m) => m.held

def TypeMembers.held (e : TypeMembers) : List Referent :=
  e.instances.held ++ e.statics.held ++ e.constructors.toList.flatMap OverloadSet.held

def Membership.held (m : Membership) : List Referent := m.entry.held

def Overloads.held (o : Overloads) : List Referent := o.set.held

/-- A declared type holds what all its members hold, seen or not. -/
def TypeDecl.held (d : TypeDecl) : List Referent :=
  d.methods.flatMap (fun m => m.invoker.toList.flatMap Invoker.held)
    ++ d.fields.flatMap (fun f => f.storage.toList.flatMap Storage.held)
    ++ d.constructors.flatMap (fun c => c.invoker.toList.flatMap Invoker.held)

/-! ## Objects -/

def NativeMap.held (m : NativeMap) : List Referent := m.entries.flatMap fun (k, v) => k.held ++ v.held

def NativeObject.held : NativeObject → List Referent
  | array a => a.elements.flatMap Native.held
  | list l => l.elements.flatMap Native.held
  | map m => m.held
  | constant _ _ _ => []
  | classRef _ => []
  | record _ _ fields => fields.flatMap fun (_, v) => v.held
  | handle v => v.held
  | adapter target _ members _ => target.held ++ members.held

def ScriptObject.held : ScriptObject → List Referent
  | plain properties => properties.flatMap fun (_, v) => v.held
  | array elements => elements.flatMap Script.held
  | proxy p => p.value.held ++ p.members.toList.flatMap Membership.held

def ScriptFunction.held : ScriptFunction → List Referent
  | closure _ (.constant v) => v.held
  | closure _ _ => []
  | method overloads receiver => overloads.held ++ receiver.toList.flatMap Native.held

end Interop
