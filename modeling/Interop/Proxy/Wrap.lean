import Interop.Store.Basic

/-!
# From native to script

`wrap` gives script code a native value that was obtained through a declared type. Nothing becomes undefined, null
stays null, and inline values become script primitives, unless the store asks for proxies and the declared type is not
primitive. A handle or an adapter gives back the script value it was made for. Every other object gets a proxy.
-/

namespace Interop

/-- An inline value as a script primitive. A character is its code where the declared type is primitive. -/
def Native.bare (v : Native) (type : Descriptor) : Script :=
  match v with
  | .boolean b => .boolean b
  | .string s => .string s
  | .char u => if type.isPrimitive then .number (.ofNat u.toNat) else .string (String.ofList [Text.ofUnit u])
  | _ =>
    match v.toDouble? with
    | some x => .number x
    | none => .null

namespace Store

def addProxy (s : Store) (kind : ProxyKind) (v : Native) (type : Descriptor) : Script × Store :=
  let (r, s) := s.addObject (.proxy ⟨kind, v, type, none⟩)
  (.object r, s)

/-- An object as script code gets it. -/
def wrapObject (s : Store) (r : NativeRef) (type : Descriptor) : Script × Store :=
  match s.native r with
  | .handle v => (v, s)
  | .adapter target _ _ _ => (target, s)
  | .array a => s.addProxy .ofArray (.object r) a.component
  | .list _ => s.addProxy .ofList (.object r) type
  | .map _ => s.addProxy .ofMap (.object r) type
  | .classRef c => s.addProxy .ofClass (.object r) c
  | _ => s.addProxy .ofInstance (.object r) type

/-- A native value as script code gets it. -/
def wrap (s : Store) (v : Native) (type : Descriptor) : Script × Store :=
  match v with
  | .void => (.undefined, s)
  | .null => (.null, s)
  | .object r => s.wrapObject r type
  | _ =>
    if type.isPrimitive || !s.wrapPrimitives then (v.bare type, s)
    else s.addProxy .ofInstance v type

/-- A new instance of a type; it is never turned into a script primitive. -/
def wrapInstance (s : Store) (v : Native) (type : TypeId) : Script × Store :=
  let declared := ((s.types.find? type).map (·.descriptor)).getD .unspecified
  match v with
  | .void => (.null, s)
  | .null => (.null, s)
  | .object r => s.wrapObject r declared
  | _ => s.addProxy .ofInstance v declared

end Store

namespace Eval

def wrap (v : Native) (type : Descriptor) : Eval Script := do
  let (script, s) := (← get).wrap v type
  set s
  pure script

def wrapInstance (v : Native) (type : TypeId) : Eval Script := do
  let (script, s) := (← get).wrapInstance v type
  set s
  pure script

/-- The type whose members a proxy shows, and the declared type; an array has no members. -/
def proxyMembers (r : ObjectRef) (p : Proxy) : Eval Membership := do
  match p.members with
  | some known => pure known
  | none =>
    let s ← get
    let found ← match p.kind with
      | .ofClass =>
        match p.type.typeId? with
        | some id => membersOf id none false
        | none => fail (.unknownType p.type.signature)
      | _ =>
        match s.memberTypeOf? p.value with
        | some id => membersOf id p.type.typeId? false
        | none => fail (.notCallable (p.value.inlineText?.getD ""))
    modify fun s => s.setObject r (.proxy { p with members := some found })
    pure found

end Eval

end Interop
