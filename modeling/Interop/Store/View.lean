import Interop.Store.Basic

/-!
# Taking views

A view follows references as deep as there are objects; a part that would be followed further refers back to a value
around it and is cut.
-/

namespace Interop.Store

mutual

def viewNativeWithin (s : Store) : Nat → Native → View
  | 0, v =>
    match v with
    | .object _ => .cut
    | _ => .native v
  | n + 1, v =>
    match v with
    | .object r =>
      match s.native r with
      | .array a => .nativeArray a.component.signature (a.elements.map (s.viewNativeWithin n))
      | .list l => .nativeList l.kind l.elementType.signature (l.elements.map (s.viewNativeWithin n))
      | .map m =>
        .nativeMap m.keyType.signature m.valueType.signature
          (m.entries.map fun (key, value) => (s.viewNativeWithin n key, s.viewNativeWithin n value))
      | .constant enumName ordinal name => .constant enumName ordinal name
      | .classRef type => .classRef type.signature
      | .record typeName display _ => .record (s.types.typeName (.ofName typeName)) (display.getD typeName)
      | .handle value => .handle (s.viewScriptWithin n value)
      | .adapter target interface _ _ => .adapter interface.signature (s.viewScriptWithin n target)
    | _ => .native v

def viewScriptWithin (s : Store) : Nat → Script → View
  | 0, v =>
    match v with
    | .object _ => .cut
    | .callable r => .function (s.function r).name
    | _ => .script v
  | n + 1, v =>
    match v with
    | .object r =>
      match s.object r with
      | .plain properties =>
        .scriptObject (properties.map fun (name, _) =>
          (name, s.viewScriptWithin n ((properties.lookup name).getD .undefined)))
      | .array elements => .scriptArray (elements.map (s.viewScriptWithin n))
      | .proxy p => .wrapped p.kind.className p.type.signature (s.viewNativeWithin n p.value)
    | .callable r =>
      match s.function r with
      | .closure name _ => .function name
      | .method overloads _ => .method overloads.set.name (overloads.set.candidates.map Callable.signature)
    | _ => .script v

end

/-- What a native value looks like now. -/
def viewNative (s : Store) (v : Native) : View := s.viewNativeWithin s.depth v

/-- What a script value looks like now. -/
def viewScript (s : Store) (v : Script) : View := s.viewScriptWithin s.depth v

/-- Records a call of host code. -/
def recordNative (s : Store) (name : String) (receiver : Option Native) (args : List Native) : Store :=
  { s with calls := .native name (receiver.map s.viewNative) (args.map s.viewNative) :: s.calls }

/-- Records a call of a script function. -/
def recordScript (s : Store) (name : String) (receiver : Script) (args : List Script) : Store :=
  { s with calls := .script name (s.viewScript receiver) (args.map s.viewScript) :: s.calls }

end Interop.Store
