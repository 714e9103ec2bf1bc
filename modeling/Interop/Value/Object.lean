import Interop.Member.Cache
import Interop.Value.Collection
import Interop.Value.Script

/-!
# Objects

What references refer to. Native objects are containers, enum constants, classes, records with named fields, handles
that carry a script value through native code, and adapters that make a script value implement an interface. Script
objects are plain objects, arrays, and proxies through which script code sees a native value.
-/

namespace Interop

/-! ## The native side -/

/-- What an adapter is kept under: the script value and the interface. -/
abbrev AdapterKey := Identity × TypeId

inductive NativeObject where
  | array (array : NativeArray)
  | list (list : NativeList)
  | map (map : NativeMap)
  | constant (enumName : String) (ordinal : Nat) (name : String)
  /-- A class itself, as opposed to an instance of it. -/
  | classRef (type : Descriptor)
  /-- An object with named fields; `display` is its text, if it has one of its own. -/
  | record (typeName : String) (display : Option String) (fields : List (String × Native))
  /-- A script value passed through native code as it is. -/
  | handle (value : Script)
  /-- A script value that implements an interface; `key` is what it is kept under, where adapters are kept at all. -/
  | adapter (target : Script) (interface : Descriptor) (members : Membership) (key : Option AdapterKey)
  deriving Repr

namespace NativeObject

/-- The class of an object. -/
def typeId : NativeObject → TypeId
  | array a => a.typeId
  | list l => l.kind.typeId
  | map _ => Standard.map
  | constant enumName _ _ => .ofName enumName
  | classRef _ => Standard.class_
  | record typeName _ _ => .ofName typeName
  | handle _ => Standard.scriptHandle
  | adapter _ _ members _ => members.entry.typeId

/-- The class of an object with the element types of lists and maps folded in. -/
def exactTypeId : NativeObject → TypeId
  | list l => l.exactTypeId
  | map m => m.exactTypeId
  | o => o.typeId

/-- The key of an adapter that is kept under one. -/
def cacheKey? : NativeObject → Option AdapterKey
  | adapter _ _ _ key => key
  | _ => none

/-- Sets a named field. -/
def setField (name : String) (value : Native) : List (String × Native) → List (String × Native)
  | [] => [(name, value)]
  | (n, v) :: rest => if n = name then (n, value) :: rest else (n, v) :: setField name value rest

/-- A record of a type; a type without a name is named by its signature. -/
def newRecord (type : Descriptor) (display : Option String) (fields : List (String × Native)) : NativeObject :=
  record ((type.erase.name?).getD type.signature) display
    (fields.foldl (fun fs (name, value) => setField name value fs) [])

end NativeObject

/-! ## The script side -/

/--
The body of a script function. Script code may be anything; here it is one of a few operations that neither loop nor
call other functions, though a property may be one that native code gives. What is proved of computations that call
functions is proved for bodies of these forms only.
-/
inductive FunctionCode where
  /-- Gives one value, the same on every call. -/
  | constant (value : Script)
  /-- Gives an argument, undefined if it is missing. -/
  | argument (i : Nat)
  | receiver
  /-- Gives the first argument as a number, multiplied by a factor. -/
  | scale (factor : Double)
  /-- Gives a property of an argument. -/
  | property (i : Nat) (key : PropertyKey)
  | raise (text : String)
  deriving Repr

inductive ScriptFunction where
  | closure (name : String) (code : FunctionCode)
  /-- Native methods as a function, bound to a receiver or taking it from the call. -/
  | method (overloads : Overloads) (receiver : Option Native)
  deriving Repr

def ScriptFunction.name : ScriptFunction → String
  | closure name _ => name
  | method overloads _ => overloads.set.name

/-- What kind of native value a proxy stands for. -/
inductive ProxyKind where
  | ofInstance
  | ofList
  | ofMap
  | ofArray
  | ofClass
  deriving DecidableEq, Repr

/-- A native value as script code sees it. -/
structure Proxy where
  kind : ProxyKind
  value : Native
  /-- The declared type of the value; for an array its component type, for a class the class. -/
  type : Descriptor
  /-- The members, once they have been looked up. -/
  members : Option Membership
  deriving Repr

def ProxyKind.className : ProxyKind → String
  | ofInstance => "NativeObject"
  | ofList => "NativeList"
  | ofMap => "NativeMap"
  | ofArray => "NativeArray"
  | ofClass => "NativeClass"

def ProxyKind.kindOf : ProxyKind → ValueKind
  | ofArray => .nativeArray
  | ofClass => .nativeClass
  | _ => .nativeObject

inductive ScriptObject where
  | plain (properties : List (String × Script))
  | array (elements : List Script)
  | proxy (proxy : Proxy)
  deriving Repr

namespace ScriptObject

def className : ScriptObject → String
  | plain _ => "Object"
  | array _ => "Array"
  | proxy p => p.kind.className

def kindOf : ScriptObject → ValueKind
  | plain _ => .scriptObject
  | array _ => .scriptArray
  | proxy p => p.kind.kindOf

/-- What failures call a script array of a length. -/
def arraySource (length : Nat) : String := "script array of length " ++ toString length

/-- The native value behind a proxy. -/
def native? : ScriptObject → Option Native
  | proxy p => some p.value
  | _ => none

end ScriptObject

end Interop
