import Interop.Coercion.Adapter
import Interop.Coercion.Enumeration
import Interop.Coercion.Primitive

/-!
# From script to native

`convert` makes a script value into a native value of a type. It fails wherever the rank says so, and for values that
the type cannot represent: numbers out of range, text that is no number, names of no constant, literals of another
value. A wrapped instance of the type comes through as it is. Script arrays fill arrays, lists and sets element by
element, plain objects fill maps and shapes, and a list of another element type is copied with every element
converted.

The recursion follows the type: elements, keys, values and fields are converted to parts of it. Parts that are
converted already are in use while the others are converted.
-/

namespace Interop

/-- How to convert to the parts of a type. -/
structure PartConverters where
  /-- To the component of an array, or to the first type argument. -/
  first : Script → Eval Native
  /-- To the second type argument. -/
  second : Script → Eval Native
  /-- The fields of a shape, read by name. -/
  fields : (String → Eval Script) → Eval (List (String × Native))

/-- The natural native form of a value for which no conversion is requested. -/
def asIs (v : Script) : Eval Native := do
  match v with
  | .undefined => pure .null
  | .null => pure .null
  | .boolean b => pure (.boolean b)
  | .number x => pure (.double x)
  | .string s => pure (.string s)
  | .object _ =>
    match (← get).unwrap? v with
    | some native => pure native
    | none => Eval.newNative (.handle v)
  | .callable _ => Eval.newNative (.handle v)

/-! ## Containers -/

/-- Points a failed conversion at its place in an array. -/
def atElement (i length : Nat) (x : Eval α) : Eval α :=
  tryCatch x fun
    | .failed (.conversion value target) =>
      Eval.fail (.conversion
        (value ++ " at index " ++ toString i ++ " of " ++ ScriptObject.arraySource length) target)
    | stop => throw stop

/-- Converts elements in order, the first one at place `i`. -/
def convertElements (convertOne : Script → Eval Native) (length : Nat) : Nat → List Script → Eval (List Native)
  | _, [] => pure []
  | i, v :: rest => do
    let native ← atElement i length (convertOne v)
    let others ← Eval.holding native.held (convertElements convertOne length (i + 1) rest)
    pure (native :: others)

/-- The kind of collection that a type asks for; a plain collection leaves it open. -/
def kindFor (raw : TypeId) (otherwise : CollectionKind) : CollectionKind :=
  if raw = Standard.list then .list else if raw = Standard.set then .set else otherwise

/-- Converts native elements of a declared type in order. -/
def convertAgain (convertOne : Script → Eval Native) (type : Descriptor) : List Native → Eval (List Native)
  | [] => pure []
  | v :: rest => do
    let native ← convertOne (← Eval.wrap v type)
    let others ← Eval.holding native.held (convertAgain convertOne type rest)
    pure (native :: others)

/-- Converts every element of a list to another element type. -/
def copyList (l : NativeList) (raw : TypeId) (element : Descriptor) (convertOne : Script → Eval Native) :
    Eval Native := do
  let elements ← convertAgain convertOne l.elementType l.elements
  Eval.newNative (.list (.of (kindFor raw l.kind) element elements))

/-- The value of a property of a plain object. -/
def plainProperty (properties : List (String × Script)) (name : String) : Script :=
  (properties.lookup name).getD .undefined

/-- Fills a map from the properties of a plain object. -/
def fillMap (convertKey convertValue : Script → Eval Native) (properties : List (String × Script)) :
    List String → NativeMap → Eval NativeMap
  | [], m => pure m
  | name :: rest, m => do
    let key ← convertKey (.string name)
    let value ← Eval.holding (key.held ++ m.held) (convertValue (plainProperty properties name))
    fillMap convertKey convertValue properties rest (m.insert key value).2

/-! ## Conversion by kind of value -/

def convertBoolean (b : Bool) (target : Target) (failure : Eval Native) : Eval Native :=
  match target with
  | .string => pure (.string (if b then "true" else "false"))
  | .booleanLiteral expected => if expected = b then pure (.boolean b) else failure
  | _ => pure (.boolean b)

def convertNumber (x : Double) (target : Target) (failure : Eval Native) : Eval Native :=
  match target with
  | .numeric kind => ((kind.ofDouble? x).map pure).getD failure
  | .enumeration name => constantByOrdinal name x
  | .string => pure (.string x.scriptText)
  | .numberLiteral expected => if expected.sameValue x then pure (.double x) else failure
  | _ => pure (.double x)

def convertString (text : String) (target : Target) (failure : Eval Native) : Eval Native :=
  match target with
  | .numeric .char => ((parseChar text).map pure).getD failure
  | .numeric kind => ((kind.parse text).map pure).getD failure
  | .enumeration name => constantByName name text
  | .stringLiteral expected => if expected = text then pure (.string text) else failure
  | _ => pure (.string text)

/-- A wrapped native value. -/
def convertWrapped (v : Script) (native : Native) (rank : Rank) (target : Target) (parts : PartConverters)
    (failure : Eval Native) : Eval Native := do
  if rank = .nontrivial then pure native
  else match target with
    | .classRef => pure native
    | .object => pure native
    | .string => pure (.string (← displayNative native))
    | .numeric kind => do
      let x ← match native.toDouble? with
        | some x => pure x
        | none => toNumber v
      ((kind.ofDouble? x).map pure).getD failure
    | .collection raw element =>
      match (← get).list? native with
      | some l => copyList l raw element parts.first
      | none => failure
    | _ => failure

/-- A script object, array or function. -/
def convertGeneric (v : Script) (target : Target) (parts : PartConverters) (failure : Eval Native) :
    Eval Native := do
  let s ← get
  let contents := v.toObject?.map s.object
  match target with
  | .array component =>
    match contents with
    | some (.array elements) => do
      let natives ← convertElements parts.first elements.length 0 elements
      Eval.newNative (.array ⟨component, natives⟩)
    | _ => failure
  | .collection raw element =>
    match contents with
    | some (.array elements) => do
      let natives ← convertElements parts.first elements.length 0 elements
      Eval.newNative (.list (.of (kindFor raw .list) element natives))
    | _ => failure
  | .map key value =>
    match contents with
    | some (.plain properties) => do
      let m ← fillMap parts.first parts.second properties (properties.map (·.1)) (.empty key value)
      Eval.newNative (.map m)
    | _ => failure
  | .objectShape _ =>
    match contents with
    | some (.plain properties) => do
      let fields ← parts.fields fun name => pure (plainProperty properties name)
      let m := fields.foldl (fun m (name, value) => (m.insert (.string name) value).2)
        (NativeMap.empty .string .object)
      Eval.newNative (.map m)
    | _ => failure
  | .interface d => adapterFor v d
  | .functionShape => Eval.newNative (.handle v)
  | .object => Eval.newNative (.handle v)
  | .string => pure (.string (← displayScript v))
  | .number => pure (.double (← toNumber v))
  | .numeric kind => ((kind.ofDouble? (← toNumber v)).map pure).getD failure
  | _ => failure

/-- Converts to a type that is no union, given how to convert to its parts. -/
def convertBy (d : Descriptor) (parts : PartConverters) (v : Script) : Eval Native := do
  let s ← get
  let target ← Eval.ofResult (s.types.targetOf d)
  let rank ← rankTarget v target
  let failure := cannotConvert v d
  if rank.isNone then failure
  else match target with
    | .any => asIs v
    | _ =>
      match v with
      | .undefined => pure (.string "undefined")
      | .null => pure .null
      | .boolean b => convertBoolean b target failure
      | .number x => convertNumber x target failure
      | .string text => convertString text target failure
      | _ =>
        match s.unwrap? v with
        | some native => convertWrapped v native rank target parts failure
        | none => convertGeneric v target parts failure

/-! ## All types -/

/-- The place of the first best rank, and that rank; `place` is the place of the first one. -/
def firstBest (place : Nat) : List Rank → Option (Nat × Rank)
  | [] => none
  | rank :: rest =>
    match firstBest (place + 1) rest with
    | none => some (place, rank)
    | some (i, r) => if rank.value ≤ r.value then some (place, rank) else some (i, r)

mutual

/-- Converts a script value to a type. -/
def convert : Descriptor → Script → Eval Native
  | .union members, v => do
    let rank ← bestRank v members
    if rank.isNone then cannotConvert v (.union members)
    else
      let ranks ← members.mapM (rankOf v)
      match firstBest 0 ranks with
      | some (i, _) => convertAt members i v
      | none => cannotConvert v (.union members)
  | .array component, v =>
    convertBy (.array component) ⟨convert component, asIs, fun _ => pure []⟩ v
  | .parameterized raw args, v =>
    convertBy (.parameterized raw args) ⟨convertAt args 0, convertAt args 1, fun _ => pure []⟩ v
  | .objectShape fields, v =>
    convertBy (.objectShape fields) ⟨asIs, asIs, convertFields fields⟩ v
  | d, v => convertBy d ⟨asIs, asIs, fun _ => pure []⟩ v

/-- Converts to the type at a place; past the end no conversion is requested. -/
def convertAt : List Descriptor → Nat → Script → Eval Native
  | [], _, v => asIs v
  | d :: _, 0, v => convert d v
  | _ :: ds, n + 1, v => convertAt ds n v

/-- Converts the fields of a shape, each read by its name. -/
def convertFields : List (String × Descriptor) → (String → Eval Script) → Eval (List (String × Native))
  | [], _ => pure []
  | (name, d) :: fields, read => do
    let value ← convert d (← read name)
    let others ← Eval.holding value.held (convertFields fields read)
    pure ((name, value) :: others)

end

end Interop
