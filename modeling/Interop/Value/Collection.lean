import Interop.Failure
import Interop.Value.Native

/-!
# Native containers

Arrays have a fixed length. Lists keep what is added; sets ignore a value equal to one they hold, and are read-only
by index. Maps keep their keys in the order of first insertion beside a table of the current values, so that
replacing a value leaves its key in place, and removing a key and inserting it again moves it to the end.
-/

namespace Interop

/-- A fixed-length array. -/
structure NativeArray where
  component : Descriptor
  elements : List Native
  deriving Repr

namespace NativeArray

/-- An array of default elements. -/
def ofLength (component : Descriptor) (n : Nat) : NativeArray :=
  ⟨component, List.replicate n (Native.initialFor component)⟩

/-- Stores into an existing slot; arrays never grow. -/
def set (a : NativeArray) (i : Nat) (v : Native) : Except Failure NativeArray :=
  if i < a.elements.length then .ok { a with elements := a.elements.set i v }
  else .error (.outOfBounds i a.elements.length)

def typeId (a : NativeArray) : TypeId := .ofArray (a.component.typeId?.getD Standard.object)

end NativeArray

/-- A list, or a set in the order of insertion. -/
structure NativeList where
  kind : CollectionKind
  elementType : Descriptor
  elements : List Native
  deriving Repr

namespace NativeList

def contains (l : NativeList) (v : Native) : Bool := l.elements.any (·.same v)

/-- Adds at the end, unless the list is a set that holds the value; says whether it was added. -/
def add (l : NativeList) (v : Native) : Bool × NativeList :=
  if l.kind = .set ∧ l.contains v then (false, l)
  else (true, { l with elements := l.elements ++ [v] })

/-- A list with the given elements added in order. -/
def of (kind : CollectionKind) (elementType : Descriptor) (elements : List Native) : NativeList :=
  elements.foldl (fun l v => (l.add v).2) ⟨kind, elementType, []⟩

/-- Replaces an element of a list, giving the one it held. -/
def replaceAt (l : NativeList) (i : Nat) (v : Native) : Except Failure (Native × NativeList) :=
  match l.elements[i]? with
  | none => .error (.outOfBounds i l.elements.length)
  | some old =>
    match l.kind with
    | .list => .ok (old, { l with elements := l.elements.set i v })
    | .set => .error (.readOnly Standard.setName (toString i))

/-- The id of the list type applied to its element type. -/
def exactTypeId (l : NativeList) : TypeId :=
  .ofParameterized l.kind.typeId [l.elementType.typeId?.getD Standard.object]

end NativeList

/-- A map in the order of first insertion. -/
structure NativeMap where
  keyType : Descriptor
  valueType : Descriptor
  /-- The keys, the earliest inserted first. -/
  order : List Native
  /-- The current value of each key. -/
  table : List (Native × Native)
  deriving Repr

namespace NativeMap

def empty (keyType valueType : Descriptor) : NativeMap := ⟨keyType, valueType, [], []⟩

def size (m : NativeMap) : Nat := m.order.length

def get? (m : NativeMap) (key : Native) : Option Native :=
  (m.table.find? fun (k, _) => k.same key).map (·.2)

def contains (m : NativeMap) (key : Native) : Bool := (m.get? key).isSome

/-- Inserts or replaces, giving the value held before. -/
def insert (m : NativeMap) (key value : Native) : Option Native × NativeMap :=
  match m.get? key with
  | some old =>
    (some old, { m with table := m.table.map fun (k, v) => if k.same key then (k, value) else (k, v) })
  | none => (none, { m with order := m.order ++ [key], table := (key, value) :: m.table })

/-- A map with the given entries inserted in order. -/
def of (keyType valueType : Descriptor) (entries : List (Native × Native)) : NativeMap :=
  entries.foldl (fun m (key, value) => (m.insert key value).2) (empty keyType valueType)

/-- Removes a key, giving the value held before. -/
def erase (m : NativeMap) (key : Native) : Option Native × NativeMap :=
  match m.get? key with
  | some old =>
    (some old,
      { m with
        order := m.order.filter fun k => !k.same key
        table := m.table.filter fun (k, _) => !k.same key })
  | none => (none, m)

/-- The keys and values, the earliest inserted key first. -/
def entries (m : NativeMap) : List (Native × Native) :=
  m.order.filterMap fun k => (m.get? k).map fun v => (k, v)

/-- The id of the map type applied to its key and value types. -/
def exactTypeId (m : NativeMap) : TypeId :=
  .ofParameterized Standard.map
    [m.keyType.typeId?.getD Standard.object, m.valueType.typeId?.getD Standard.object]

end NativeMap

end Interop
