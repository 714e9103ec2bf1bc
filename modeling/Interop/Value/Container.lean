import Interop.Value.Object

/-!
# Working on containers

The requests that host code makes of an array, list, set or map, with their answers. A request that a container does
not know has no answer at all; one that it knows may still fail.
-/

namespace Interop

/-- What host code asks of a container. -/
inductive ContainerRequest where
  | size
  /-- The element at an index. -/
  | get (i : Nat)
  | set (i : Nat) (value : Native)
  | add (value : Native)
  /-- Whether a list holds an element, or a map a key. -/
  | contains (value : Native)
  /-- The value of a key. -/
  | lookup (key : Native)
  | insert (key value : Native)
  | erase (key : Native)
  | keys
  deriving Repr

/-- What a container answers. -/
inductive ContainerAnswer where
  | done
  | size (n : Nat)
  | flag (value : Bool)
  /-- An element or value, where there is one. -/
  | value (value : Option Native)
  | values (values : List Native)
  deriving Repr

/-- The answer to a request, with the container as it is afterwards. -/
abbrev ContainerResult (α : Type) := Option (Except Failure (ContainerAnswer × α))

def NativeArray.perform (a : NativeArray) : ContainerRequest → ContainerResult NativeArray
  | .size => some (.ok (.size a.elements.length, a))
  | .get i => some (.ok (.value a.elements[i]?, a))
  | .set i v => some ((a.set i v).map fun a => (.done, a))
  | _ => none

def NativeList.perform (l : NativeList) : ContainerRequest → ContainerResult NativeList
  | .size => some (.ok (.size l.elements.length, l))
  | .get i => some (.ok (.value l.elements[i]?, l))
  | .set i v => some ((l.replaceAt i v).map fun (old, l) => (.value (some old), l))
  | .add v => some (.ok (.flag (l.add v).1, (l.add v).2))
  | .contains v => some (.ok (.flag (l.contains v), l))
  | _ => none

def NativeMap.perform (m : NativeMap) : ContainerRequest → ContainerResult NativeMap
  | .size => some (.ok (.size m.size, m))
  | .lookup key => some (.ok (.value (m.get? key), m))
  | .contains key => some (.ok (.flag (m.contains key), m))
  | .insert key v => some (.ok (.value (m.insert key v).1, (m.insert key v).2))
  | .erase key => some (.ok (.value (m.erase key).1, (m.erase key).2))
  | .keys => some (.ok (.values m.order, m))
  | _ => none

/-- Hands a request to the container that an object is; other objects know no request. -/
def NativeObject.perform : NativeObject → ContainerRequest → ContainerResult NativeObject
  | .array a, request => (a.perform request).map (·.map fun (answer, a) => (answer, .array a))
  | .list l, request => (l.perform request).map (·.map fun (answer, l) => (answer, .list l))
  | .map m, request => (m.perform request).map (·.map fun (answer, m) => (answer, .map m))
  | _, _ => none

end Interop
