import Interop.Proofs.Coercion.Ranking
import Interop.Proxy.Wrap
import Interop.Store.Declare

/-!
# Ranks ignore content

What is told apart by ranking is said here without ranking: the kind of a script value, and behind a proxy the class of
the native value and the declared element types of a container. Magnitudes, texts, elements, properties and fields are
content. Two values of one shape have the same rank for every type, in one store or in two stores over the same bridge,
so a value that changes keeps its ranks too.

* **`Store.SameShape`**: equal up to content.
* **`Store.SameShape.looksLike`**: ranking sees no more than the shape.
* **`rankOf_ignoresContent`**: equal shapes, equal ranks.
-/

namespace Interop

namespace Store

variable {s s' : Store} {m n : Native}

/-! ## Containers -/

/-- What reads as an array reads as no list and as no map. -/
theorem list?_of_array? {a : NativeArray} (h : s.array? m = some a) : s.list? m = none ∧ s.map? m = none := by
  cases m with
  | object r =>
    rw [array?] at h
    rw [list?, map?]
    cases hr : s.native r <;> rw [hr] at h <;> cases h
    exact ⟨rfl, rfl⟩
  | _ => cases h

/-- What reads as a list reads as no array and as no map. -/
theorem array?_of_list? {l : NativeList} (h : s.list? m = some l) : s.array? m = none ∧ s.map? m = none := by
  cases m with
  | object r =>
    rw [list?] at h
    rw [array?, map?]
    cases hr : s.native r <;> rw [hr] at h <;> cases h
    exact ⟨rfl, rfl⟩
  | _ => cases h

/-- What reads as a map reads as no array and as no list. -/
theorem array?_of_map? {k : NativeMap} (h : s.map? m = some k) : s.array? m = none ∧ s.list? m = none := by
  cases m with
  | object r =>
    rw [map?] at h
    rw [array?, list?]
    cases hr : s.native r <;> rw [hr] at h <;> cases h
    exact ⟨rfl, rfl⟩
  | _ => cases h

/-- Containers of one kind, declared with the same element types, or no containers at all. -/
inductive SameContainer (s : Store) (m : Native) (s' : Store) (n : Native) : Prop where
  | arrays {a b : NativeArray} (hm : s.array? m = some a) (hn : s'.array? n = some b)
    (hcomponent : (a.component == b.component) = true)
  | lists {l k : NativeList} (hm : s.list? m = some l) (hn : s'.list? n = some k) (hkind : l.kind = k.kind)
    (helement : l.elementType.typeId? = k.elementType.typeId?)
  | maps {k l : NativeMap} (hm : s.map? m = some k) (hn : s'.map? n = some l)
    (hkey : k.keyType.typeId? = l.keyType.typeId?) (hvalue : k.valueType.typeId? = l.valueType.typeId?)
  | others (hm : s.array? m = none ∧ s.list? m = none ∧ s.map? m = none)
    (hn : s'.array? n = none ∧ s'.list? n = none ∧ s'.map? n = none)

/-- A class and a container are all that ranking sees of a native value. -/
theorem SameContainer.sight_eq (h : s.SameContainer m s' n) (htype : s.memberTypeOf? m = s'.memberTypeOf? n) :
    s.sight m = s'.sight n := by
  rw [sight, sight, htype]
  cases h with
  | arrays hm hn hcomponent =>
    have hsame := congrArg Descriptor.erase (Descriptor.beq_iff.mp hcomponent)
    rw [Descriptor.erase_canonical, Descriptor.erase_canonical] at hsame
    rw [hm, hn, (list?_of_array? hm).1, (list?_of_array? hm).2, (list?_of_array? hn).1, (list?_of_array? hn).2,
      Option.map_some, Option.map_some, hsame]
  | lists hm hn hkind helement =>
    rw [hm, hn, (array?_of_list? hm).1, (array?_of_list? hm).2, (array?_of_list? hn).1, (array?_of_list? hn).2,
      Option.map_some, Option.map_some, hkind, helement]
  | maps hm hn hkey hvalue =>
    rw [hm, hn, (array?_of_map? hm).1, (array?_of_map? hm).2, (array?_of_map? hn).1, (array?_of_map? hn).2,
      Option.map_some, Option.map_some, hkey, hvalue]
  | others hm hn =>
    obtain ⟨harray, hlist, hmap⟩ := hm
    obtain ⟨harray', hlist', hmap'⟩ := hn
    rw [harray, hlist, hmap, harray', hlist', hmap']

/-! ## Script values -/

/-- Values that differ in content only. -/
inductive SameShape (s : Store) (u : Script) (s' : Store) (v : Script) : Prop where
  /-- Undefined, null, booleans, numbers, strings, plain objects, arrays and functions are what they are. -/
  | bare (hkind : s.kindOf u = s'.kindOf v) (hu : s.unwrap? u = none) (hv : s'.unwrap? v = none)
  /-- Proxies of one kind show native values of one class. -/
  | wrapped {m n : Native} (hkind : s.kindOf u = s'.kindOf v) (hu : s.unwrap? u = some m) (hv : s'.unwrap? v = some n)
    (htype : s.memberTypeOf? m = s'.memberTypeOf? n) (hcontainer : s.SameContainer m s' n)

/-- Values of one shape look alike to ranking: kind, wrapped type and container descriptors are all it asks for. -/
theorem SameShape.looksLike {u v : Script} (h : s.SameShape u s' v) : s.LooksLike u s' v := by
  cases h with
  | bare hkind hu hv =>
    refine ⟨hkind, ?_⟩
    rw [hu, hv]
    rfl
  | wrapped hkind hu hv htype hcontainer =>
    refine ⟨hkind, ?_⟩
    rw [hu, hv, Option.map_some, Option.map_some, hcontainer.sight_eq htype]

end Store

/-- **Ranks never depend on content.** Two values of one shape, in stores over one bridge, have the same rank for every
type, and ranking them has the same effect on the bridge. -/
theorem rankOf_ignoresContent {s s' : Store} (hbridge : s.SameBridge s') {u v : Script} (h : s.SameShape u s' v)
    (d : Descriptor) :
    ((rankOf u d).outcome s).1 = ((rankOf v d).outcome s').1 ∧
      ((rankOf u d).outcome s).2.SameBridge ((rankOf v d).outcome s').2 := by
  obtain ⟨hresult, hleft⟩ := rankOf_endAlike d hbridge h.looksLike
  exact ⟨hresult, hleft⟩

/-! ## Shelves -/

/-- A list of titles and a script array, the list with a proxy of its own. -/
def Store.shelf (titles : List Native) (notes : List Script) : Store :=
  let filled := ((Store.standard {} false).addNative (.list (.of .list .string titles))).2
  let shown := (filled.addProxy .ofList (.object ⟨0⟩) .object).2
  (shown.addObject (.array notes)).2

/-- The list is an instance of the inner union, whatever it holds, and the array fills an array of any length. -/
theorem rankOf_ignoresContent_shelves :
    ((rankOf (.object ⟨0⟩) (.union [.array .string, .union [.boolean, .plain Standard.listName]])).outcome
        (.shelf [] [])).1 =
      ((rankOf (.object ⟨0⟩) (.union [.array .string, .union [.boolean, .plain Standard.listName]])).outcome
        (.shelf [.string "Emma", .null] [.number .nan, .undefined])).1 ∧
    ((rankOf (.object ⟨1⟩) (.array (.numeric .byte))).outcome (.shelf [] [])).1 =
      ((rankOf (.object ⟨1⟩) (.array (.numeric .byte))).outcome
        (.shelf [.string "Emma", .null] [.number .nan, .undefined])).1 ∧
    ((rankOf (.object ⟨0⟩) (.union [.array .string, .union [.boolean, .plain Standard.listName]])).outcome
        (.shelf [] [])).1.toOption = some .nontrivial := by
  have hbridge : (Store.shelf [] []).SameBridge
      (.shelf [.string "Emma", .null] [.number .nan, .undefined]) := ⟨rfl, rfl, rfl⟩
  have hlist : (Store.shelf [] []).SameShape (.object ⟨0⟩)
      (.shelf [.string "Emma", .null] [.number .nan, .undefined]) (.object ⟨0⟩) :=
    .wrapped rfl rfl rfl rfl (.lists rfl rfl rfl rfl)
  have harray : (Store.shelf [] []).SameShape (.object ⟨1⟩)
      (.shelf [.string "Emma", .null] [.number .nan, .undefined]) (.object ⟨1⟩) := .bare rfl rfl rfl
  exact ⟨(rankOf_ignoresContent hbridge hlist _).1, (rankOf_ignoresContent hbridge harray _).1, by decide +kernel⟩

end Interop
