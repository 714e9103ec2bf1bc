import Interop.Proofs.Coercion.RoundTrip
import Interop.Proofs.Coercion.Sharing
import Interop.Proofs.Proxy.Properties

/-!
# Elements read and written by index

Script code reads and writes the elements of a wrapped array or list by index. A write converts the value and stores
what comes of it; an array has a place for it below its length, a list also at its length, where it grows by one. The
two check the place at different moments, an array after the conversion and a list before, so that either may be what
stops a write. In all cases a write that stops has stored nothing.

* **`Row`**, **`writeAt`**: the two kinds of containers, and their elements after a write.
* **`Store.ShowsRow`**: proxies of such a container; what is wrapped is one (`showsRow_wrap`).
* **`Store.ShowsRow.outcome_getElement`**, **`outcome_getLength`**: what is read of it.
* **`Store.ShowsRow.outcome_put`**, **`exists_put_error`**: what one write does, and **`succeedsAt_put_iff`**: when it
  succeeds.
* **`putProperty_index`**: when a write succeeds, what is read afterwards, and what is left where it stops.
-/

namespace Interop

/-- Containers that are written by index. -/
inductive Row where
  | array
  | list
  deriving DecidableEq

namespace Row

def proxyKind : Row → ProxyKind
  | array => .ofArray
  | list => .ofList

/-- The container of a component or element type. -/
def container (row : Row) (element : Descriptor) (elements : List Native) : NativeObject :=
  match row with
  | array => .array ⟨element, elements⟩
  | list => .list ⟨.list, element, elements⟩

/-- There is a place to write to: one of the elements, or the end of a list. -/
def Takes : Row → Nat → Nat → Prop
  | array, i, length => i < length
  | list, i, length => i ≤ length

instance : (row : Row) → (i length : Nat) → Decidable (row.Takes i length)
  | array, i, length => inferInstanceAs (Decidable (i < length))
  | list, i, length => inferInstanceAs (Decidable (i ≤ length))

theorem Takes.le {row : Row} {i length : Nat} (h : row.Takes i length) : i ≤ length := by
  cases row with
  | array => exact Nat.le_of_lt h
  | list => exact h

end Row

/-! ## Elements after a write -/

/-- The elements with one of them replaced, or with one more. -/
def writeAt (i : Nat) (v : Native) (elements : List Native) : List Native :=
  if i < elements.length then elements.set i v else elements ++ [v]

section Elements

variable {i : Nat} {elements : List Native}

/-- Writing changes the place that is written and no other. -/
theorem getElem?_writeAt (h : i ≤ elements.length) (v : Native) (j : Nat) :
    (writeAt i v elements)[j]? = if j = i then some v else elements[j]? := by
  unfold writeAt
  grind

/-- The length changes only where the row is written at its end. -/
theorem length_writeAt (h : i ≤ elements.length) (v : Native) :
    (writeAt i v elements).length = if i = elements.length then elements.length + 1 else elements.length := by
  unfold writeAt
  grind

end Elements

/-! ## Proxies of rows -/

/-- A script object is the proxy of an array or list. The proxy of an array shows its component type. -/
structure Store.ShowsRow (s : Store) (r : ObjectRef) (row : Row) (ref : NativeRef) (element : Descriptor)
    (elements : List Native) : Prop where
  proxy : ∃ p, s.object r = .proxy p ∧ p.kind = row.proxyKind ∧ p.value = .object ref ∧
    (row = .array → p.type = element)
  native : s.native ref = row.container element elements

section Rows

variable {s : Store} {ref : NativeRef} {row : Row} {element : Descriptor} {elements : List Native}

theorem Store.array?_of_row (h : s.native ref = Row.array.container element elements) :
    s.array? (.object ref) = some ⟨element, elements⟩ := by
  simp only [array?, h, Row.container]

theorem Store.list?_of_row (h : s.native ref = Row.list.container element elements) :
    s.list? (.object ref) = some ⟨.list, element, elements⟩ := by
  simp only [list?, h, Row.container]

/-- What is set in the place of a row is there: a row is none of the records that stand in for missing objects. -/
theorem Store.native_setNative_row (h : s.native ref = row.container element elements) (o : NativeObject) :
    (s.setNative ref o).native ref = o := by
  refine native_setNative ?_ o
  rw [h]
  cases row <;> exact nofun

/-- **What is wrapped is such a proxy.** -/
theorem Store.showsRow_wrap (h : s.native ref = row.container element elements) (shown : Descriptor) :
    ∃ r, (s.wrap (.object ref) shown).1 = .object r ∧
      (s.wrap (.object ref) shown).2.ShowsRow r row ref element elements := by
  rw [wrap, wrapObject, h]
  cases row with
  | array => exact ⟨_, rfl, ⟨⟨_, s.object_addProxy .., rfl, rfl, fun _ => rfl⟩, h⟩⟩
  | list =>
    refine ⟨_, rfl, ⟨⟨_, s.object_addProxy .., rfl, rfl, ?_⟩, h⟩⟩
    rintro ⟨⟩

end Rows

namespace Store.ShowsRow

variable {s s' : Store} {r : ObjectRef} {row : Row} {ref : NativeRef} {element : Descriptor} {elements : List Native}

/-- The proxy shows the container with other elements, once these are stored. -/
theorem setNative (h : s.ShowsRow r row ref element elements) (hproxies : s.KeepsProxies s')
    (hkept : s'.native ref = s.native ref) (elements' : List Native) :
    (s'.setNative ref (row.container element elements')).ShowsRow r row ref element elements' := by
  obtain ⟨p, hr, hkind, hvalue, htype⟩ := h.proxy
  obtain ⟨noted, hr'⟩ := hproxies r p hr
  exact ⟨⟨_, hr', hkind, hvalue, htype⟩, native_setNative_row (hkept.trans h.native) _⟩

/-! ## Reading -/

/-- An element is read as one of the element type, and what is past the length as nothing. -/
theorem outcome_getElement (h : s.ShowsRow r row ref element elements) (n j : Nat) :
    (getProperty (n + 1) r (.index j)).outcome s = (elements[j]?.mapM (Eval.wrap · element)).outcome s := by
  obtain ⟨p, hr, hkind, hvalue, htype⟩ := h.proxy
  rw [getProperty, Eval.outcome_get_bind, hr]
  cases row with
  | array =>
    simp only [hkind, Row.proxyKind, hvalue, array?_of_row h.native, Option.bind_some, htype rfl]
    cases elements[j]? <;> rfl
  | list =>
    simp only [hkind, Row.proxyKind, hvalue, list?_of_row h.native]
    cases elements[j]? <;> rfl

theorem outcome_getLength (h : s.ShowsRow r row ref element elements) (n : Nat) :
    (getProperty (n + 1) r (.name lengthName)).outcome s = (.ok (some (.number (.ofNat elements.length))), s) := by
  obtain ⟨p, hr, hkind, hvalue, -⟩ := h.proxy
  rw [getProperty, Eval.outcome_get_bind, hr]
  cases row with
  | array => simp [hkind, Row.proxyKind, hvalue, array?_of_row h.native]
  | list => simp [hkind, Row.proxyKind, hvalue, list?_of_row h.native]

/-! ## Writing -/

section Writing

variable {v : Script} {i : Nat}

/-- Writing to a proxy of an array is writing to the array. -/
theorem putProperty_array (h : s.ShowsRow r .array ref element elements) (n : Nat) :
    ∃ p, (putProperty n r (.index i) v).outcome s = (putArrayElement p i v).outcome s ∧ p.value = .object ref ∧
      p.type = element := by
  obtain ⟨p, hr, hkind, hvalue, htype⟩ := h.proxy
  refine ⟨p, ?_, hvalue, htype rfl⟩
  rw [putProperty, Eval.outcome_get_bind, hr]
  simp only [hkind, Row.proxyKind]

theorem putProperty_list (h : s.ShowsRow r .list ref element elements) (n : Nat) :
    ∃ p, (putProperty n r (.index i) v).outcome s = (putListElement p i v).outcome s ∧ p.value = .object ref := by
  obtain ⟨p, hr, hkind, hvalue, -⟩ := h.proxy
  refine ⟨p, ?_, hvalue⟩
  rw [putProperty, Eval.outcome_get_bind, hr]
  simp only [hkind, Row.proxyKind]

/-- **A write with a place and a value stores it.** -/
theorem outcome_put (h : s.ShowsRow r row ref element elements) {native : Native} {s₁ : Store}
    (hconvert : (convert element v).outcome s = (.ok native, s₁)) (hkept : s₁.native ref = s.native ref)
    (hi : row.Takes i elements.length) (n : Nat) :
    (putProperty n r (.index i) v).outcome s =
      (.ok (), s₁.setNative ref (row.container element (writeAt i native elements))) := by
  have hnative := hkept.trans h.native
  cases row with
  | array =>
    obtain ⟨p, hput, hvalue, htype⟩ := h.putProperty_array n
    have hlt : i < elements.length := hi
    rw [hput, putArrayElement, htype, Eval.outcome_bind_of_ok hconvert, Eval.outcome_get_bind, hvalue,
      array?_of_row hnative, writeAt, if_pos hlt]
    dsimp only [Native.toRef?]
    rw [NativeArray.set, if_pos hlt]
    rfl
  | list =>
    obtain ⟨p, hput, hvalue⟩ := h.putProperty_list n
    have hle : i ≤ elements.length := hi
    rw [hput, putListElement, Eval.outcome_get_bind, hvalue, list?_of_row h.native]
    dsimp only
    rw [if_neg (Nat.not_lt.mpr hle), Eval.outcome_bind_of_ok hconvert, Eval.outcome_get_bind, list?_of_row hnative, writeAt]
    dsimp only [Native.toRef?]
    split
    · next hend => rw [if_neg (by omega)]; rfl
    · next hne =>
      have hlt : i < elements.length := by omega
      rw [NativeList.replaceAt, List.getElem?_eq_getElem hlt, if_pos hlt]
      rfl

/-- **A write without a place, or of a value that is not converted, stops and stores nothing.** -/
theorem exists_put_error (h : s.ShowsRow r row ref element elements)
    (hkept : ((convert element v).outcome s).2.native ref = s.native ref)
    (hrefused : ¬((convert element v).SucceedsAt s ∧ row.Takes i elements.length)) (n : Nat) :
    ∃ stop s₁, (putProperty n r (.index i) v).outcome s = (.error stop, s₁) ∧ s₁.native ref = s.native ref := by
  cases row with
  | array =>
    obtain ⟨p, hput, hvalue, htype⟩ := h.putProperty_array n
    rw [hput, putArrayElement, htype]
    rcases hconvert : (convert element v).outcome s with ⟨stop | native, s₁⟩ <;> rw [hconvert] at hkept
    · exact ⟨stop, s₁, Eval.outcome_bind_of_error hconvert, hkept⟩
    · -- only the place is missing
      have hlength : ¬i < elements.length := fun hi => hrefused ⟨⟨native, s₁, hconvert⟩, hi⟩
      rw [Eval.outcome_bind_of_ok hconvert, Eval.outcome_get_bind, hvalue, array?_of_row (hkept.trans h.native)]
      dsimp only [Native.toRef?]
      rw [NativeArray.set, if_neg hlength]
      exact ⟨_, s₁, rfl, hkept⟩
  | list =>
    obtain ⟨p, hput, hvalue⟩ := h.putProperty_list n
    rw [hput, putListElement, Eval.outcome_get_bind, hvalue, list?_of_row h.native]
    dsimp only
    split
    · exact ⟨_, s, rfl, rfl⟩
    · next hplace =>
      rcases hconvert : (convert element v).outcome s with ⟨stop | native, s₁⟩ <;> rw [hconvert] at hkept
      · exact ⟨stop, s₁, Eval.outcome_bind_of_error hconvert, hkept⟩
      · exact absurd ⟨⟨native, s₁, hconvert⟩, Nat.le_of_not_lt hplace⟩ hrefused

/-- A write needs a value and a place, and no more. -/
theorem succeedsAt_put_iff (h : s.ShowsRow r row ref element elements) (i : Nat)
    (hkept : ((convert element v).outcome s).2.native ref = s.native ref) (n : Nat) :
    (putProperty n r (.index i) v).SucceedsAt s ↔
      (convert element v).SucceedsAt s ∧ row.Takes i elements.length := by
  constructor
  · rintro ⟨_, s₂, hput⟩
    by_contra hrefused
    obtain ⟨stop, s₁, hstop, -⟩ := h.exists_put_error hkept hrefused n
    cases hput.symm.trans hstop
  · rintro ⟨⟨native, s₁, hconvert⟩, hi⟩
    rw [hconvert] at hkept
    exact ⟨(), _, h.outcome_put hconvert hkept hi n⟩

end Writing

end Store.ShowsRow

/-- Conversion keeps the proxies there are. -/
theorem keepsProxies_convert (d : Descriptor) (v : Script) (s : Store) : s.KeepsProxies ((convert d v).outcome s).2 :=
  (follows_convert (D := .proxiesOf s) d (.inr fun _ => trivial) v s (.of_objects_eq rfl)).1

section

variable {s : Store} {r : ObjectRef} {row : Row} {ref : NativeRef} {element : Descriptor} {elements : List Native}

/-- **Writes by index store one element or nothing.** For every wrapped array or list, every index and every value whose
conversion leaves the container alone,
* a write succeeds exactly where the value is converted to the element type and there is a place for it, which is below
  the length, or at the length of a list;
* then the value is the element at the index, read as one of the element type, the other elements are read as before,
  and the length is the same, unless the write was at the length and the list has grown by one;
* a write that stops leaves the container as it was; and
* past the length nothing is read. -/
theorem putProperty_index (h : s.ShowsRow r row ref element elements) (i : Nat) {v : Script}
    (hkept : ((convert element v).outcome s).2.native ref = s.native ref) (n : Nat) :
    ((putProperty n r (.index i) v).SucceedsAt s ↔
      (convert element v).SucceedsAt s ∧ row.Takes i elements.length) ∧
    (∀ s₂, (putProperty n r (.index i) v).outcome s = (.ok (), s₂) → ∃ native s₁,
      (convert element v).outcome s = (.ok native, s₁) ∧
      s₂ = s₁.setNative ref (row.container element (writeAt i native elements)) ∧
      (∀ m, (getProperty (m + 1) r (.index i)).outcome s₂ =
        (.ok (some (s₂.wrap native element).1), (s₂.wrap native element).2)) ∧
      (∀ m j, j ≠ i → (getProperty (m + 1) r (.index j)).outcome s₂ =
        (elements[j]?.mapM (Eval.wrap · element)).outcome s₂) ∧
      ∀ m, (getProperty (m + 1) r (.name lengthName)).outcome s₂ = (.ok (some (.number (.ofNat
        (if i = elements.length then elements.length + 1 else elements.length)))), s₂)) ∧
    (∀ stop s₂, (putProperty n r (.index i) v).outcome s = (.error stop, s₂) → s₂.native ref = s.native ref) ∧
    (∀ m j, (getProperty (m + 1) r (.index j)).outcome s = (elements[j]?.mapM (Eval.wrap · element)).outcome s) ∧
    ∀ m j, elements.length ≤ j → (getProperty (m + 1) r (.index j)).outcome s = (.ok none, s) := by
  have hsucceeds := h.succeedsAt_put_iff i hkept n
  refine ⟨hsucceeds, fun s₂ hput => ?_, fun stop s₂ hput => ?_, h.outcome_getElement, fun m j hj => ?_⟩
  · obtain ⟨⟨native, s₁, hconvert⟩, hi⟩ := hsucceeds.mp ⟨(), s₂, hput⟩
    rw [hconvert] at hkept
    have hstored := h.outcome_put hconvert hkept hi n
    rw [hput] at hstored
    cases hstored
    -- the conversion may have changed other objects, but the proxy still shows this container
    have hproxies : s.KeepsProxies s₁ := by
      have := keepsProxies_convert element v s
      rwa [hconvert] at this
    have hafter := h.setNative hproxies hkept (writeAt i native elements)
    refine ⟨native, s₁, hconvert, rfl, fun m => ?_, fun m j hj => ?_, fun m => ?_⟩
    · rw [hafter.outcome_getElement, getElem?_writeAt hi.le, if_pos rfl]
      rfl
    · rw [hafter.outcome_getElement, getElem?_writeAt hi.le, if_neg hj]
    · rw [hafter.outcome_getLength, length_writeAt hi.le]
  · -- the value did not convert, or the index has no place; either way the container was not touched
    have hrefused : ¬((convert element v).SucceedsAt s ∧ row.Takes i elements.length) := by
      intro hplace
      obtain ⟨_, _, hok⟩ := hsucceeds.mpr hplace
      cases hput.symm.trans hok
    obtain ⟨_, _, hstop, hsame⟩ := h.exists_put_error hkept hrefused n
    cases hput.symm.trans hstop
    exact hsame
  · rw [h.outcome_getElement, List.getElem?_eq_none hj]
    rfl

end

/-- An array of two numbers. -/
def Store.twoNumbers : Store :=
  ((Store.standard {} false).addNative (.array ⟨.numeric .int, [.int 1, .int 2]⟩)).2

/-- A word written at the length of the list of words is its second element. A number written at the length of the
array, once this is wrapped, is refused, and the array stays as it is. -/
theorem putProperty_index_atLength :
    (∃ native s₂, (putProperty 1 ⟨0⟩ (.index 1) (.string "5")).outcome .wordLists = (.ok (), s₂) ∧
      (getProperty 1 ⟨0⟩ (.index 1)).outcome s₂ =
        (.ok (some (s₂.wrap native .string).1), (s₂.wrap native .string).2) ∧
      (getProperty 1 ⟨0⟩ (.name lengthName)).outcome s₂ = (.ok (some (.number (.ofNat 2))), s₂)) ∧
    ∃ r s₁, Store.twoNumbers.wrap (.object ⟨0⟩) (.array (.numeric .int)) = (.object r, s₁) ∧
      ¬(putProperty 1 r (.index 2) (.number .one)).SucceedsAt s₁ ∧
      ∀ stop s₂, (putProperty 1 r (.index 2) (.number .one)).outcome s₁ = (.error stop, s₂) →
        s₂.native ⟨0⟩ = Row.array.container (.numeric .int) [.int 1, .int 2] := by
  constructor
  · have hwords : Store.wordLists.ShowsRow ⟨0⟩ .list ⟨0⟩ .string [.string "4"] := ⟨⟨_, rfl, rfl, rfl, nofun⟩, rfl⟩
    have hkept : ((convert .string (.string "5")).outcome .wordLists).2.native ⟨0⟩ = Store.wordLists.native ⟨0⟩ :=
      leavesLists_convert Store.lived_wordLists .string (.string "5") ⟨0⟩ _ rfl
    obtain ⟨hsucceeds, hafter, -⟩ := putProperty_index hwords 1 hkept 1
    obtain ⟨_, s₂, hput⟩ := hsucceeds.mpr ⟨.of_toOption (a := .string "5") (by decide +kernel), by decide⟩
    obtain ⟨native, s₁, -, -, hread, -, hlength⟩ := hafter s₂ hput
    exact ⟨native, s₂, hput, hread 0, hlength 0⟩
  · have harray : Store.twoNumbers.native ⟨0⟩ = Row.array.container (.numeric .int) [.int 1, .int 2] := rfl
    obtain ⟨r, hr, hnumbers⟩ := Store.showsRow_wrap harray (.array (.numeric .int))
    have hkept : ∀ s : Store, ((convert (.numeric .int) (.number .one)).outcome s).2.native ⟨0⟩ = s.native ⟨0⟩ := by
      intro s
      have hone : NumericKind.int.ofDouble? .one = some (.int 1) := by decide +kernel
      rw [outcome_convert_number, hone]
      rfl
    obtain ⟨hsucceeds, -, hsame, -⟩ := putProperty_index hnumbers 2 (hkept _) 1
    refine ⟨r, _, Prod.ext hr rfl, fun h => absurd (hsucceeds.mp h).2 (by decide), fun stop s₂ hput => ?_⟩
    exact (hsame stop s₂ hput).trans hnumbers.native

end Interop
