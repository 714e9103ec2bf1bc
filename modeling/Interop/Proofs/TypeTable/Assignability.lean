import Interop.Proofs.Descriptor.Same
import Interop.Proofs.TypeTable.Ancestry

/-!
# Assignability is a preorder

`isAssignable` compares erasures: by id where both sides are named types, component by component where both are arrays.
Two facts carry everything that is said about it. It does not tell descriptors apart that are the same
(`isAssignable_congr`), and where the root type has no supertypes it is transitive (`isAssignable_trans`). The
induction is on the array nesting of the upper descriptor; the one case in which an array meets a named type is the
root type, above which there is nothing else.
-/

namespace Interop

-- ids are compared as they stand; unfolding one means computing a digest
attribute [local irreducible] TypeId.ofName

namespace TypeTable

/-! ## One equation for each pair of shapes -/

/-- An array is assignable to one of an equal component, or of a component above its own where neither is primitive. -/
theorem isAssignableErased_arrays (t : TypeTable) (c c' : Descriptor) :
    t.isAssignableErased (.array c) (.array c')
      = (c == c' || (!c.isPrimitive && !c'.isPrimitive && t.isAssignableErased c c')) := by
  rw [isAssignableErased]

/-- An array can stand for a type that is no array only if that is the root type. -/
theorem isAssignableErased_from_array (t : TypeTable) {target : Descriptor} (c : Descriptor)
    (htarget : target.isArray = false) :
    t.isAssignableErased target (.array c) = (target.typeId? == some Standard.object) := by
  cases target <;> simp_all [isAssignableErased, Descriptor.isArray]

theorem isAssignableErased_to_array (t : TypeTable) {source : Descriptor} (c : Descriptor)
    (hsource : source.isArray = false) : t.isAssignableErased (.array c) source = false := by
  cases source <;> simp_all [isAssignableErased, Descriptor.isArray]

/-- Types that are no arrays are compared by id. -/
theorem isAssignableErased_named (t : TypeTable) {target source : Descriptor}
    (htarget : target.isArray = false) (hsource : source.isArray = false) :
    t.isAssignableErased target source = true ↔
      ∃ sub sup, source.typeId? = some sub ∧ target.typeId? = some sup ∧ t.isSubtype sub sup = true := by
  unfold isAssignableErased
  split
  · simp [Descriptor.isArray] at htarget
  · simp [Descriptor.isArray] at hsource
  · simp [Descriptor.isArray] at htarget
  · cases source.typeId? <;> cases target.typeId? <;> simp

theorem isArray_eq_true_iff {d : Descriptor} : d.isArray = true ↔ ∃ c, d = .array c := by
  cases d <;> simp [Descriptor.isArray]

theorem isArray_eq_false {d : Descriptor} (h : ∀ c, d = .array c → False) : d.isArray = false := by
  cases harray : d.isArray with
  | false => rfl
  | true =>
    obtain ⟨c, hc⟩ := isArray_eq_true_iff.mp harray
    exact (h c hc).elim

/-! ## Descriptors that are the same -/

/-- A type that is no array has a canonical form that is none. -/
theorem isArray_canonical_eq_false {d : Descriptor} (h : ∀ c, d = .array c → False) : d.canonical.isArray = false :=
  (Descriptor.isArray_canonical d).trans (isArray_eq_false h)

/-- Assignability does not depend on how either side is spelled. -/
theorem isAssignableErased_canonical (t : TypeTable) (target source : Descriptor) :
    t.isAssignableErased target.canonical source.canonical = t.isAssignableErased target source := by
  fun_induction isAssignableErased t target source with
  | case1 c c' ih =>
    simp only [Descriptor.canonical, isAssignableErased_arrays, Descriptor.beq_canonical,
      Descriptor.isPrimitive_canonical, ih]
  | case2 target c htarget =>
    rw [Descriptor.canonical, isAssignableErased_from_array t _ (isArray_canonical_eq_false htarget),
      Descriptor.typeId?_canonical]
  | case3 c source hsource =>
    rw [Descriptor.canonical, isAssignableErased_to_array t _ (isArray_canonical_eq_false hsource)]
  | case4 target source _ hsource htarget sub sup hsup hsub =>
    -- types that are no arrays are compared by id, and canonical forms keep it
    rw [Bool.eq_iff_iff, isAssignableErased_named t (isArray_canonical_eq_false htarget)
      (isArray_canonical_eq_false hsource)]
    simp [hsub, hsup]
  | case5 target source _ hsource htarget hnone =>
    rw [Bool.eq_false_iff, Ne, isAssignableErased_named t (isArray_canonical_eq_false htarget)
      (isArray_canonical_eq_false hsource)]
    rintro ⟨sub, sup, hsub, hsup, -⟩
    exact hnone sub sup (by simpa using hsub) (by simpa using hsup)

/-- Assignability does not tell descriptors apart that are the same. -/
theorem isAssignable_congr (t : TypeTable) {target target' source source' : Descriptor}
    (htarget : target.canonical = target'.canonical) (hsource : source.canonical = source'.canonical) :
    t.isAssignable target source = t.isAssignable target' source' := by
  have hsame : (target == source) = (target' == source') := by
    rw [← Descriptor.beq_canonical target, ← Descriptor.beq_canonical target', htarget, hsource]
  rw [isAssignable, isAssignable, hsame, ← isAssignableErased_canonical t target.erase,
    ← isAssignableErased_canonical t target'.erase]
  simp only [← Descriptor.erase_canonical, htarget, hsource]

/-- Between arrays it is decided on the erased components. -/
theorem isAssignable_arrays (t : TypeTable) (c c' : Descriptor) :
    t.isAssignable (.array c) (.array c') = t.isAssignableErased (.array c.erase) (.array c'.erase) := by
  rw [isAssignable]
  by_cases hsame : (Descriptor.array c == .array c') = true
  · have herased : (c.erase == c'.erase) = true := by
      have hcanonical := Descriptor.beq_iff.mp hsame
      simp only [Descriptor.canonical, Descriptor.array.injEq] at hcanonical
      rw [Descriptor.beq_iff, ← Descriptor.erase_canonical, hcanonical, Descriptor.erase_canonical]
    rw [hsame, isAssignableErased_arrays, herased]
    rfl
  · rw [Bool.eq_false_iff.mpr hsame]
    rfl

/-! ## Transitivity -/

section Transitivity

variable {t : TypeTable} (hroot : t.parents Standard.object = [])
include hroot

/-- Erased assignability is transitive where nothing is above the root type; the induction is on the target, for
components of arrays. -/
theorem isAssignableErased_trans {target middle source : Descriptor}
    (hupper : t.isAssignableErased target middle = true) (hlower : t.isAssignableErased middle source = true) :
    t.isAssignableErased target source = true := by
  fun_induction isAssignableErased t target middle generalizing source with
  | case1 c c' ih =>
    by_cases hs : source.isArray = true
    · -- three arrays: their components are the same, or related one level down
      obtain ⟨c'', rfl⟩ := isArray_eq_true_iff.mp hs
      rw [isAssignableErased_arrays] at hlower ⊢
      simp only [Bool.or_eq_true, Bool.and_eq_true, Bool.not_eq_true', Descriptor.beq_iff] at hupper hlower ⊢
      rcases hupper with hsame | ⟨⟨hc, hc'⟩, hup⟩
      · rw [hsame, ← Descriptor.isPrimitive_canonical c, ← isAssignableErased_canonical t c, hsame,
          isAssignableErased_canonical, Descriptor.isPrimitive_canonical]
        exact hlower
      · rcases hlower with hsame | ⟨⟨-, hc''⟩, hlow⟩
        · rw [← hsame, ← Descriptor.isPrimitive_canonical c'', ← isAssignableErased_canonical t c, ← hsame,
            isAssignableErased_canonical, Descriptor.isPrimitive_canonical]
          exact .inr ⟨⟨hc, hc'⟩, hup⟩
        · exact .inr ⟨⟨hc, hc''⟩, ih hup hlow⟩
    · rw [isAssignableErased_to_array t _ (by simpa using hs)] at hlower
      cases hlower
  | case2 target c htarget =>
    -- above an array that is no array stands the root type, which takes every array
    have hnot : target.isArray = false := isArray_eq_false htarget
    by_cases hs : source.isArray = true
    · obtain ⟨c', rfl⟩ := isArray_eq_true_iff.mp hs
      rw [isAssignableErased_from_array t _ hnot]
      exact hupper
    · rw [isAssignableErased_to_array t _ (by simpa using hs)] at hlower
      cases hlower
  | case3 c middle hmiddle => cases hupper
  | case4 target middle _ hmiddle htarget sub sup hsup hsub =>
    have htarget' : target.isArray = false := isArray_eq_false htarget
    have hmiddle' : middle.isArray = false := isArray_eq_false hmiddle
    by_cases hs : source.isArray = true
    · -- the middle one is the root type, so the upper one is
      obtain ⟨c, rfl⟩ := isArray_eq_true_iff.mp hs
      rw [isAssignableErased_from_array t _ hmiddle', hsub, beq_iff_eq, Option.some.injEq] at hlower
      rw [isAssignableErased_from_array t _ htarget', hsup, beq_iff_eq, Option.some.injEq]
      exact eq_object_of_isSubtype hroot (hlower ▸ hupper)
    · have hs' : source.isArray = false := by simpa using hs
      obtain ⟨low, mid, hlow, hmid, hsubtype⟩ := (isAssignableErased_named t hmiddle' hs').mp hlower
      obtain rfl : sub = mid := Option.some.inj (hsub.symm.trans hmid)
      exact (isAssignableErased_named t htarget' hs').mpr
        ⟨low, sup, hlow, hsup, isSubtype_trans hroot hsubtype hupper⟩
  | case5 => cases hupper

/-- **Assignability is transitive** where the root type has no supertypes. -/
theorem isAssignable_trans {target middle source : Descriptor}
    (hupper : t.isAssignable target middle = true) (hlower : t.isAssignable middle source = true) :
    t.isAssignable target source = true := by
  by_cases hsame : (target == middle) = true
  · rw [isAssignable_congr t (Descriptor.beq_iff.mp hsame) rfl]
    exact hlower
  by_cases hsame' : (middle == source) = true
  · rw [← isAssignable_congr t rfl (Descriptor.beq_iff.mp hsame')]
    exact hupper
  simp only [isAssignable, hsame, hsame', Bool.false_or] at hupper hlower ⊢
  rw [isAssignableErased_trans hroot hupper hlower, Bool.or_true]

end Transitivity

/-! ## The preorder and its shape

Reflexivity and transitivity alone would hold of a test that lets everything through. What the test says of two types
is fixed by their erasures: named types stand to each other as their ids do, and arrays as their components do. -/

theorem isAssignable_refl (t : TypeTable) (d : Descriptor) : t.isAssignable d d = true := by
  rw [isAssignable, Descriptor.beq_iff.mpr rfl, Bool.true_or]

/-- Types that erase to no arrays stand to each other as their ids do. -/
theorem isAssignable_eq_isSubtype (t : TypeTable) {target source : Descriptor} {sup sub : TypeId}
    (htarget : target.erase.isArray = false) (hsource : source.erase.isArray = false)
    (hsup : target.typeId? = some sup) (hsub : source.typeId? = some sub) :
    t.isAssignable target source = t.isSubtype sub sup := by
  have herased : t.isAssignableErased target.erase source.erase = t.isSubtype sub sup := by
    rw [Bool.eq_iff_iff, isAssignableErased_named t htarget hsource]
    simp [Descriptor.typeId?_erase, hsup, hsub]
  rw [isAssignable, herased]
  by_cases hsame : (target == source) = true
  · -- the same type has one id
    have hids : sup = sub := by
      have hcanonical := congrArg Descriptor.typeId? (Descriptor.beq_iff.mp hsame)
      rw [Descriptor.typeId?_canonical, Descriptor.typeId?_canonical, hsup, hsub] at hcanonical
      exact Option.some.inj hcanonical
    rw [hids, isSubtype_refl, Bool.or_true]
  · rw [Bool.eq_false_iff.mpr hsame, Bool.false_or]

/-- Arrays are invariant in primitive components and covariant in all others. -/
theorem isAssignable_components (t : TypeTable) (c c' : Descriptor) :
    t.isAssignable (.array c) (.array c') =
      if c.erase.isPrimitive || c'.erase.isPrimitive then c.erase == c'.erase
      else t.isAssignable c.erase c'.erase := by
  rw [isAssignable_arrays, isAssignableErased_arrays]
  split
  · next hprimitive =>
    rcases Bool.or_eq_true _ _ ▸ hprimitive with h | h <;> simp [h]
  · next hreference =>
    obtain ⟨hc, hc'⟩ : c.erase.isPrimitive = false ∧ c'.erase.isPrimitive = false := by simpa using hreference
    simp [hc, hc', isAssignable]

/-- **Assignability is a preorder** on every table in which the root type has no supertypes: subtyping is reflexive and
transitive on all ids, and assignability on all descriptors. It is the subtype relation on types that erase to no
arrays, and goes through the components of arrays. -/
theorem assignability_preorder {t : TypeTable} (hroot : t.parents Standard.object = []) :
    (∀ id, t.isSubtype id id = true) ∧
    (∀ a b c, t.isSubtype a b = true → t.isSubtype b c = true → t.isSubtype a c = true) ∧
    (∀ d, t.isAssignable d d = true) ∧
    (∀ target middle source, t.isAssignable target middle = true → t.isAssignable middle source = true →
      t.isAssignable target source = true) ∧
    (∀ target source sup sub, target.erase.isArray = false → source.erase.isArray = false →
      target.typeId? = some sup → source.typeId? = some sub →
      t.isAssignable target source = t.isSubtype sub sup) ∧
    ∀ c c', t.isAssignable (.array c) (.array c') =
      if c.erase.isPrimitive || c'.erase.isPrimitive then c.erase == c'.erase
      else t.isAssignable c.erase c'.erase :=
  ⟨t.isSubtype_refl, fun _ _ _ => isSubtype_trans hroot, t.isAssignable_refl, fun _ _ _ => isAssignable_trans hroot,
    fun _ _ _ _ => t.isAssignable_eq_isSubtype, t.isAssignable_components⟩

/-- Where two classes extend one another, an array of arrays of the far class can stand for one of the near class, which
can stand for an array of arrays of its interface; and no array of an interface can stand for an array of numbers. -/
theorem assignability_preorder_circle :
    circle.parents Standard.object = [] ∧
    circle.isSubtype (.ofName "demo.Far") (.ofName "demo.Named") = true ∧
    circle.isAssignable (.array (.array (.interface "demo.Named" false))) (.array (.array (.plain "demo.Far"))) = true ∧
    circle.isAssignable (.array (.plain "int")) (.array (.interface "demo.Named" false)) = false := by
  have hroot : circle.parents Standard.object = [] := by decide +kernel
  obtain ⟨-, htrans, -, htransArray, hnamed, hcomponents⟩ := assignability_preorder hroot
  refine ⟨hroot, ?_, ?_, ?_⟩
  · exact htrans _ (.ofName "demo.Near") _ (by decide +kernel) (by decide +kernel)
  · exact htransArray _ (.array (.array (.plain "demo.Near"))) _ (by decide +kernel) (by decide +kernel)
  · rw [hcomponents]
    decide +kernel

end TypeTable

end Interop
