import Interop.Generics.Inherited
import Interop.Proofs.Descriptor.Substitution

/-!
# What a reference contributes

A reference to a supertype binds type parameters of the type it names to its arguments. What that type knows is carried
through these bindings and merged with what other references contribute. A condition on bindings holds of the result if
it holds of what each of these steps adds.

* **`mem_referenceBindings`**: the bindings of a reference itself.
* **`every_seenThrough`**, **`every_merge`**: conditions on bindings, along one reference.
-/

namespace Interop.TypeTable

variable {t : TypeTable}

/-- A reference binds type parameters of the type that it names to its arguments. -/
theorem mem_referenceBindings {reference : Descriptor} {entry : TypeVar × Descriptor}
    (h : entry ∈ (t.referenceBindings reference).entries) :
    ∃ raw args, reference = .parameterized raw args ∧ entry.2 ∈ args ∧
      ∃ parent d, raw.typeId? = some parent ∧ t.find? parent = some d ∧ entry.1 ∈ d.typeParams := by
  unfold referenceBindings at h
  split at h
  · next raw args =>
    split at h
    · next d hd =>
      obtain ⟨parent, hparent, hfind⟩ := Option.bind_eq_some_iff.mp hd
      have hzip : (Bindings.empty.insertAll (d.typeParams.zip args)).Every fun v e => v ∈ d.typeParams ∧ e ∈ args :=
        Bindings.Every.insertAll (fun _ hentry => List.of_mem_zip hentry) (Bindings.every_empty _)
      obtain ⟨hvar, harg⟩ := hzip entry h
      exact ⟨raw, args, rfl, harg, parent, d, hparent, hfind, hvar⟩
    · cases h
  · cases h

variable {P : TypeVar → Descriptor → Prop}

/-- What is seen through a reference are its own bindings, and those of the supertype carried through them. -/
theorem every_seenThrough {reference : Descriptor} {parent : Bindings}
    (hown : (t.referenceBindings reference).Every P)
    (hparent : parent.Every fun v d => P v (d.substitute (t.referenceBindings reference))) :
    (t.seenThrough reference parent).Every P := by
  refine Bindings.Every.insertAll hown fun entry hentry => ?_
  obtain ⟨known, hknown, rfl⟩ := List.mem_map.mp hentry
  exact hparent known hknown

/-- A property of all bindings is kept when those of a reference are merged in, whichever side wins. -/
theorem every_merge {merged contribution : Bindings} (hmerged : merged.Every P) (hcontribution : contribution.Every P)
    (isSuperclass : Bool) : (merge isSuperclass merged contribution).Every P := by
  unfold merge
  split
  · exact hmerged.insertAll hcontribution
  · exact hmerged.insertMissing hcontribution

end Interop.TypeTable
