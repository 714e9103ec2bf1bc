import Interop.Member.Inheritance
import Interop.Proofs.Descriptor.Positions
import Interop.Proofs.Descriptor.Same

/-!
# Erasure is stable

There are two ways to get rid of type variables. One erases a type as a whole, so that its arguments are lost; the other
puts the erasure of its bound in the place of every variable, so that the form of the type stays. Each of them keeps the
id, by which members are told apart and types compared. What an erased bound mentions stays behind, so the second
way ends without variables exactly if no erased bound mentions one. That can happen only where a literal type stands in a
bound: its parts are not erased.

* **`typeId?_eraseVariables`**: the id is kept.
* **`mentionsVariables_eraseVariables_iff`**: which variables are left; **`mentionsVariables_eraseVariables`**: none is in
  a declared type.
* **`erasure_stable`**: both ways keep the id, and neither has anything to do a second time.
-/

namespace Interop

namespace Descriptor

/-! ## Ids -/

/-- The id of a type is that of the type with its variables erased. -/
theorem typeId?_eraseVariables (d : Descriptor) : d.eraseVariables.typeId? = d.typeId? := by
  rw [eraseVariables_eq]
  cases d with
  | array c => rw [replaceVariables_array, ← eraseVariables_eq, typeId?, typeId?, typeId?_eraseVariables c]
  | parameterized raw =>
    -- the id is that of the raw slot, which is not entered
    rw [replaceVariables_parameterized, typeId?, typeId?]
  | typeVar v bound => rw [replaceVariables_typeVar, Option.getD_some, typeId?_erase, typeId?]
  | union => rw [replaceVariables_union]; rfl
  | objectShape => rw [replaceVariables_objectShape]; rfl
  | functionShape => rw [replaceVariables_functionShape]; rfl
  | _ => rfl

/-! ## Variables that are left -/

/-- **A variable is left exactly if the erasure of a bound mentions one.** -/
theorem mentionsVariables_eraseVariables_iff (d : Descriptor) :
    d.eraseVariables.mentionsVariables = false ↔ d.EveryVar fun _ bound => bound.erase.mentionsVariables = false := by
  induction d using partsInduction with
  | var v bound => rw [everyVar_typeVar, eraseVariables_eq, replaceVariables_typeVar, Option.getD_some]
  | other d hd ih =>
    rw [everyVar_iff hd, eraseVariables_eq, mentionsVariables_eq_false_iff_parts (isVariable_replaceVariables _ hd),
      parts_replaceVariables _ hd, List.forall_mem_map]
    exact forall₂_congr ih

/-- The bounds in a type without literal types have none either. -/
theorem everyVar_of_isDeclared (d : Descriptor) (hd : d.isDeclared = true) :
    d.EveryVar fun _ bound => bound.isDeclared = true := by
  induction d using partsInduction with
  | var v bound => exact everyVar_typeVar.mpr hd
  | other d hvariable ih =>
    refine (everyVar_iff hvariable).mpr fun e he => ih e he ?_
    cases d with
    | array c => exact List.mem_singleton.mp he ▸ hd
    | parameterized raw args => exact (isDeclared_parameterized.mp hd).2 e he
    | unspecified | plain | enumeration | interface => cases he
    | typeVar => cases hvariable
    | _ => cases hd

/-- None is left where no bound has literal types in it: an erased bound is a named type then. -/
theorem mentionsVariables_eraseVariables_of_bounds {d : Descriptor}
    (h : d.EveryVar fun _ bound => bound.isDeclared = true) : d.eraseVariables.mentionsVariables = false :=
  (mentionsVariables_eraseVariables_iff d).mpr fun path v bound hpath =>
    mentionsVariables_erase bound (h path v bound hpath)

/-- **No variable is left in a declared type**, also where bounds mention others. -/
theorem mentionsVariables_eraseVariables (d : Descriptor) (hd : d.isDeclared = true) :
    d.eraseVariables.mentionsVariables = false :=
  mentionsVariables_eraseVariables_of_bounds (everyVar_of_isDeclared d hd)

/-- Where no variable is mentioned there is nothing to erase. -/
theorem eraseVariables_eq_self {d : Descriptor} (h : d.mentionsVariables = false) : d.eraseVariables = d := by
  rw [eraseVariables, (eraseVariables?_eq_none_iff d).mpr h, Option.getD_none]

/-- **Erasure is stable and keeps the id.** A type that is erased has the id that it had and is not changed by a second
erasure. One in which the variables are erased has the id that it had, and a variable is left exactly if the erasure of
a bound mentions one. None is left, and there is nothing to do a second time, where the bounds are free of literal types,
as they are in every type that is free of them. -/
theorem erasure_stable (d : Descriptor) :
    d.erase.erase = d.erase ∧ d.erase.typeId? = d.typeId? ∧ d.eraseVariables.typeId? = d.typeId? ∧
      (d.eraseVariables.mentionsVariables = false ↔ d.EveryVar fun _ bound => bound.erase.mentionsVariables = false) ∧
      (d.isDeclared = true → d.EveryVar fun _ bound => bound.isDeclared = true) ∧
      ((d.EveryVar fun _ bound => bound.isDeclared = true) →
        d.eraseVariables.mentionsVariables = false ∧ d.eraseVariables.eraseVariables = d.eraseVariables) := by
  refine ⟨erase_erase d, typeId?_erase d, typeId?_eraseVariables d, mentionsVariables_eraseVariables_iff d,
    everyVar_of_isDeclared d, fun hbounds => ?_⟩
  have hnone := mentionsVariables_eraseVariables_of_bounds hbounds
  exact ⟨hnone, eraseVariables_eq_self hnone⟩

/-- A variable whose bound mentions another one, which goes with the arguments of the bound. -/
def recursivelyBounded : Descriptor :=
  typeVar ⟨.empty, "T"⟩ (parameterized (interface "host.Comparable" false) [loose "U"])

theorem erasure_stable_recursivelyBounded :
    (array recursivelyBounded).isDeclared = true ∧
      (array recursivelyBounded).eraseVariables.mentionsVariables = false ∧
      (array recursivelyBounded).eraseVariables.eraseVariables = array (interface "host.Comparable" false) := by
  obtain ⟨-, -, -, -, hbounds, hgone⟩ := erasure_stable (array recursivelyBounded)
  obtain ⟨hnone, hsame⟩ := hgone (hbounds rfl)
  exact ⟨rfl, hnone, hsame.trans rfl⟩

/-- In the parts of a literal type that is a bound, it does not go. -/
example : (typeVar ⟨.empty, "T"⟩ (functionShape [loose "U"] void)).eraseVariables.mentionsVariables = true := rfl

end Descriptor

end Interop
