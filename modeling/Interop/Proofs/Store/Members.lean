import Interop.Proofs.Store.Lived

/-!
# What members have in common

Members come from the types of a store: they are collected, kept, and noted by proxies that show them. Whatever holds of
all members that types can be collected into holds of all that are kept or noted, in every store that comes about. A
`MemberRule` says what is asked of the types and what follows for the members.

* **`MemberRule`**, **`Store.Complies`**: what is asked of types, and of members that are kept or noted.
* **`Discipline.ofRule`**: computations do not break a rule.
* **`Store.Lived.complies`**: a rule that declaring types does not break holds in every lived store.
-/

namespace Interop

/-- What is asked of types, and what it makes of the members that are collected from them. -/
structure MemberRule where
  types : TypeTable → Prop
  members : TypeMembers → Prop
  collect : ∀ {t : TypeTable} {b : Bindings} {flag : Bool} {declared : Option TypeId} {id : TypeId} {e : TypeMembers},
    types t → t.collectOrAbove b flag declared id = .ok e → members e

variable {R : MemberRule} {s s' : Store}

/-- The types, and all members that are kept or that proxies have noted, are as a rule says. -/
structure Store.Complies (s : Store) (R : MemberRule) : Prop where
  types : R.types s.types
  kept : ∀ kept ∈ s.memberCache.entries, R.members kept.2.entry
  noted : ∀ r p m, s.object r = .proxy p → p.members = some m → R.members m.entry

namespace Store.Complies

/-- Where nothing was collected and no proxy made, nothing breaks the rule. -/
theorem empty (htypes : R.types s.types) (hcache : s.memberCache = {}) (hobjects : s.objects = #[]) :
    s.Complies R := by
  refine ⟨htypes, ?_, fun r p m hp => ?_⟩
  · rw [hcache]
    exact List.forall_mem_nil _
  · rw [object, hobjects] at hp
    cases hp

/-- The types, the script objects, and what is kept, are all that matters. -/
theorem of_subset (h : s.Complies R) (htypes : R.types s'.types)
    (hkept : s'.memberCache.entries ⊆ s.memberCache.entries) (hobjects : s'.objects = s.objects) : s'.Complies R := by
  refine ⟨htypes, fun kept hmem => h.kept kept (hkept hmem), fun r p m hp hm => h.noted r p m ?_ hm⟩
  rw [object, hobjects] at hp
  exact hp

/-- A change breaks no rule. -/
theorem change (h : s.Complies R) (hchange : s.Change s') : s'.Complies R := by
  obtain ⟨htypes, hcache⟩ := hchange.step.types_memberCache_eq
  refine ⟨htypes ▸ h.types, hcache ▸ h.kept, fun r p m hp hm => ?_⟩
  rcases hchange.notes r p m hp hm with ⟨before, hbefore, hnoted⟩ | ⟨id, flag, hfind⟩
  · exact h.noted r before m hbefore hnoted
  · exact h.kept _ (mem_of_lookup hfind)

/-- Members that are looked up comply, as those do that were collected before. -/
theorem lookedUp (h : s.Complies R) (id : TypeId) (declared : Option TypeId) (flag : Bool) :
    (s.lookedUp id declared flag).Complies R := by
  refine ⟨h.types, ?_, h.noted⟩
  show ∀ kept ∈ (s.memberCache.lookup s.types id declared flag).2.entries, _
  rcases s.memberCache.lookup_cases s.types id declared flag with
    ⟨known, -, heq⟩ | ⟨entry, -, hcollect, heq⟩ | ⟨stop, -, -, heq⟩ <;> rw [heq]
  · exact h.kept
  · exact List.forall_mem_append.mpr ⟨h.kept, List.forall_mem_singleton.mpr (R.collect h.types hcollect)⟩
  · exact h.kept

/-- To declare a type breaks no rule that the new types keep. -/
theorem declare (h : s.Complies R) (spec : TypeSpec) (htypes : R.types (s.declare spec).types) :
    (s.declare spec).Complies R := by
  obtain ⟨grown, decl, hgrows, heq, -⟩ := s.declare_spec spec
  have hcache : (s.declare spec).memberCache = s.memberCache := by
    rw [heq]
    exact hgrows.memberCache
  have hobjects : (s.declare spec).objects = s.objects := by
    rw [heq]
    exact hgrows.objects
  exact h.of_subset htypes (hcache ▸ List.Subset.refl _) hobjects

end Store.Complies

/-- A rule as a discipline. -/
def Discipline.ofRule (R : MemberRule) : Discipline where
  holds s := s.Complies R
  allows _ := True
  step hchange hs := hs.change hchange
  lookedUp id declared flag hs := hs.lookedUp id declared flag
  failed _ := trivial
  diverged := trivial
  lookup _ _ := trivial

/-- Stores begin with types as a rule asks for, and the embedder does not break it. -/
structure MemberRule.Lasts (R : MemberRule) : Prop where
  standard : R.types StandardType.table
  bare : R.types .empty
  declare : ∀ {s : Store} (spec : TypeSpec), R.types s.types → R.types (s.declare spec).types
  deny : ∀ {t : TypeTable} (id : TypeId), R.types t → R.types (t.deny id)

/-- A rule that lasts makes an enduring discipline. -/
theorem MemberRule.Lasts.enduring (hR : R.Lasts) : (Discipline.ofRule R).Enduring where
  stops _ := trivial
  cells _ _ hs := hs.of_subset hs.types (List.Subset.refl _) rfl
  standard _ _ := .empty hR.standard rfl rfl
  bare _ _ := .empty hR.bare rfl rfl
  declare spec hs := hs.declare spec (hR.declare spec hs.types)
  deny id hs := hs.of_subset (hR.deny id hs.types) (List.Subset.refl _) rfl
  forget _ hs := hs.of_subset hs.types (fun _ hkept => (List.mem_filter.mp hkept).1) rfl
  bindingsOf _ hs := hs.of_subset hs.types (List.Subset.refl _) rfl
  wrapPrimitives _ hs := hs.of_subset hs.types (List.Subset.refl _) rfl

/-- **A rule that lasts holds in every lived store.** -/
theorem Store.Lived.complies (hs : s.Lived) (hR : R.Lasts) : s.Complies R := hs.holds hR.enduring

end Interop
