import Interop.Proofs.Store.Declarations

/-!
# Reached stores

A host may declare and deny any types, in any order with everything else that changes a store. Nothing is asked of the
types here, so `Store.Reached` holds of more stores than those in which conversion respects types. What all of them
have in common is that an adapter which is kept adapts the script value that it is kept under: adapters never change,
and each was put down under the value that it had been made for.

* **`Store.Reached`**: how a store comes about.
* **`Store.Reached.adaptersNamed`**: kept adapters adapt what they are kept under.
* **`Discipline.reached`**: computations lead from reached stores to reached stores.
-/

namespace Interop

namespace Store

/-- A store that begins with the standard types or with none, and the ways on from there. -/
inductive Reached : Store → Prop where
  | standard (config : Config) (wrapPrimitives : Bool) : Reached (.standard config wrapPrimitives)
  | bare (config : Config) (wrapPrimitives : Bool) : Reached (.bare config wrapPrimitives)
  | declare {s : Store} (h : Reached s) (spec : TypeSpec) : Reached (s.declare spec)
  | deny {s : Store} (h : Reached s) (id : TypeId) : Reached { s with types := s.types.deny id }
  | step {s s' : Store} (h : Reached s) (hstep : s.Step s') (hnames : s.NamesAdapters s') : Reached s'
  /-- Members are looked up, and forgotten; nothing here depends on what is collected. -/
  | memberCache {s : Store} (h : Reached s) (cache : MemberCache) : Reached { s with memberCache := cache }
  | wrapPrimitives {s : Store} (h : Reached s) (wrapPrimitives : Bool) :
    Reached { s with wrapPrimitives := wrapPrimitives }

/-! ## Adapters -/

/-- Every adapter that is kept adapts the script value that it is kept under. -/
def AdaptersNamed (s : Store) : Prop :=
  ∀ kept ∈ s.adapters, ∃ target interface m key,
    s.native kept.2 = .adapter target interface m key ∧ target.identity? = some kept.1.1

/-- Adapters that were kept before are what they were, and new ones have been named. -/
theorem AdaptersNamed.advance {s s' : Store} (hs : s.AdaptersNamed)
    (hnative : ∀ r, (s.native r).isFixed = true → s'.native r = s.native r) (hnames : s.NamesAdapters s') :
    s'.AdaptersNamed := by
  intro kept hkept
  rcases hnames kept hkept with hold | hnew
  · obtain ⟨target, interface, m, key, hadapter, hidentity⟩ := hs kept hold
    have hsame : s'.native kept.2 = s.native kept.2 := hnative kept.2 (by rw [hadapter]; rfl)
    exact ⟨target, interface, m, key, hsame.trans hadapter, hidentity⟩
  · exact hnew

/-- Declaring a type keeps no adapters. -/
theorem AdaptersNamed.declare {s : Store} (hs : s.AdaptersNamed) (spec : TypeSpec) :
    (s.declare spec).AdaptersNamed := by
  obtain ⟨grown, decl, hgrows, heq, -⟩ := s.declare_spec spec
  rw [heq]
  refine hs.advance (fun r hr => hgrows.native_eq hr) (.of_subset ?_)
  show grown.adapters ⊆ s.adapters
  rw [hgrows.adapters]
  exact List.Subset.refl _

/-- **In a reached store every kept adapter adapts the script value that it is kept under.** -/
theorem Reached.adaptersNamed {s : Store} (h : s.Reached) : s.AdaptersNamed := by
  induction h with
  | standard config wrapPrimitives => exact List.forall_mem_nil _
  | bare config wrapPrimitives => exact List.forall_mem_nil _
  | declare _ spec ih => exact ih.declare spec
  | deny _ id ih => exact ih
  | step _ hstep hnames ih => exact ih.advance (fun r hr => hstep.native_eq hr) hnames
  | memberCache _ cache ih => exact ih
  | wrapPrimitives _ wrapPrimitives ih => exact ih

end Store

/-- Being reached as a discipline. -/
def Discipline.reached : Discipline where
  holds := Store.Reached
  allows _ := True
  step hchange hs := hs.step hchange.step hchange.adapters
  lookedUp _ _ _ hs := hs.memberCache _
  failed _ := trivial
  diverged := trivial
  lookup _ _ := trivial

end Interop
