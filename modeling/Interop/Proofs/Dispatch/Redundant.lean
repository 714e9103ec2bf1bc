import Interop.Proofs.Dispatch.Ties
import Mathlib.Data.Set.Basic

/-!
# Static candidates that are met more than once

A static method that a type declares with the parameters of one of its supertypes comes up twice among the candidates.
Nothing tells the two apart by their parameters, so the one on the subtype takes the place of the other. It does so in
place, and only when the comparison gets as far as the other one. Where such candidates are preferred to all that are
not of their kind, the first of them drives everything else out, and nothing but one of them gets in again. So the
comparison always gets that far, and the one declared on the most derived type is left, in whatever order they come.

* **`TypeTable.Redundant`**: static candidates with the same parameters, on types of which one is below the other.
* **`Redundant.takeIn`**: of two of them the one on the subtype stays.
* **`Redundant.foldl_takeIn`**: from the first of them on, there is one best candidate, below all that have come in.
* **`chooseBest_mostDerived`**: the choice among them.
-/

namespace Interop

namespace TypeTable

variable {t : TypeTable}

/-! ## Chains of types -/

/-- Subtyping is transitive above a type strictly below the next one, also where the root type has supertypes. -/
theorem isSubtype_trans_of_strict {a b c : TypeId} (hab : t.isSubtype a b = true) (hbc : t.isSubtype b c = true)
    (hcb : t.isSubtype c b = false) : t.isSubtype a c = true := by
  rcases (t.isSubtype_iff a b).mp hab with rfl | ⟨ha, hb, hup⟩
  · exact hbc
  rcases (t.isSubtype_iff b c).mp hbc with rfl | ⟨-, hc, hup'⟩
  · exact hab
  refine (t.isSubtype_iff a c).mpr (.inr ⟨ha, hc, ?_⟩)
  rcases hup with rfl | hreach
  · -- everything is below the root type, so nothing is strictly above it
    have hroot : t.isSubtype c Standard.object = true := (t.isSubtype_iff _ _).mpr (.inr ⟨hc, hb, .inl rfl⟩)
    rw [hroot] at hcb
    cases hcb
  · exact hup'.imp id hreach.trans

/-- The type that declares the first candidate is a subtype of the one that declares the second. -/
def DeclaredBelow (t : TypeTable) (v w : RankedCandidate) : Prop :=
  t.isSubtype v.candidate.declaring w.candidate.declaring = true

instance (t : TypeTable) (v w : RankedCandidate) : Decidable (t.DeclaredBelow v w) :=
  inferInstanceAs (Decidable (_ = true))

theorem DeclaredBelow.refl (t : TypeTable) (w : RankedCandidate) : t.DeclaredBelow w w := t.isSubtype_refl _

/-- Static candidates with the same parameters; of the types that declare two of them exactly one is a subtype of the
other, so that no two are declared on one type. -/
structure Redundant (t : TypeTable) (group : Set RankedCandidate) : Prop where
  isStatic : ∀ w ∈ group, w.candidate.isStatic = true
  sameParams : ∀ v ∈ group, ∀ w ∈ group, Descriptor.sameAll v.params w.params = true
  chain : ∀ v ∈ group, ∀ w ∈ group, v ≠ w → (t.DeclaredBelow v w ↔ ¬ t.DeclaredBelow w v)

/-- A candidate of a group that is declared below all of them. -/
def MostDerived (t : TypeTable) (group : Set RankedCandidate) (w : RankedCandidate) : Prop :=
  w ∈ group ∧ ∀ v ∈ group, t.DeclaredBelow w v

namespace Redundant

variable {group : Set RankedCandidate} (h : t.Redundant group)
include h

/-- Within the group being declared below is transitive, although subtyping in general is not. -/
theorem trans {u v w : RankedCandidate} (hv : v ∈ group) (hw : w ∈ group) (huv : t.DeclaredBelow u v)
    (hvw : t.DeclaredBelow v w) : t.DeclaredBelow u w := by
  by_cases heq : v = w
  · rwa [← heq]
  · exact isSubtype_trans_of_strict huv hvw (Bool.eq_false_iff.mpr ((h.chain v hv w hw heq).mp hvw))

/-- Nothing tells candidates of the group apart. -/
theorem prefer_eq_equal {grades : List (Descriptor → Rank)} {v w : RankedCandidate} (hv : v ∈ group) (hw : w ∈ group)
    (hgrades : ∀ u ∈ group, RankedBy grades u) : t.prefer v w = .equal :=
  (prefer_eq_equal_iff (hgrades v hv) (hgrades w hw)).mpr (h.sameParams v hv w hw)

/-! ## Taking them in -/

/-- **Of two of them the one on the subtype stays**, whichever comes first. -/
theorem takeIn {v w : RankedCandidate} (hv : v ∈ group) (hw : w ∈ group) (hequal : t.prefer v w = .equal) :
    ∃ x ∈ group, t.takeIn [w] v = [x] ∧ t.DeclaredBelow x w ∧ t.DeclaredBelow x v := by
  have hstep : t.takeIn [w] v = if t.isSubtype v.candidate.declaring w.candidate.declaring then [v] else [w] := by
    simp [TypeTable.takeIn, compareWith, hequal, Preference.equal, Preference.undecided, Preference.toFirst,
      Preference.toSecond, replaces, h.isStatic w hw]
  by_cases hbelow : t.DeclaredBelow v w
  · exact ⟨v, hv, hstep.trans (if_pos hbelow), hbelow, .refl t v⟩
  · refine ⟨w, hw, hstep.trans (if_neg hbelow), .refl t w, ?_⟩
    have hne : w ≠ v := by
      rintro rfl
      exact hbelow (.refl t w)
    exact (h.chain w hw v hv hne).mpr hbelow

variable {grades : List (Descriptor → Rank)} (hgrades : ∀ u ∈ group, RankedBy grades u)
include hgrades

/-- **Once one of them is the only best candidate**, one of them stays it: the one declared below all that have come
in. -/
theorem foldl_takeIn : ∀ {after : List RankedCandidate} {w : RankedCandidate}, w ∈ group →
    (∀ u ∈ group, ∀ c ∈ after, c ∉ group → t.prefer u c = .toFirst) →
      ∃ x ∈ group, after.foldl t.takeIn [w] = [x] ∧ t.DeclaredBelow x w ∧
        ∀ v ∈ after, v ∈ group → t.DeclaredBelow x v
  | [], w, hw, _ => ⟨w, hw, rfl, .refl t w, List.forall_mem_nil _⟩
  | c :: after, w, hw, hleads => by
    have hrest : ∀ u ∈ group, ∀ d ∈ after, d ∉ group → t.prefer u d = .toFirst := fun u hu d hd =>
      hleads u hu d (List.mem_cons_of_mem _ hd)
    rw [List.foldl_cons]
    by_cases hc : c ∈ group
    · obtain ⟨x, hx, htaken, hxw, hxc⟩ := h.takeIn hc hw (h.prefer_eq_equal hc hw hgrades)
      obtain ⟨y, hy, hbest, hyx, hyrest⟩ := foldl_takeIn hx hrest
      rw [htaken]
      exact ⟨y, hy, hbest, h.trans hx hw hyx hxw,
        List.forall_mem_cons.mpr ⟨fun _ => h.trans hx hc hyx hxc, hyrest⟩⟩
    · -- whoever is not of the group loses to the one that is there
      have hloses : t.prefer c w = .toSecond := prefer_toSecond_of_toFirst (hleads w hw c List.mem_cons_self hc)
      obtain ⟨y, hy, hbest, hyw, hyrest⟩ := foldl_takeIn hw hrest
      rw [takeIn_singleton_of_toSecond hloses]
      exact ⟨y, hy, hbest, hyw, List.forall_mem_cons.mpr ⟨fun hmem => absurd hmem hc, hyrest⟩⟩

/-- **The most derived of them is the only one left.** -/
theorem bestCandidates {candidates : List RankedCandidate} (hgroup : ∀ w ∈ group, w ∈ candidates)
    (hne : group.Nonempty) (hleads : ∀ u ∈ group, ∀ c ∈ candidates, c ∉ group → t.prefer u c = .toFirst) :
    ∃ x, t.MostDerived group x ∧ t.bestCandidates candidates = [x] := by
  classical
  -- up to the first of them there are others only, and it drives them out
  obtain ⟨u, hu⟩ := hne
  have hfound : (candidates.find? (· ∈ group)).isSome = true :=
    List.find?_isSome.mpr ⟨u, hgroup u hu, decide_eq_true hu⟩
  obtain ⟨w, hw⟩ := Option.isSome_iff_exists.mp hfound
  obtain ⟨hmem, before, after, rfl, hbefore⟩ := List.find?_eq_some_iff_append.mp hw
  have hwgroup : w ∈ group := of_decide_eq_true hmem
  have hothers : ∀ c ∈ before, c ∉ group := fun c hc => by simpa using hbefore c hc
  have htaken : t.takeIn (before.foldl t.takeIn []) w = [w] := by
    refine takeIn_of_forall_toFirst fun b hb => ?_
    have hb' : b ∈ before := (mem_foldl_takeIn hb).resolve_left List.not_mem_nil
    exact hleads w hwgroup b (List.mem_append_left _ hb') (hothers b hb')
  obtain ⟨x, hx, hbest, hxw, hxafter⟩ := h.foldl_takeIn hgrades hwgroup fun v hv c hc =>
    hleads v hv c (List.mem_append_right _ (List.mem_cons_of_mem _ hc))
  refine ⟨x, ⟨hx, fun v hv => ?_⟩, ?_⟩
  · rcases List.mem_append.mp (hgroup v hv) with hv' | hv'
    · exact absurd hv (hothers v hv')
    · rcases List.mem_cons.mp hv' with rfl | hv'
      · exact hxw
      · exact hxafter v hv' hv
  · rw [TypeTable.bestCandidates, List.foldl_append, List.foldl_cons, htaken, hbest]

end Redundant

end TypeTable

/-! ## The choice -/

/-- Redundant static candidates that can take the arguments, each of them preferred to all candidates that are not among
them. -/
structure Store.LedBy (s : Store) (set : OverloadSet) (args : List Script) (group : Set RankedCandidate) : Prop where
  nonempty : group.Nonempty
  applicable : ∀ w ∈ group, s.Applicable set args w
  redundant : s.types.Redundant group
  preferred : ∀ w ∈ group, ∀ v, s.Applicable set args v → v ∉ group → s.types.prefer w v = .toFirst

/--
**Of redundant static candidates the most derived one is chosen**, for any set of candidates in any order and any
arguments, where they are preferred to all others. The choice is made unless one of the candidates cannot be ranked at
all.
-/
theorem chooseBest_mostDerived (s : Store) (set : OverloadSet) (args : List Script) :
    match (chooseBest set args).outcome s with
    | (.ok r, s') => ∀ group, s'.LedBy set args group →
        ∃ w, s'.types.MostDerived group w ∧ r = .resolved w.index
    | (.error stop, s') => ∃ i c, set.candidates[i]? = some c ∧
        (rankCandidate i c args).outcome s' = (.error stop, s') := by
  rw [chooseBest]
  rcases hrun : (applicable args 0 set.candidates).outcome s with ⟨stop | weighed, s'⟩
  · rw [Eval.outcome_bind_of_error hrun]
    obtain ⟨c, i, hmem, hstop⟩ := outcome_applicable hrun (.refl s')
    exact ⟨i, c, by simpa [List.mk_mem_zipIdx_iff_getElem?] using hmem, hstop⟩
  · rw [Eval.outcome_bind_of_ok hrun]
    intro group hgroup
    have hweighed : ∀ w ∈ group, w ∈ weighed := fun w hw => (mem_weighed_iff hrun).mpr (hgroup.applicable w hw)
    have hgrades : ∀ w ∈ group, TypeTable.RankedBy (args.map s'.grade) w := fun w hw =>
      rankedBy_of_mem_weighed hrun (hweighed w hw)
    obtain ⟨w, hmost, hbest⟩ := hgroup.redundant.bestCandidates hgrades hweighed hgroup.nonempty fun u hu c hc =>
      hgroup.preferred u hu c ((mem_weighed_iff hrun).mp hc)
    refine ⟨w, hmost, ?_⟩
    show Resolution.ofBest (s'.types.bestCandidates weighed) = .resolved w.index
    rw [hbest]
    rfl

/-- A class, a subclass, and a subclass of that one. -/
def Store.kinship : Store :=
  let base : TypeSpec := { name := "demo.Base", kind := .ofClass }
  let circle : TypeSpec := { name := "demo.Circle", kind := .ofClass, superclass := some (.plain "demo.Base") }
  let disc : TypeSpec := { name := "demo.Disc", kind := .ofClass, superclass := some (.plain "demo.Circle") }
  [base, circle, disc].foldl Store.declare (.standard {} false)

/-- Static methods of one name: one for every value, and one for integers on each of the classes. -/
def making : OverloadSet :=
  let taking (declaring : String) (param : Descriptor) : Callable :=
    { name := "make", declaring := .ofName declaring, params := [param], returnType := .void,
      flags := { isPublic := true, isStatic := true }, invoker := .host "make" (.constant .void) }
  ⟨"make", [taking "demo.Circle" (.numeric .int), taking "demo.Base" .object, taking "demo.Disc" (.numeric .int),
    taking "demo.Base" (.numeric .int)]⟩

/-- How they rank for a number. -/
def made : List RankedCandidate :=
  making.candidates.zipIdx.map fun (c, i) => ⟨i, c, c.params, [if i = 1 then ⟨10⟩ else ⟨5⟩]⟩

/-- For a number the three methods for integers are preferred to the one for every value, which comes in between. The
one of the most derived class is chosen; it comes in after one above it and before another. -/
theorem chooseBest_mostDerived_kinship :
    Store.kinship.LedBy making [.number .one] {w | w ∈ made ∧ w.index ≠ 1} ∧
    (chooseBest making [.number .one]).outcome .kinship = (.ok (.resolved 2), .kinship) ∧
    ∃ w, Store.kinship.types.MostDerived {w | w ∈ made ∧ w.index ≠ 1} w ∧
      Resolution.resolved 2 = .resolved w.index := by
  have htaken : (applicable [.number .one] 0 making.candidates).outcome .kinship = (.ok made, .kinship) := by rfl
  have hchosen : (chooseBest making [.number .one]).outcome .kinship = (.ok (.resolved 2), .kinship) := by
    rw [chooseBest, Eval.outcome_bind_of_ok htaken]
    rfl
  have happlicable : ∀ w ∈ made, Store.kinship.Applicable making [.number .one] w := fun w =>
    (mem_weighed_iff htaken).mp
  have hled : Store.kinship.LedBy making [.number .one] {w | w ∈ made ∧ w.index ≠ 1} := by
    refine ⟨⟨made.head (by decide), ?_⟩, fun w hw => happlicable w hw.1, ⟨?_, ?_, ?_⟩, ?_⟩
    · exact ⟨List.head_mem _, by decide⟩
    · rintro w ⟨hw, -⟩
      have hall : ∀ w ∈ made, w.candidate.isStatic = true := by decide +kernel
      exact hall w hw
    · have hall : ∀ v ∈ made, ∀ w ∈ made, v.index ≠ 1 → w.index ≠ 1 →
          Descriptor.sameAll v.params w.params = true := by decide +kernel
      exact fun v hv w hw => hall v hv.1 w hw.1 hv.2 hw.2
    · have hall : ∀ v ∈ made, ∀ w ∈ made, v.index ≠ w.index → v.index ≠ 1 → w.index ≠ 1 →
          (Store.kinship.types.DeclaredBelow v w ↔ ¬ Store.kinship.types.DeclaredBelow w v) := by decide +kernel
      refine fun v hv w hw hne => hall v hv.1 w hw.1 (fun heq => hne ?_) hv.2 hw.2
      exact (happlicable v hv.1).eq_of_index (happlicable w hw.1) heq
    · have hall : ∀ w ∈ made, ∀ v ∈ made, w.index ≠ 1 → v.index = 1 →
          Store.kinship.types.prefer w v = .toFirst := by decide +kernel
      intro w hw v hv hnot
      have hmade : v ∈ made := (mem_weighed_iff htaken).mpr hv
      exact hall w hw.1 v hmade hw.2 (by_contra fun hne => hnot ⟨hmade, hne⟩)
  have hchoice := chooseBest_mostDerived .kinship making [.number .one]
  rw [hchosen] at hchoice
  exact ⟨hled, hchosen, hchoice _ hled⟩

end Interop
