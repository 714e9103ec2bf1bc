import Interop.Proofs.Member.History

/-!
# Searches after a refusal

When the host refuses to list the members of a type, the types above it are tried one after the other. Nothing
remembers which of them have been tried. The search ends where a type is listed or the root type is passed; if refusals
lead back to a type that has been tried, it goes round for ever.

* **`TypeTable.climb`**, **`TypeTable.Endless`**: the types that are tried, and the searches that are refused at each.
* **`collectAbove_diverged_iff`**: a bounded search runs out where it is refused as many times as the bound says.
* **`endless_iff`**: searches without end are those that try a type twice.
* **`MemberCache.lookup_diverged_iff`**: the look-ups that have no end.
-/

namespace Interop

-- ids are compared as they stand; unfolding one means computing a digest
attribute [local irreducible] TypeId.ofName

namespace TypeTable

variable {t : TypeTable} {b : Bindings} {flag : Bool}

/-! ## Collecting ends -/

/-- Resolving a type comes to an end: it gives the type, or fails at a variable. -/
theorem resolveType_ends (b : Bindings) (d : Descriptor) :
    Yields (· ≠ .diverged) (resolveType b d) fun _ => True := by
  unfold resolveType
  dsimp only
  split
  · exact nofun
  · trivial

theorem params_end (params : List Descriptor) :
    Yields (· ≠ .diverged) (params.mapM (resolveType b)) fun _ => True :=
  (Yields.mapM fun d _ => resolveType_ends b d).mono fun _ _ => trivial

/-- Making members out of declarations always ends. -/
theorem makes_ends (t : TypeTable) (b : Bindings) :
    t.Makes b (· ≠ .diverged) ⟨fun _ => True, fun _ _ => True⟩ where
  failed _ := nofun
  method _ _ _ m _ := by
    unfold Callable.ofMethod?
    split
    · exact List.forall_mem_nil _
    · exact (params_end m.params).bind fun _ _ => (resolveType_ends b m.returnType).bind fun _ _ _ _ => trivial
  field _ _ _ f _ := by
    unfold MemberField.ofField?
    split
    · exact List.forall_mem_nil _
    · refine (resolveType_ends b f.type).bind fun type _ => ?_
      exact List.forall_mem_singleton.mpr ⟨trivial, nofun⟩
  constructor _ _ _ c _ typeName := by
    unfold Callable.ofConstructor?
    split
    · exact List.forall_mem_nil _
    · exact (params_end c.params).bind fun _ _ _ _ => trivial

/-- The members of one type are collected, or collecting them fails. -/
theorem collectMembers_ne_diverged (t : TypeTable) (b : Bindings) (flag : Bool) (id : TypeId) :
    t.collectMembers id b flag ≠ .error .diverged := by
  intro h
  have hends := collectMembers_meets (t.makes_ends b) id flag
  rw [h] at hends
  exact hends rfl

/-! ## Climbing -/

/-- The host does not list a type, or one of its supertypes. -/
def refuses (t : TypeTable) (b : Bindings) (flag : Bool) (id : TypeId) : Bool :=
  match t.collectMembers id b flag with
  | .error (.failed (.accessDenied _)) => true
  | _ => false

/-- A type is refused where collecting its members fails for want of access. -/
theorem refuses_iff {id : TypeId} :
    t.refuses b flag id = true ↔ ∃ name, t.collectMembers id b flag = .error (.failed (.accessDenied name)) := by
  rw [refuses]
  split
  · next name hname => exact iff_of_true rfl ⟨name, hname⟩
  · next hlisted => exact iff_of_false nofun fun ⟨name, hname⟩ => hlisted name hname

/-- What is tried after some refusals; nothing past the root type. -/
def climb (t : TypeTable) (start : Option TypeId) (k : Nat) : Option TypeId := (·.bind t.nextAfterRefusal)^[k] start

/-- A search has got to a type, and the host refuses that one as well. -/
def RefusedAt (t : TypeTable) (b : Bindings) (flag : Bool) (start : Option TypeId) (k : Nat) : Prop :=
  (t.climb start k).any (t.refuses b flag) = true

instance (t : TypeTable) (b : Bindings) (flag : Bool) (start : Option TypeId) (k : Nat) :
    Decidable (t.RefusedAt b flag start k) := inferInstanceAs (Decidable (_ = true))

/-- Every type that a search gets to is refused, and so it never comes to an end. -/
def Endless (t : TypeTable) (b : Bindings) (flag : Bool) (start : Option TypeId) : Prop :=
  ∀ k, t.RefusedAt b flag start k

/-- The first step of a climb leads to the next type up. -/
theorem climb_succ (t : TypeTable) (start : Option TypeId) (k : Nat) :
    t.climb start (k + 1) = t.climb (start.bind t.nextAfterRefusal) k := rfl

theorem climb_add (t : TypeTable) (start : Option TypeId) (i k : Nat) :
    t.climb start (k + i) = t.climb (t.climb start i) k := Function.iterate_add_apply _ k i start

theorem climb_none (t : TypeTable) (k : Nat) : t.climb none k = none := by
  induction k with
  | zero => rfl
  | succ k ih => exact ih

/-- **A bounded search runs out** where it is refused that many times. -/
theorem collectAbove_diverged_iff (refused : String) (n : Nat) (start : Option TypeId) :
    t.collectAbove b flag refused n start = .error .diverged ↔ ∀ k < n, t.RefusedAt b flag start k := by
  fun_induction collectAbove t b flag refused n start with
  | case1 start => simp
  | case2 n => simpa using ⟨0, by omega, by simp [RefusedAt, climb]⟩
  | case3 n id name hname ih =>
    have hfirst : t.RefusedAt b flag (some id) 0 := refuses_iff.mpr ⟨name, hname⟩
    rw [ih]
    refine ⟨fun h k hk => ?_, fun h k hk => h (k + 1) (by omega)⟩
    cases k with
    | zero => exact hfirst
    | succ k => exact h k (by omega)
  | case4 n id hlisted =>
    refine ⟨fun h => absurd h (t.collectMembers_ne_diverged b flag id), fun h => ?_⟩
    obtain ⟨name, hname⟩ := refuses_iff.mp (show t.refuses b flag id = true from h 0 (by omega))
    exact absurd hname (hlisted name)

/-- Only described types are refused. -/
theorem exists_find?_of_refusedAt {start : Option TypeId} {k : Nat} (h : t.RefusedAt b flag start k) :
    ∃ id d, t.climb start k = some id ∧ t.find? id = some d := by
  obtain ⟨id, hid, hrefuses⟩ := (Option.any_eq_true _ _).mp h
  obtain ⟨name, hname⟩ := refuses_iff.mp hrefuses
  cases hfind : t.find? id with
  | none =>
    rw [collectMembers, hfind] at hname
    cases hname
  | some d => exact ⟨id, d, hid, hfind⟩

/-- With more refusals than there are described types, a type has been tried twice. -/
theorem exists_climb_eq {start : Option TypeId} (h : ∀ k < t.entries.length + 1, t.RefusedAt b flag start k) :
    ∃ i j, i < j ∧ j < t.entries.length + 1 ∧ t.climb start i = t.climb start j := by
  let described : Finset (Option TypeId) := (t.entries.map fun entry => some entry.1).toFinset
  have hcard : described.card < (Finset.range (t.entries.length + 1)).card := by
    have hle := (t.entries.map fun entry => some entry.1).toFinset_card_le
    rw [List.length_map] at hle
    rw [Finset.card_range]
    exact Nat.lt_succ_of_le hle
  have hmaps : ∀ k ∈ Finset.range (t.entries.length + 1), t.climb start k ∈ described := by
    intro k hk
    obtain ⟨id, d, hid, hd⟩ := exists_find?_of_refusedAt (h k (Finset.mem_range.mp hk))
    rw [hid, List.mem_toFinset]
    exact List.mem_map.mpr ⟨(id, d), mem_of_lookup hd, rfl⟩
  obtain ⟨i, hi, j, hj, hne, heq⟩ := Finset.exists_ne_map_eq_of_card_lt_of_maps_to hcard hmaps
  rcases Nat.lt_or_gt_of_ne hne with hlt | hlt
  · exact ⟨i, j, hlt, Finset.mem_range.mp hj, heq⟩
  · exact ⟨j, i, hlt, Finset.mem_range.mp hi, heq.symm⟩

/-- Once a type has been tried twice, the search goes round. -/
theorem endless_of_climb_eq {start : Option TypeId} {i j : Nat} (hij : i < j)
    (heq : t.climb start i = t.climb start j) (h : ∀ k < j, t.RefusedAt b flag start k) :
    t.Endless b flag start := by
  intro k
  induction k using Nat.strong_induction_on with
  | _ k ih =>
    rcases Nat.lt_or_ge k j with hlt | hge
    · exact h k hlt
    · -- one round earlier the search was at the same type
      have hround : t.climb start k = t.climb start (k - j + i) := by
        rw [climb_add, heq, ← climb_add, Nat.sub_add_cancel hge]
      rw [RefusedAt, hround]
      exact ih (k - j + i) (by omega)

/-- **Searches without end are those that try a type twice**, being refused all the way. -/
theorem endless_iff (t : TypeTable) (b : Bindings) (flag : Bool) (start : Option TypeId) :
    t.Endless b flag start ↔
      ∃ i j, i < j ∧ t.climb start i = t.climb start j ∧ ∀ k < j, t.RefusedAt b flag start k := by
  refine ⟨fun h => ?_, fun ⟨i, j, hij, heq, h⟩ => endless_of_climb_eq hij heq h⟩
  obtain ⟨i, j, hij, -, heq⟩ := exists_climb_eq fun k _ => h k
  exact ⟨i, j, hij, heq, fun k _ => h k⟩

/-- The bound is large enough: a search that is refused that many times has no end. -/
theorem collectAbove_endless_iff (refused : String) (start : Option TypeId) :
    t.collectAbove b flag refused (t.entries.length + 2) start = .error .diverged ↔ t.Endless b flag start := by
  rw [collectAbove_diverged_iff]
  refine ⟨fun h => ?_, fun h k _ => h k⟩
  obtain ⟨i, j, hij, hj, heq⟩ := exists_climb_eq fun k hk => h k (by omega)
  exact endless_of_climb_eq hij heq fun k hk => h k (by omega)

/-! ## Chains that do not come back -/

/-- One type is tried right after another. -/
def TriedAfter (t : TypeTable) (id next : TypeId) : Prop := t.nextAfterRefusal id = some next

/-- No type comes back among those that are tried after it. -/
def ClimbsAway (t : TypeTable) : Prop := ∀ id, ¬ Relation.TransGen t.TriedAfter id id

/-- A climb of at least one step leads to a type that is tried later. -/
theorem transGen_of_climb {id next : TypeId} {k : Nat} (h : t.climb (some id) (k + 1) = some next) :
    Relation.TransGen t.TriedAfter id next := by
  induction k generalizing id with
  | zero => exact .single h
  | succ k ih =>
    rw [climb_succ, Option.bind_some] at h
    cases hnext : t.nextAfterRefusal id with
    | none =>
      rw [hnext, climb_none] at h
      cases h
    | some above =>
      rw [hnext] at h
      exact .head hnext (ih h)

/-- Searches end where no type comes back. -/
theorem ClimbsAway.not_endless (ht : t.ClimbsAway) (start : Option TypeId) : ¬ t.Endless b flag start := by
  intro h
  obtain ⟨i, j, hij, heq, hrefused⟩ := (t.endless_iff b flag start).mp h
  obtain ⟨id, -, hid, -⟩ := exists_find?_of_refusedAt (h i)
  refine ht id (transGen_of_climb (k := j - i - 1) ?_)
  rw [← hid, ← climb_add, show j - i - 1 + 1 + i = j by omega, ← heq, hid]

/-- So it is in hierarchies without cycles: past the superclasses there is only the root type. -/
theorem Acyclic.climbsAway (ht : t.Acyclic) : t.ClimbsAway := by
  have hroot : ∀ {a b}, t.TriedAfter a b → a ≠ Standard.object := by
    rintro _ b h rfl
    rw [TriedAfter, nextAfterRefusal, if_pos rfl] at h
    cases h
  have hparent : ∀ {a b}, t.TriedAfter a b → b ≠ Standard.object → b ∈ t.parents a := by
    intro a b h hb
    rw [TriedAfter, nextAfterRefusal, if_neg (hroot h), Option.some.injEq] at h
    rcases hsuper : ((t.find? a).bind (·.superclass)).bind (·.typeId?) with _ | super <;> rw [hsuper] at h
    · exact absurd h.symm hb
    · cases h
      obtain ⟨type, htype, hid⟩ := Option.bind_eq_some_iff.mp hsuper
      obtain ⟨d, hd, hsuperclass⟩ := Option.bind_eq_some_iff.mp htype
      rw [parents, hd]
      refine List.mem_filterMap.mpr ⟨(true, type), ?_, hid⟩
      simp [TypeDecl.supertypes, hsuperclass]
  -- what is tried later on is not the root type, so it is a superclass, and lies above
  have hreaches : ∀ {a b}, Relation.TransGen t.TriedAfter a b → b ≠ Standard.object →
      ∃ c ∈ t.parents a, t.Reaches c b := by
    intro a b h hb
    induction h using Relation.TransGen.head_induction_on with
    | single h => exact ⟨b, hparent h hb, .refl t b⟩
    | head h hrest ih =>
      obtain ⟨next, hnext, -⟩ := Relation.TransGen.head'_iff.mp hrest
      obtain ⟨above, habove, hreaches⟩ := ih
      exact ⟨_, hparent h (hroot hnext), .head habove hreaches⟩
  intro id h
  obtain ⟨next, hnext, -⟩ := Relation.TransGen.head'_iff.mp h
  obtain ⟨parent, hparent, hreach⟩ := hreaches h (hroot hnext)
  exact ht id parent hparent hreach

end TypeTable

namespace MemberCache

/-- Look-ups end where no type comes back among those that are tried after a refusal. -/
theorem lookup_ne_diverged {t : TypeTable} (ht : t.ClimbsAway) (r : MemberCache) (id : TypeId)
    (declared : Option TypeId) (flag : Bool) : (r.lookup t id declared flag).1 ≠ .error .diverged := by
  have hcollect : ∀ b, t.collectOrAbove b flag declared id ≠ .error .diverged := by
    intro b
    rw [TypeTable.collectOrAbove]
    split
    · exact fun h => ht.not_endless _ ((TypeTable.collectAbove_endless_iff _ _).mp h)
    · exact t.collectMembers_ne_diverged b flag id
  rcases r.lookup_cases t id declared flag with ⟨_, _, heq⟩ | ⟨_, _, _, heq⟩ | ⟨stop, _, hstop, heq⟩ <;> rw [heq]
  · exact nofun
  · exact nofun
  · rintro ⟨⟩
    exact hcollect _ hstop

/-- **Look-ups that have no end.** A look-up goes on for ever exactly where there is no entry yet, the host refuses the
type, and every type that is tried after it. Such searches are those that come back to a type that they have tried. So
a look-up ends where the host lists the type and its supertypes, and where no type comes back among those tried after
it. -/
theorem lookup_diverged_iff (r : MemberCache) (t : TypeTable) (id : TypeId) (declared : Option TypeId) (flag : Bool) :
    let b := (t.inheritedBindings r.bindings id).1
    let start := t.firstAfterRefusal id declared
    ((r.lookup t id declared flag).1 = .error .diverged ↔
      r.find? id flag = none ∧ t.refuses b flag id = true ∧ t.Endless b flag start) ∧
    (t.Endless b flag start ↔
      ∃ i j, i < j ∧ t.climb start i = t.climb start j ∧ ∀ k < j, t.RefusedAt b flag start k) ∧
    (t.ListsAll (t.ancestry id) ∨ t.ClimbsAway → (r.lookup t id declared flag).1 ≠ .error .diverged) := by
  intro b start
  have hcollect : t.collectOrAbove b flag declared id = .error .diverged ↔
      t.refuses b flag id = true ∧ t.Endless b flag start := by
    rw [TypeTable.collectOrAbove]
    split
    · next name hname =>
      rw [TypeTable.collectAbove_endless_iff]
      exact (and_iff_right (TypeTable.refuses_iff.mpr ⟨name, hname⟩)).symm
    · next hlisted =>
      refine iff_of_false (t.collectMembers_ne_diverged b flag id) fun ⟨hrefuses, _⟩ => ?_
      obtain ⟨name, hname⟩ := TypeTable.refuses_iff.mp hrefuses
      exact hlisted name hname
  have hiff : (r.lookup t id declared flag).1 = .error .diverged ↔
      r.find? id flag = none ∧ t.refuses b flag id = true ∧ t.Endless b flag start := by
    -- kept, found or stopped: only a search that never ends diverges
    rcases r.lookup_cases t id declared flag with ⟨known, hknown, heq⟩ | ⟨entry, hnone, hentry, heq⟩ |
      ⟨stop, hnone, hstop, heq⟩
    · rw [heq, hknown]
      simp
    · rw [heq, ← hcollect, hentry]
      simp
    · rw [heq, ← hcollect, hstop]
      simp [hnone]
  refine ⟨hiff, t.endless_iff b flag start, ?_⟩
  -- where all are listed nothing is refused, and where every search climbs away it ends
  rintro (hlisted | haway) hdiverged
  · obtain ⟨name, hname⟩ := TypeTable.refuses_iff.mp (hiff.mp hdiverged).2.1
    have hyields := TypeTable.collectMembers_notRefused hlisted b flag
    rw [hname] at hyields
    exact hyields name rfl
  · exact haway.not_endless start (hiff.mp hdiverged).2.2

/-- Two classes that extend one another, of which the host does not list the first. -/
def mirrors : TypeTable :=
  let near : TypeSpec :=
    { name := "demo.Near", kind := .ofClass, superclass := some (.plain "demo.Far"), denied := true }
  let far : TypeSpec := { name := "demo.Far", kind := .ofClass, superclass := some (.plain "demo.Near") }
  ([near, far].foldl Store.declare (.standard {} false)).types

/-- The far class has the near one among its supertypes, so each of the two is refused and leads to the other. -/
theorem lookup_diverged_iff_mirrors :
    let start := mirrors.firstAfterRefusal (.ofName "demo.Near") none
    [mirrors.climb start 0, mirrors.climb start 1, mirrors.climb start 2]
      = [some (.ofName "demo.Far"), some (.ofName "demo.Near"), some (.ofName "demo.Far")] ∧
    (({} : MemberCache).lookup mirrors (.ofName "demo.Near") none false).1 = .error .diverged ∧
    (({} : MemberCache).lookup vault (.ofName "demo.Safe") none false).1 ≠ .error .diverged := by
  obtain ⟨hdiverged, hendless, -⟩ := lookup_diverged_iff {} mirrors (.ofName "demo.Near") none false
  obtain ⟨-, -, hends⟩ := lookup_diverged_iff {} vault (.ofName "demo.Safe") none false
  refine ⟨by decide +kernel, ?_, hends (.inl (by decide +kernel))⟩
  exact hdiverged.mpr ⟨rfl, by decide +kernel, hendless.mpr ⟨0, 2, by omega, by decide +kernel, by decide +kernel⟩⟩

end MemberCache

end Interop
