import Interop.Member.Cache

/-!
# Settled look-ups

Looking up the members of a type fills two caches: the bindings of every type met on the way and, if the look-up
succeeds, the entry. After the first look-up of a type its answer is settled: the entry is there, or the bindings are
there with which collecting its members stops again in the same way. Settled answers stay settled whatever else is
looked up, and a settled look-up changes nothing.

* **`inheritedWithin_appends`**: working out bindings only appends to the cache, and nothing for a type that is being
  visited.
* **`MemberCache.settled`**: the answer that a cache has settled for a type, if any.
* **`MemberCache.lookup_of_settled`**, **`settled_lookup`**, **`settled_mono`**: the three statements above.
-/

namespace Interop

/-! ## Bindings are only added -/

namespace TypeTable

/-- What working out bindings leaves: the cache it got, with answers added for types that are not being visited. -/
def Appends (visiting : List TypeId) (cache cache' : BindingsCache) : Prop :=
  ∃ added, cache' = cache ++ added ∧ ∀ entry ∈ added, entry.1 ∉ visiting

theorem Appends.refl (visiting : List TypeId) (cache : BindingsCache) : Appends visiting cache cache :=
  ⟨[], by simp, by simp⟩

theorem Appends.trans {visiting : List TypeId} {a b c : BindingsCache} (hab : Appends visiting a b)
    (hbc : Appends visiting b c) : Appends visiting a c := by
  obtain ⟨added, rfl, hadded⟩ := hab
  obtain ⟨added', rfl, hadded'⟩ := hbc
  refine ⟨added ++ added', by simp, ?_⟩
  intro entry hentry
  rcases List.mem_append.mp hentry with h | h
  · exact hadded entry h
  · exact hadded' entry h

/-- What appends nothing for some types appends nothing for fewer of them. -/
theorem Appends.mono {visiting visiting' : List TypeId} {a b : BindingsCache} (h : Appends visiting' a b)
    (hsub : ∀ id ∈ visiting, id ∈ visiting') : Appends visiting a b := by
  obtain ⟨added, rfl, hadded⟩ := h
  exact ⟨added, rfl, fun entry hentry hid => hadded entry hentry (hsub _ hid)⟩

theorem Appends.lookup {visiting : List TypeId} {a b : BindingsCache} (h : Appends visiting a b) {id : TypeId}
    {known : Bindings} (hknown : a.lookup id = some known) : b.lookup id = some known := by
  obtain ⟨added, rfl, -⟩ := h
  rw [List.lookup_append, hknown]
  rfl

/-- A type that is being visited gets no answer on the way. -/
theorem Appends.lookup_visiting {visiting : List TypeId} {a b : BindingsCache} (h : Appends visiting a b)
    {id : TypeId} (hid : id ∈ visiting) : b.lookup id = a.lookup id := by
  obtain ⟨added, rfl, hadded⟩ := h
  have hnone : added.lookup id = none := by
    rw [List.lookup_eq_none_iff]
    intro entry hentry
    have hne : entry.1 ≠ id := fun heq => hadded entry hentry (heq ▸ hid)
    simpa using Ne.symm hne
  rw [List.lookup_append, hnone, Option.or_none]

/-- A loop appends where each of its rounds does. -/
theorem Appends.foldl {visiting : List TypeId} {step : Bindings × BindingsCache → α → Bindings × BindingsCache}
    (hstep : ∀ state x, Appends visiting state.2 (step state x).2) (xs : List α) (state : Bindings × BindingsCache) :
    Appends visiting state.2 (xs.foldl step state).2 := by
  refine List.foldlRecOn (motive := fun reached => Appends visiting state.2 reached.2) xs step
    (Appends.refl visiting state.2) fun reached hreached x _ => ?_
  exact hreached.trans (hstep reached x)

/-- A type that is neither known nor being visited: its supertypes are worked out while it is visited, and then its own
answer is added. -/
theorem inheritedWithin_fresh {t : TypeTable} {n : Nat} {visiting : List TypeId} {cache : BindingsCache} {id : TypeId}
    (ih : ∀ visiting cache id, Appends visiting cache (t.inheritedWithin n visiting cache id).2)
    (hnone : cache.lookup id = none) (hvisiting : id ∉ visiting) :
    ∃ merged cache', Appends (id :: visiting) cache cache' ∧
      t.inheritedWithin (n + 1) visiting cache id = (merged, cache' ++ [(id, merged)]) := by
  rw [inheritedWithin, hnone]
  simp only [if_neg hvisiting]
  refine ⟨_, _, ?_, rfl⟩
  refine Appends.foldl ?_ _ (Bindings.empty, cache)
  rintro ⟨merged, cache⟩ ⟨isSuperclass, reference⟩
  cases reference.typeId? with
  | none => exact Appends.refl _ _
  | some parentId => exact ih (id :: visiting) cache parentId

/-- **Working out the bindings of a type only appends** to the cache. -/
theorem inheritedWithin_appends (t : TypeTable) (n : Nat) : ∀ (visiting : List TypeId) (cache : BindingsCache)
    (id : TypeId), Appends visiting cache (t.inheritedWithin n visiting cache id).2 := by
  -- on the budget, for all caches at once: one supertype starts with what the one before has left
  induction n with
  | zero =>
    intro visiting cache id
    exact Appends.refl visiting cache
  | succ n ih =>
    intro visiting cache id
    cases hlookup : cache.lookup id with
    | some known =>
      rw [inheritedWithin, hlookup]
      exact Appends.refl visiting cache
    | none =>
      by_cases hvisiting : id ∈ visiting
      · rw [inheritedWithin, hlookup]
        simp only [if_pos hvisiting]
        exact Appends.refl visiting cache
      · obtain ⟨merged, cache', happends, heq⟩ := inheritedWithin_fresh ih hlookup hvisiting
        rw [heq]
        refine (happends.mono fun x hx => List.mem_cons_of_mem _ hx).trans ⟨[(id, merged)], rfl, ?_⟩
        simpa using hvisiting

theorem inheritedBindings_appends (t : TypeTable) (cache : BindingsCache) (id : TypeId) :
    Appends [] cache (t.inheritedBindings cache id).2 := t.inheritedWithin_appends _ [] cache id

/-- Bindings that are known are given as they are. -/
theorem inheritedBindings_of_lookup {t : TypeTable} {cache : BindingsCache} {id : TypeId} {known : Bindings}
    (h : cache.lookup id = some known) : t.inheritedBindings cache id = (known, cache) := by
  rw [inheritedBindings, inheritedWithin, h]

/-- Once the bindings of a type have been worked out they are in the cache. -/
theorem lookup_inheritedBindings (t : TypeTable) (cache : BindingsCache) (id : TypeId) :
    (t.inheritedBindings cache id).2.lookup id = some (t.inheritedBindings cache id).1 := by
  cases hlookup : cache.lookup id with
  | some known => rw [inheritedBindings_of_lookup hlookup, hlookup]
  | none =>
    obtain ⟨merged, cache', happends, heq⟩ :=
      inheritedWithin_fresh (t.inheritedWithin_appends (t.edgeCount + 1)) hlookup (List.not_mem_nil)
    -- while its supertypes were worked out it was being visited, so nothing came before its own answer
    have hnone : cache'.lookup id = none := (happends.lookup_visiting List.mem_cons_self).trans hlookup
    rw [inheritedBindings, heq, List.lookup_append, hnone]
    simp

end TypeTable

/-! ## Settled answers -/

namespace MemberCache

variable {t : TypeTable} {r : MemberCache} {id : TypeId} {flag : Bool}

/-- What a look-up does: it finds the entry, or it works out bindings and collects members with them, which publishes
an entry or stops. -/
theorem lookup_cases (r : MemberCache) (t : TypeTable) (id : TypeId) (declared : Option TypeId) (flag : Bool) :
    (∃ known, r.find? id flag = some known ∧ r.lookup t id declared flag = (.ok known, r)) ∨
    (∃ entry, r.find? id flag = none ∧
      t.collectOrAbove (t.inheritedBindings r.bindings id).1 flag declared id = .ok entry ∧
      r.lookup t id declared flag = (.ok ⟨r.next, entry⟩,
        { bindings := (t.inheritedBindings r.bindings id).2
          entries := r.entries ++ [((id, flag), ⟨r.next, entry⟩)]
          next := r.next + 1 })) ∨
    (∃ stop, r.find? id flag = none ∧
      t.collectOrAbove (t.inheritedBindings r.bindings id).1 flag declared id = .error stop ∧
      r.lookup t id declared flag =
        (.error stop, { r with bindings := (t.inheritedBindings r.bindings id).2 })) := by
  rw [lookup]
  cases hfind : r.find? id flag with
  | some known => exact .inl ⟨known, rfl, rfl⟩
  | none =>
    dsimp only
    cases hcollect : t.collectOrAbove (t.inheritedBindings r.bindings id).1 flag declared id with
    | ok entry => exact .inr (.inl ⟨entry, rfl, rfl, rfl⟩)
    | error stop => exact .inr (.inr ⟨stop, rfl, rfl, rfl⟩)

theorem find?_lookup {declared : Option TypeId} {m : Membership} {r' : MemberCache}
    (h : r.lookup t id declared flag = (.ok m, r')) : r'.find? id flag = some m := by
  rcases r.lookup_cases t id declared flag with ⟨known, hfind, heq⟩ | ⟨entry, hfind, -, heq⟩ | ⟨stop, -, -, heq⟩
  · rw [heq] at h
    cases h
    exact hfind
  · rw [heq] at h
    cases h
    rw [find?] at hfind ⊢
    rw [List.lookup_append, hfind]
    simp
  · rw [heq] at h
    cases h

/-- The answer that a cache has settled for a type: its entry or, where there is none, how collecting its members with
its bindings stops. -/
def settled (r : MemberCache) (t : TypeTable) (id : TypeId) (flag : Bool) : Option (Except Stop Membership) :=
  match r.find? id flag with
  | some known => some (.ok known)
  | none =>
    match r.bindings.lookup id with
    | none => none
    | some b =>
      match t.collectOrAbove b flag none id with
      | .ok _ => none
      | .error stop => some (.error stop)

theorem settled_of_find? {known : Membership} (h : r.find? id flag = some known) :
    r.settled t id flag = some (.ok known) := by
  rw [settled, h]

theorem settled_of_error {b : Bindings} {stop : Stop} (hfind : r.find? id flag = none)
    (hbindings : r.bindings.lookup id = some b) (hcollect : t.collectOrAbove b flag none id = .error stop) :
    r.settled t id flag = some (.error stop) := by
  rw [settled, hfind]
  simp only [hbindings, hcollect]

/-- An answer is settled by an entry, or by bindings with which collecting stops. -/
theorem settled_cases {answer : Except Stop Membership} (h : r.settled t id flag = some answer) :
    (∃ known, r.find? id flag = some known ∧ answer = .ok known) ∨
    (r.find? id flag = none ∧ ∃ b stop, r.bindings.lookup id = some b ∧
      t.collectOrAbove b flag none id = .error stop ∧ answer = .error stop) := by
  rw [settled] at h
  split at h
  · next known hfind => exact .inl ⟨known, hfind, (Option.some.inj h).symm⟩
  · next hfind =>
    split at h
    · cases h
    · next b hbindings =>
      split at h
      · cases h
      · next stop hcollect => exact .inr ⟨hfind, b, stop, hbindings, hcollect, (Option.some.inj h).symm⟩

/-- **A settled look-up** gives the settled answer and changes nothing. -/
theorem lookup_of_settled {answer : Except Stop Membership} (h : r.settled t id flag = some answer) :
    r.lookup t id none flag = (answer, r) := by
  rcases settled_cases h with ⟨known, hfind, rfl⟩ | ⟨hfind, b, stop, hbindings, hcollect, rfl⟩
  · rw [lookup, hfind]
  · rw [lookup, hfind, TypeTable.inheritedBindings_of_lookup hbindings]
    simp only [hcollect]

/-- **A look-up settles its answer.** -/
theorem settled_lookup (t : TypeTable) (r : MemberCache) (id : TypeId) (flag : Bool) :
    (r.lookup t id none flag).2.settled t id flag = some (r.lookup t id none flag).1 := by
  rcases r.lookup_cases t id none flag with ⟨known, hfind, heq⟩ | ⟨entry, hfind, -, heq⟩ | ⟨stop, hfind, hcollect, heq⟩
  · rw [heq]
    exact settled_of_find? hfind
  · have hkept := find?_lookup heq
    rw [heq]
    exact settled_of_find? hkept
  · rw [heq]
    exact settled_of_error hfind (t.lookup_inheritedBindings r.bindings id) hcollect

/-- A look-up leaves the entries of other types alone. -/
theorem find?_lookup_of_ne {id' : TypeId} {flag' : Bool} (hne : (id', flag') ≠ (id, flag)) :
    (r.lookup t id none flag).2.find? id' flag' = r.find? id' flag' := by
  rcases r.lookup_cases t id none flag with ⟨known, -, heq⟩ | ⟨entry, -, -, heq⟩ | ⟨stop, -, -, heq⟩
  · rw [heq]
  · have hkey : ((id', flag') == (id, flag)) = false := by simpa using hne
    rw [heq]
    simp only [find?, List.lookup_append, List.lookup_cons, hkey, List.lookup_nil, Option.or_none]
  · rw [heq]
    rfl

/-- An entry that is found is found whatever else is looked up. -/
theorem find?_mono {m : Membership} (h : r.find? id flag = some m) {t : TypeTable} {id' : TypeId}
    {declared : Option TypeId} {flag' : Bool} : (r.lookup t id' declared flag').2.find? id flag = some m := by
  rcases r.lookup_cases t id' declared flag' with ⟨known, -, heq⟩ | ⟨entry, -, -, heq⟩ | ⟨stop, -, -, heq⟩ <;> rw [heq]
  · exact h
  · rw [find?] at h ⊢
    rw [List.lookup_append, h]
    rfl
  · exact h

theorem bindings_lookup_appends (t : TypeTable) (r : MemberCache) (id : TypeId) (flag : Bool) :
    TypeTable.Appends [] r.bindings (r.lookup t id none flag).2.bindings := by
  rcases r.lookup_cases t id none flag with ⟨known, -, heq⟩ | ⟨entry, -, -, heq⟩ | ⟨stop, -, -, heq⟩ <;> rw [heq]
  · exact TypeTable.Appends.refl _ _
  · exact t.inheritedBindings_appends r.bindings id
  · exact t.inheritedBindings_appends r.bindings id

/-- **Settled answers stay settled** whatever else is looked up. -/
theorem settled_mono {id' : TypeId} {flag' : Bool} {answer : Except Stop Membership}
    (h : r.settled t id' flag' = some answer) :
    (r.lookup t id none flag).2.settled t id' flag' = some answer := by
  by_cases hkey : (id', flag') = (id, flag)
  · obtain ⟨rfl, rfl⟩ := Prod.mk.inj hkey
    rw [lookup_of_settled h]
    exact h
  · rcases settled_cases h with ⟨known, hfind, rfl⟩ | ⟨hfind, b, stop, hbindings, hcollect, rfl⟩
    · exact settled_of_find? ((find?_lookup_of_ne hkey).trans hfind)
    · -- an answer without an entry rests on bindings, and these are still the first of their type
      exact settled_of_error ((find?_lookup_of_ne hkey).trans hfind)
        ((bindings_lookup_appends t r id flag).lookup hbindings) hcollect

end MemberCache

end Interop
