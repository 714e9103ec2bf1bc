import Interop.Generics.Inherited
import Interop.Proofs.TypeTable.Reachability

/-!
# Bindings without a cache

What the variables of its supertypes stand for, seen from a type, is worked out with a cache, a list of the types that
are being visited and a budget. In a hierarchy without cycles none of the three makes a difference. A chain of types,
each of which extends the next, repeats none, so no type is met while it is being visited; and every type of the chain
but the last has a reference of its own, so the chain is no longer than there are references.

* **`TypeTable.Extends`**, **`CycleFree`**: the references of described types, and hierarchies without cycles.
* **`TypeTable.bindings`**: what a type makes of the bindings of its supertypes (`bindings_eq`).
* **`inheritedBindings_eq`**: the bindings that are worked out are these, whatever right answers are known already.
-/

namespace Interop.TypeTable

-- ids are compared as they stand; unfolding one means computing a digest
attribute [local irreducible] TypeId.ofName

variable {t : TypeTable}

/-! ## Chains of references -/

/-- A described type, and a type that one of its supertype references names. -/
def Extends (t : TypeTable) (a b : TypeId) : Prop := ∃ d, t.find? a = some d ∧ b ∈ d.supertypeIds

/-- No type is above itself. -/
def CycleFree (t : TypeTable) : Prop := ∀ a, ¬ Relation.TransGen t.Extends a a

/-- A hierarchy in which ranks go down has no cycles. -/
theorem cycleFree_of_rank (rank : TypeId → Nat) (h : ∀ a b, t.Extends a b → rank b < rank a) : t.CycleFree := by
  have hbelow : ∀ a b, Relation.TransGen t.Extends a b → rank b < rank a := by
    intro a b hab
    induction hab with
    | single hstep => exact h _ _ hstep
    | tail _ hstep ih => exact (h _ _ hstep).trans ih
  intro a ha
  exact Nat.lt_irrefl _ (hbelow a a ha)

/-- Ranks can be read off the entries: in the order of its entries, a table has no type before its supertypes. -/
theorem cycleFree_of_entries
    (h : (t.entries.all fun entry => entry.2.supertypeIds.all fun parent =>
      (t.entries.map (·.1)).idxOf parent < (t.entries.map (·.1)).idxOf entry.1) = true) : t.CycleFree := by
  refine cycleFree_of_rank (t.entries.map (·.1)).idxOf ?_
  rintro a b ⟨d, hd, hb⟩
  have hentry := List.all_eq_true.mp h (a, d) (mem_entries_of_find? hd)
  exact of_decide_eq_true (List.all_eq_true.mp hentry b hb)

/-- The types on the way to a type, the last one first: each extends the one before it. -/
def Climbs (t : TypeTable) (id : TypeId) (visiting : List TypeId) : Prop :=
  (id :: visiting).IsChain fun a b => t.Extends b a

theorem climbs_nil (t : TypeTable) (id : TypeId) : t.Climbs id [] := .singleton id

theorem Climbs.step {id parent : TypeId} {visiting : List TypeId} (h : t.Climbs id visiting)
    (hextends : t.Extends id parent) : t.Climbs parent (id :: visiting) := .cons_cons hextends h

/-- Without cycles no type is met twice on the way. -/
theorem Climbs.nodup (ht : t.CycleFree) {id : TypeId} {visiting : List TypeId} (h : t.Climbs id visiting) :
    (id :: visiting).Nodup := by
  have habove : (id :: visiting).IsChain fun a b => Relation.TransGen t.Extends b a :=
    h.imp fun _ _ hextends => .single hextends
  have : Trans (fun a b => Relation.TransGen t.Extends b a) (fun a b => Relation.TransGen t.Extends b a)
      (fun a b => Relation.TransGen t.Extends b a) := ⟨fun hab hbc => hbc.trans hab⟩
  refine habove.pairwise.imp ?_
  rintro a b hab rfl
  exact ht a hab

/-- Every type on the way has a reference, along which the way went on. -/
theorem Climbs.exists_extends {id : TypeId} {visiting : List TypeId} (h : t.Climbs id visiting) :
    ∀ a ∈ visiting, ∃ b, t.Extends a b := by
  induction visiting generalizing id with
  | nil => exact List.forall_mem_nil _
  | cons first rest ih =>
    obtain ⟨hfirst, hrest⟩ := List.isChain_cons_cons.mp h
    exact List.forall_mem_cons.mpr ⟨⟨id, hfirst⟩, ih hrest⟩

/-- **A way up is no longer than there are references.** -/
theorem Climbs.length_le (ht : t.CycleFree) {id : TypeId} {visiting : List TypeId} (h : t.Climbs id visiting) :
    visiting.length ≤ t.edgeCount := by
  have hnodup : visiting.Nodup := (List.nodup_cons.mp (h.nodup ht)).2
  have hone : ∀ a ∈ visiting.toFinset, 1 ≤ (t.entries.lookup a).elim 0 fun d => d.supertypes.length := by
    intro a ha
    obtain ⟨b, d, hd, hb⟩ := h.exists_extends a (List.mem_toFinset.mp ha)
    obtain ⟨reference, href, -⟩ := List.mem_filterMap.mp hb
    have hfind : t.entries.lookup a = some d := hd
    rw [hfind]
    exact List.length_pos_of_mem href
  calc visiting.length
      = visiting.toFinset.card := (List.toFinset_card_of_nodup hnodup).symm
    _ = ∑ a ∈ visiting.toFinset, 1 := Finset.card_eq_sum_ones _
    _ ≤ ∑ a ∈ visiting.toFinset, ((t.entries.lookup a).elim 0 fun d => d.supertypes.length) :=
        Finset.sum_le_sum hone
    _ ≤ t.edgeCount := sum_described_le t.entries visiting.toFinset

/-! ## What a type makes of its supertypes -/

/-- The references that are followed: none from the root type, from simple types and from types that are not
described. -/
def followed (t : TypeTable) (id : TypeId) : List (Bool × Descriptor) :=
  if id = Standard.object ∨ id.isSimple then []
  else match t.find? id with
    | some d => d.supertypes
    | none => []

/-- Takes in what one reference contributes, given the bindings of all types. -/
def takeReference (t : TypeTable) (known : TypeId → Bindings) (merged : Bindings) (reference : Bool × Descriptor) :
    Bindings :=
  match reference.2.typeId? with
  | none => merged
  | some parent => merge reference.1 merged (t.seenThrough reference.2 (known parent))

/-- What a type makes of the bindings of its supertypes. -/
def combined (t : TypeTable) (known : TypeId → Bindings) (id : TypeId) : Bindings :=
  (t.followed id).foldl (t.takeReference known) .empty

/-- Bindings worked out along chains of a length at most. -/
def bindingsWithin (t : TypeTable) : Nat → TypeId → Bindings
  | 0, _ => .empty
  | n + 1, id => t.combined (t.bindingsWithin n) id

/-- What the variables of its supertypes stand for, seen from a type. -/
def bindings (t : TypeTable) (id : TypeId) : Bindings := t.bindingsWithin (t.edgeCount + 1) id

/-- A reference that is followed is one of a declaration. -/
theorem exists_of_mem_followed {id : TypeId} {reference : Bool × Descriptor} (h : reference ∈ t.followed id) :
    ∃ d, t.find? id = some d ∧ reference ∈ d.supertypes := by
  unfold followed at h
  split at h
  · cases h
  · cases hfind : t.find? id with
    | none =>
      rw [hfind] at h
      cases h
    | some d =>
      rw [hfind] at h
      exact ⟨d, rfl, h⟩

theorem extends_of_mem_followed {id parent : TypeId} {reference : Bool × Descriptor} (h : reference ∈ t.followed id)
    (hparent : reference.2.typeId? = some parent) : t.Extends id parent := by
  obtain ⟨d, hd, href⟩ := exists_of_mem_followed h
  exact ⟨d, hd, List.mem_filterMap.mpr ⟨reference, href, hparent⟩⟩

/-- Only the bindings of direct supertypes count. -/
theorem combined_congr {known known' : TypeId → Bindings} {id : TypeId}
    (h : ∀ parent, t.Extends id parent → known parent = known' parent) :
    t.combined known id = t.combined known' id := by
  refine List.foldl_ext _ _ _ fun merged reference href => ?_
  unfold takeReference
  cases hparent : reference.2.typeId? with
  | none => rfl
  | some parent => dsimp only; rw [h parent (extends_of_mem_followed href hparent)]

/-- More steps than a way up can still take change nothing. -/
theorem bindingsWithin_succ (ht : t.CycleFree) (n : Nat) {id : TypeId} {visiting : List TypeId}
    (h : t.Climbs id visiting) (hn : t.edgeCount + 1 ≤ n + visiting.length) :
    t.bindingsWithin (n + 1) id = t.bindingsWithin n id := by
  induction n generalizing id visiting with
  | zero =>
    have hle := h.length_le ht
    omega
  | succ n ih =>
    refine combined_congr fun parent hextends => ?_
    refine ih (h.step hextends) ?_
    rw [List.length_cons]
    omega

/-- **A type makes its bindings of those of its supertypes.** -/
theorem bindings_eq (ht : t.CycleFree) (id : TypeId) : t.bindings id = t.combined t.bindings id := by
  refine combined_congr fun parent hextends => ?_
  exact (bindingsWithin_succ ht t.edgeCount ((t.climbs_nil id).step hextends) (Nat.le_refl _)).symm

/-! ## The cache makes no difference -/

/-- All answers in a cache are right. -/
def Honest (t : TypeTable) (cache : BindingsCache) : Prop := ∀ entry ∈ cache, entry.2 = t.bindings entry.1

theorem honest_nil (t : TypeTable) : t.Honest [] := List.forall_mem_nil _

/-- What an honest cache gives is what would be computed. -/
theorem Honest.lookup {cache : BindingsCache} (h : t.Honest cache) {id : TypeId} {known : Bindings}
    (hknown : cache.lookup id = some known) : known = t.bindings id := h (id, known) (mem_of_lookup hknown)

/-- An honest cache stays honest where the new entry is what would be computed. -/
theorem Honest.append {cache : BindingsCache} (h : t.Honest cache) {id : TypeId} {known : Bindings}
    (hknown : known = t.bindings id) : t.Honest (cache ++ [(id, known)]) := by
  intro entry hentry
  rcases List.mem_append.mp hentry with hold | hnew
  · exact h entry hold
  · rw [List.mem_singleton.mp hnew]
    exact hknown

/-- Where the second part of a state meets a condition that every step keeps, the first part goes its way alone. -/
theorem foldl_fst_eq {step : β × γ → α → β × γ} {alone : β → α → β} {P : γ → Prop} {xs : List α}
    (h : ∀ x ∈ xs, ∀ b c, P c → (step (b, c) x).1 = alone b x ∧ P (step (b, c) x).2) {b : β} {c : γ} (hc : P c) :
    (xs.foldl step (b, c)).1 = xs.foldl alone b ∧ P (xs.foldl step (b, c)).2 := by
  induction xs generalizing b c with
  | nil => exact ⟨rfl, hc⟩
  | cons x xs ih =>
    obtain ⟨hx, hxs⟩ := List.forall_mem_cons.mp h
    obtain ⟨hfirst, hsecond⟩ := hx b c hc
    rw [List.foldl_cons, List.foldl_cons, ← hfirst]
    exact ih hxs hsecond

/-- **Working out the bindings of a type** on a way up gives them, and leaves right answers behind. -/
theorem inheritedWithin_eq (ht : t.CycleFree) (n : Nat) : ∀ {visiting : List TypeId} {cache : BindingsCache}
    {id : TypeId}, t.Climbs id visiting → t.edgeCount + 1 ≤ n + visiting.length → t.Honest cache →
      (t.inheritedWithin n visiting cache id).1 = t.bindings id ∧
        t.Honest (t.inheritedWithin n visiting cache id).2 := by
  induction n with
  | zero =>
    intro visiting cache id hclimbs hn _
    have hle := hclimbs.length_le ht
    omega
  | succ n ih =>
    intro visiting cache id hclimbs hn hcache
    rw [inheritedWithin]
    cases hlookup : cache.lookup id with
    | some known => exact ⟨hcache.lookup hlookup, hcache⟩
    | none =>
      have hfresh : id ∉ visiting := (List.nodup_cons.mp (hclimbs.nodup ht)).1
      dsimp only
      rw [if_neg hfresh]
      -- reference by reference: the bindings merged so far are those of a run without a cache
      generalize hstep : (fun before reference => _ :
        Bindings × BindingsCache → Bool × Descriptor → Bindings × BindingsCache) = step
      have htake : ∀ reference ∈ t.followed id, ∀ merged cache, t.Honest cache →
          (step (merged, cache) reference).1 = t.takeReference t.bindings merged reference ∧
            t.Honest (step (merged, cache) reference).2 := by
        intro reference href merged cache hcache
        subst hstep
        unfold takeReference
        dsimp only
        cases hparent : reference.2.typeId? with
        | none => exact ⟨rfl, hcache⟩
        | some parent =>
          have hup := hclimbs.step (extends_of_mem_followed href hparent)
          obtain ⟨hbindings, hhonest⟩ := ih hup (by rw [List.length_cons]; omega) hcache
          dsimp only
          rw [hbindings]
          exact ⟨rfl, hhonest⟩
      obtain ⟨hmerged, hhonest⟩ := foldl_fst_eq htake (b := .empty) hcache
      have hbindings := hmerged.trans (bindings_eq ht id).symm
      exact ⟨hbindings, hhonest.append hbindings⟩

/-- **Bindings are worked out right**, whatever right answers are known already. -/
theorem inheritedBindings_eq (ht : t.CycleFree) {cache : BindingsCache} (hcache : t.Honest cache) (id : TypeId) :
    (t.inheritedBindings cache id).1 = t.bindings id ∧ t.Honest (t.inheritedBindings cache id).2 :=
  inheritedWithin_eq ht _ (t.climbs_nil id) (Nat.le_succ _) hcache

end Interop.TypeTable
