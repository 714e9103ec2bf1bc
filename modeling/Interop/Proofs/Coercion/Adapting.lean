import Interop.Proofs.Coercion.Instances
import Interop.Proofs.Store.Liveness

/-!
# Coercion to interfaces

A coercion to an interface refuses a value, lets null and wrapped instances through, or adapts a script function or
object that can implement the interface. Ranking the value has collected the members of the interface by then, so that
nothing can go wrong any more: the adapter that is kept under the value and the interface is given, or one is made.

* **`Store.Implements`**: what lets a value be adapted, as it stands after ranking.
* **`outcome_adapterFor_kept`**, **`outcome_adapterFor_made`**, **`outcome_adapterFor_uncached`**: the three ways in which
  a value is adapted.
* **`convert_coerces`**: all that a coercion to an interface does.
-/

namespace Interop

variable {s s' s₁ : Store} {v : Script} {interface : Descriptor} {id : TypeId} {m : Membership} {identity : Identity}

/-! ## Values that can be adapted -/

/-- A function implements an interface whose abstract methods share one name, an object one with abstract methods. The
members of the interface have been collected. -/
structure Store.Implements (s : Store) (v : Script) (id : TypeId) (m : Membership) : Prop where
  members : s.memberCache.find? id s.config.includeNonPublic = some m
  able : (s.kindOf v = .scriptCallable ∧ (m.entry.abstractNames.length == 1) = true) ∨
    (s.kindOf v = .scriptObject ∧ (!m.entry.abstractNames.isEmpty) = true)

/-- An implementation stays one while the store is only browsed. -/
theorem Store.Implements.browses (h : s.Implements v id m) (hbrowses : s.Browses s') : s'.Implements v id m := by
  have hkind := hbrowses.kindOf_eq v
  have hmembers := hbrowses.find?_mono h.members
  have hconfig : s'.config = s.config := by
    obtain ⟨objects, cache, rfl⟩ := hbrowses.exists_eq
    rfl
  exact ⟨hconfig ▸ hmembers, hkind ▸ h.able⟩

/-- A look-up that the cache answers leaves the store as it is. -/
theorem Eval.outcome_membersOf_of_find? (h : s.memberCache.find? id s.config.includeNonPublic = some m) :
    (Eval.membersOf id none false).outcome s = (.ok m, s) := by
  rw [outcome_membersOf, Bool.false_or, MemberCache.lookup_of_settled (MemberCache.settled_of_find? h)]

/-- Whether a script value can implement an interface is decided by the names of its abstract methods alone. -/
theorem outcome_canImplement (hid : interface.typeId? = some id)
    (h : s.memberCache.find? id s.config.includeNonPublic = some m) (isFunction : Bool) :
    (canImplement interface isFunction).outcome s =
      (.ok (if isFunction then m.entry.abstractNames.length == 1 else !m.entry.abstractNames.isEmpty), s) := by
  have hattempt : (Eval.attempt (Eval.membersOf id none false)).outcome s = (.ok (.ok m), s) := by
    rw [Eval.outcome_attempt, Eval.outcome_membersOf_of_find? h]
  rw [canImplement, hid]
  dsimp only
  rw [Eval.outcome_bind_of_ok hattempt]
  rfl

/-- A value that can be adapted has the best rank that a conversion can have. -/
theorem Store.Implements.rank (h : s.Implements v id m) (hid : interface.typeId? = some id) :
    (rankTarget v (.interface interface)).outcome s = (.ok .exact, s) := by
  have hcan := outcome_canImplement hid h.members
  unfold rankTarget
  rw [Eval.outcome_get_bind]
  dsimp only
  rcases h.able with ⟨hkind, hable⟩ | ⟨hkind, hable⟩ <;> rw [hkind]
  · show (rankScript .scriptCallable (.interface interface)).outcome s = _
    rw [rankScript, Eval.outcome_bind_of_ok (hcan true), if_pos rfl, hable]
    rfl
  · show (rankScript .scriptObject (.interface interface)).outcome s = _
    rw [rankScript, Eval.outcome_bind_of_ok (hcan false), if_neg Bool.false_ne_true, hable]
    rfl

/-- What is said to implement an interface does so by members that are found from then on. -/
theorem exists_members_of_canImplement {isFunction : Bool}
    (h : (canImplement interface isFunction).outcome s = (.ok true, s₁)) :
    ∃ id m, interface.typeId? = some id ∧ s₁.memberCache.find? id s₁.config.includeNonPublic = some m ∧
      (if isFunction then m.entry.abstractNames.length == 1 else !m.entry.abstractNames.isEmpty) = true := by
  unfold canImplement at h
  cases hid : interface.typeId? with
  | none =>
    rw [hid] at h
    cases h
  | some id =>
    rw [hid] at h
    obtain ⟨_, _, hstop⟩ | ⟨result, s₂, hattempt, hrest⟩ := Eval.outcome_bind_cases h
    · cases hstop
    cases result with
    | error failure => cases hrest
    | ok m =>
      rw [Eval.outcome_pure] at hrest
      obtain ⟨hable, rfl⟩ := Prod.mk.inj hrest
      refine ⟨id, m, rfl, ?_, Except.ok.inj hable⟩
      -- the attempt was a look-up that succeeded, which keeps what it found
      rw [Eval.outcome_attempt, Eval.outcome_membersOf, Bool.false_or] at hattempt
      rcases hlookup : s.memberCache.lookup s.types id none s.config.includeNonPublic with ⟨stop | found, cache⟩ <;>
        rw [hlookup] at hattempt
      · cases stop <;> cases hattempt
      · cases hattempt
        exact MemberCache.find?_lookup hlookup

/-- A function or object that has a rank for an interface can be adapted to it. -/
theorem exists_implements_of_ranked (hidentity : v.identity?.isSome = true) (hv : s.unwrap? v = none) {rank : Rank}
    (hrank : (rankTarget v (.interface interface)).outcome s = (.ok rank, s₁)) (hsome : rank.isNone = false) :
    ∃ id m, interface.typeId? = some id ∧ s₁.Implements v id m := by
  -- ranking only browses, so the value is afterwards what it was
  have hkindAfter : s₁.kindOf v = s.kindOf v := by
    have hbrowses := (browses_rankTarget v (.interface interface) s).store
    rw [hrank] at hbrowses
    exact hbrowses.kindOf_eq v
  have hable : ∀ isFunction, (do pure (if ← canImplement interface isFunction then .exact else .none) :
      Eval Rank).outcome s = (.ok rank, s₁) → (canImplement interface isFunction).outcome s = (.ok true, s₁) := by
    intro isFunction h
    obtain ⟨_, _, hstop⟩ | ⟨able, s₂, hcan, hlast⟩ := Eval.outcome_bind_cases h
    · cases hstop
    rw [Eval.outcome_pure] at hlast
    obtain ⟨hable, rfl⟩ := Prod.mk.inj hlast
    cases able with
    | true => exact hcan
    | false =>
      cases hable
      cases hsome
  have hany : Target.interface interface ≠ .any := nofun
  rw [rankTarget_of_generic hidentity hv hany] at hrank
  -- functions and objects ask for an implementation; any other value has no rank for an interface
  cases hkind : s.kindOf v with
  | scriptCallable =>
    rw [hkind] at hrank
    obtain ⟨id, m, hid, hmembers, hnames⟩ := exists_members_of_canImplement (hable true hrank)
    exact ⟨id, m, hid, hmembers, .inl ⟨hkindAfter.trans hkind, hnames⟩⟩
  | scriptObject =>
    rw [hkind] at hrank
    obtain ⟨id, m, hid, hmembers, hnames⟩ := exists_members_of_canImplement (hable false hrank)
    exact ⟨id, m, hid, hmembers, .inr ⟨hkindAfter.trans hkind, hnames⟩⟩
  | _ =>
    rw [hkind] at hrank
    cases hrank
    cases hsome

/-! ## Adapters -/

/-- The store with a new adapter, which is referred to. -/
def Store.withAdapter (s : Store) (v : Script) (interface : Descriptor) (m : Membership) (key : Option AdapterKey) :
    Store :=
  { s with natives := s.natives.push (.adapter v interface m key), referred := s.referred ++ [⟨s.natives.size⟩] }

/-- A new adapter takes the next place among the natives and the cache entry under its key. -/
theorem outcome_newAdapter_of_implements (h : s.Implements v id m) (interface : Descriptor) (key : Option AdapterKey) :
    (newAdapter v interface id key).outcome s = (.ok ⟨s.natives.size⟩, s.withAdapter v interface m key) := by
  rw [newAdapter, Eval.outcome_bind_of_ok (Eval.outcome_membersOf_of_find? h.members)]
  rfl

/-- Without a cache, every adapter is new, and has no key. -/
theorem outcome_adapterFor_uncached (hoff : s.config.adapterCache = false) (hid : interface.typeId? = some id)
    (h : s.Implements v id m) :
    (adapterFor v interface).outcome s = (.ok (.object ⟨s.natives.size⟩), s.withAdapter v interface m none) := by
  unfold adapterFor
  rw [hid]
  dsimp only
  rw [Eval.outcome_get_bind, hoff, if_neg Bool.false_ne_true]
  exact Eval.outcome_map_of_ok (outcome_newAdapter_of_implements h interface none)

section Cached

variable (hon : s.config.adapterCache = true) (hidentity : v.identity? = some identity)
  (hid : interface.typeId? = some id)

include hon hidentity hid in
/-- With a cache, the key is the value and the interface. -/
theorem outcome_adapterFor_cached : (adapterFor v interface).outcome s =
    (.object <$> cachedAdapter (identity, id) (newAdapter v interface id (some (identity, id)))).outcome s := by
  unfold adapterFor
  rw [hid]
  dsimp only
  rw [Eval.outcome_get_bind, hon, if_pos rfl, hidentity]

variable {key : AdapterKey} {make : Eval NativeRef} {r : NativeRef}

/-- An adapter that is kept and referred to is given, and none is made. -/
theorem outcome_cachedAdapter_kept (hkept : s.releaseAdapters.upgrade? key = some r) :
    (cachedAdapter key make).outcome s = (.ok r, s.releaseAdapters) := by
  rw [cachedAdapter, Eval.outcome_bind_of_ok (Eval.outcome_modify _ _), Eval.outcome_get_bind, hkept]
  rfl

/-- Where there is none, also after one has been made, the one that was made is kept. -/
theorem outcome_cachedAdapter_made (hnone : s.releaseAdapters.upgrade? key = none)
    (hmade : make.outcome s.releaseAdapters = (.ok r, s')) (hstill : s'.upgrade? key = none) :
    (cachedAdapter key make).outcome s = (.ok r, { s' with adapters := Store.putEntry key r s'.adapters }) := by
  rw [cachedAdapter, Eval.outcome_bind_of_ok (Eval.outcome_modify _ _), Eval.outcome_get_bind, hnone]
  dsimp only
  rw [Eval.outcome_bind_of_ok hmade, Eval.outcome_get_bind, Store.publish, hstill]
  rfl

variable (hlive : s.releaseAdapters = s)
include hon hidentity hid hlive

/-- Where an adapter is kept that is referred to, and none is to be dropped, it is given and nothing changes. -/
theorem outcome_adapterFor_kept (hkept : s.upgrade? (identity, id) = some r) :
    (adapterFor v interface).outcome s = (.ok (.object r), s) := by
  rw [← hlive] at hkept
  rw [outcome_adapterFor_cached hon hidentity hid, Eval.outcome_map_of_ok (outcome_cachedAdapter_kept hkept), hlive]

/-- Where none is kept, one is made and kept. -/
theorem outcome_adapterFor_made (h : s.Implements v id m) (hnone : s.adapters.lookup (identity, id) = none) :
    (adapterFor v interface).outcome s = (.ok (.object ⟨s.natives.size⟩),
      { s.withAdapter v interface m (some (identity, id)) with
        adapters := s.adapters ++ [((identity, id), ⟨s.natives.size⟩)] }) := by
  have hmade : (newAdapter v interface id (some (identity, id))).outcome s.releaseAdapters =
      (.ok ⟨s.natives.size⟩, s.withAdapter v interface m (some (identity, id))) := by
    rw [hlive]
    exact outcome_newAdapter_of_implements h interface _
  have hbefore : s.releaseAdapters.upgrade? (identity, id) = none := by
    rw [hlive, Store.upgrade?, hnone, Option.filter_none]
  -- making the adapter puts nothing under the key, so the entry is still vacant
  have hstill : (s.withAdapter v interface m (some (identity, id))).upgrade? (identity, id) = none := by
    show (s.adapters.lookup (identity, id)).filter _ = none
    rw [hnone, Option.filter_none]
  rw [outcome_adapterFor_cached hon hidentity hid,
    Eval.outcome_map_of_ok (outcome_cachedAdapter_made hbefore hmade hstill)]
  show (_, ({ s.withAdapter v interface m (some (identity, id)) with
    adapters := Store.putEntry (identity, id) ⟨s.natives.size⟩ s.adapters } : Store)) = _
  rw [Store.putEntry_of_lookup_eq_none hnone]

end Cached

/-! ## Coercions -/

/-- What a coercion to an interface ends with. -/
inductive Store.Coerces (s : Store) (v : Script) (interface : Descriptor) : Except Stop Native × Store → Prop where
  | refused {stop : Stop} {s' : Store} (h : s.Browses s') : Coerces s v interface (.error stop, s')
  | null (hv : v = .null) : Coerces s v interface (.ok .null, s)
  | wrapped {n : Native} (hv : s.unwrap? v = some n) : Coerces s v interface (.ok n, s)
  | adapted {s₁ : Store} {id : TypeId} {m : Membership} (h : s.Browses s₁) (hidentity : v.identity?.isSome = true)
    (hv : s.unwrap? v = none) (hid : interface.typeId? = some id) (himplements : s₁.Implements v id m) :
    Coerces s v interface ((adapterFor v interface).outcome s₁)

/-- A wrapped value is an instance of an interface or has no rank for it. -/
theorem eq_nontrivial_of_ranked_interface {n : Native} (hv : s.unwrap? v = some n) {rank : Rank}
    (hrank : (rankTarget v (.interface interface)).outcome s = (.ok rank, s₁)) (hsome : rank.isNone = false) :
    rank = .nontrivial ∧ s₁ = s := by
  have hany : Target.interface interface ≠ .any := nofun
  rcases rankTarget_of_unwrap? hv hany with hclass | ⟨isArray, hwrapped⟩
  · rw [hclass] at hrank
    cases hrank
    cases hsome
  · rw [hwrapped] at hrank
    obtain ⟨hsame, rfl⟩ := Prod.mk.inj hrank
    obtain rfl := Except.ok.inj hsame
    rcases s.rankWrapped_cases n isArray (.interface interface) with
      ⟨hnontrivial, -⟩ | ⟨-, hnone | hstring | ⟨kind, hkind⟩ | ⟨_, _, _, hcollection, -⟩⟩
    · exact ⟨hnontrivial, rfl⟩
    · rw [hnone] at hsome
      cases hsome
    · cases hstring
    · cases hkind
    · cases hcollection

/-- **All that a coercion to an interface does.** -/
theorem convert_coerces {d : Descriptor} (htarget : s.types.targetOf d = .ok (.interface interface)) (v : Script) :
    s.Coerces v interface ((convert d v).outcome s) := by
  have hd : ∀ members, d = .union members → False := by
    rintro members rfl
    cases htarget
  obtain ⟨parts, hconvert⟩ := exists_convertBy hd v
  have hbrowses := (browses_rankTarget v (.interface interface) s).store
  have hany : Target.interface interface ≠ .any := nofun
  rw [hconvert]
  rcases hrank : (rankTarget v (.interface interface)).outcome s with ⟨stop | rank, s₁⟩ <;> rw [hrank] at hbrowses
  · rw [convertBy, Eval.outcome_get_bind, htarget, Eval.outcome_bind_of_ok (Eval.outcome_ofResult _ _),
      Eval.outcome_bind_of_error hrank]
    exact .refused hbrowses
  · cases hsome : rank.isNone with
    | true =>
      rw [outcome_convertBy_unranked htarget hrank hsome parts]
      -- the failure describes the value, which looks members up and gives nothing
      have hdescribes := (browses_cannotConvert v d (α := Native) s₁).store
      rcases hrun : (cannotConvert v d : Eval Native).outcome s₁ with ⟨stop | n, s₂⟩
      · rw [hrun] at hdescribes
        exact .refused (hbrowses.trans hdescribes)
      · exact (givesAt_cannotConvert (P := fun _ _ => False) n s₂ hrun).elim
    | false =>
      cases hidentity : v.identity? with
      | none =>
        -- of the values that are neither objects nor functions only null has a rank
        cases v with
        | null =>
          cases hrank
          rw [convertBy, Eval.outcome_get_bind, htarget]
          exact .null rfl
        | object r => cases hidentity
        | callable r => cases hidentity
        | _ =>
          cases hrank
          cases hsome
      | some identity =>
        have hreference : v.identity?.isSome = true := by rw [hidentity]; rfl
        rw [outcome_convertBy hreference htarget hany hrank hsome parts]
        cases hv : s.unwrap? v with
        | some n =>
          obtain ⟨rfl, rfl⟩ := eq_nontrivial_of_ranked_interface hv hrank hsome
          exact .wrapped hv
        | none =>
          obtain ⟨id, m, hid, himplements⟩ := exists_implements_of_ranked hreference hv hrank hsome
          exact .adapted hbrowses hreference hv hid himplements

end Interop
