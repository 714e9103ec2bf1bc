import Interop.Proofs.Coercion.Adapting
import Interop.Proofs.Coercion.Identity

/-!
# Keeping track of adapters

With the cache on, a store keeps the adapters that live, each once and under the script value and the interface that it
adapts. Coercions add an adapter only where none is kept, and what nothing holds any more cannot come back, since a
coercion makes new references only to what lives. With the cache off nothing is kept.

* **`Store.Tracked`**, **`Store.Accounted`**: what holds while adapters come and go.
* **`Store.Orderly`**: what holds besides once those that do not live are let go.
* **`Store.Orderly.coerced`**: a coercion, with its result in use, keeps track of adapters.
* **`Store.Orderly.convert_of_kept`**: an adapter that lives is given again.
* **`Store.Orderly.convert_of_ranked`**: a value that can be adapted gets an adapter, which is kept already or new.
-/

namespace Interop

namespace Store

variable {s s' s₁ : Store} {v : Script} {interface : Descriptor} {id : TypeId} {m : Membership} {r : NativeRef}
  {key : AdapterKey} {kept : AdapterKey × NativeRef} {x : Referent}

/-! ## Adapters and their keys -/

/-- An adapter of the script value and the interface that a key names. -/
def Adapts (s : Store) (key : AdapterKey) (r : NativeRef) : Prop :=
  ∃ target interface m published, s.native r = .adapter target interface m published ∧
    target.identity? = some key.1 ∧ interface.typeId? = some key.2

/-- An adapter has one key. -/
theorem Adapts.key_unique {key' : AdapterKey} (h : s.Adapts key r) (h' : s.Adapts key' r) : key = key' := by
  obtain ⟨target, interface, m, published, hnative, hidentity, hid⟩ := h
  obtain ⟨_, _, _, _, hnative', hidentity', hid'⟩ := h'
  rw [hnative] at hnative'
  cases hnative'
  have hfirst : key.1 = key'.1 := Option.some.inj (hidentity.symm.trans hidentity')
  have hsecond : key.2 = key'.2 := Option.some.inj (hid.symm.trans hid')
  exact Prod.ext hfirst hsecond

theorem Adapts.isSome_adapted? (h : s.Adapts key r) : (s.native r).adapted?.isSome = true := by
  obtain ⟨target, interface, m, published, hnative, -⟩ := h
  rw [hnative]
  rfl

/-- What was never made reads as an object that is no adapter. -/
theorem mem_referents_of_adapted? (h : (s.native r).adapted?.isSome = true) : .native r ∈ s.referents := by
  rw [mem_referents]
  by_contra hsize
  have hunset : s.native r = .record Standard.objectName none [] := by
    rw [native, Array.getD_eq_getD_getElem?, Array.getElem?_eq_none (Nat.le_of_not_lt hsize)]
    rfl
  rw [hunset] at h
  cases h

/-- An adapter under its key, whose script value can be adapted at any time. -/
structure Named (s : Store) (kept : AdapterKey × NativeRef) : Prop where
  adapts : s.Adapts kept.1 kept.2
  key : (s.native kept.2).cacheKey? = some kept.1
  made : ∀ v : Script, v.identity? = some kept.1.1 → ∀ x ∈ v.held, x ∈ s.referents
  able : ∀ v : Script, v.identity? = some kept.1.1 → ∃ m, s.Implements v kept.1.2 m

/-- An entry stays right as long as its adapter stays, and the value that it names can still implement the interface. -/
theorem Named.change (h : s.Named kept) (hnative : s'.native kept.2 = s.native kept.2)
    (hmade : ∀ x ∈ s.referents, x ∈ s'.referents)
    (hable : ∀ v id m, (∀ x ∈ v.held, x ∈ s.referents) → s.Implements v id m → s'.Implements v id m) :
    s'.Named kept where
  adapts := by
    unfold Adapts
    rw [hnative]
    exact h.adapts
  key := by
    rw [hnative]
    exact h.key
  made v hv x hx := hmade x (h.made v hv x hx)
  able v hv := by
    obtain ⟨m, himplements⟩ := h.able v hv
    exact ⟨m, hable v _ m (h.made v hv) himplements⟩

/-- What is in use, kept, referred to or recorded does not matter. -/
theorem Named.frame (h : s.Named kept) (inUse : List Referent) (adapters : List (AdapterKey × NativeRef))
    (referred : List NativeRef) (calls : List CallRecord) :
    ({ s with inUse := inUse, adapters := adapters, referred := referred, calls := calls } : Store).Named kept :=
  h.change rfl (fun _ hx => hx) fun _ _ _ _ himplements => ⟨himplements.members, himplements.able⟩

/-- Browsing changes neither natives nor what was made. -/
theorem Named.browses (h : s.Named kept) (hbrowses : s.Browses s') : s'.Named kept := by
  refine h.change ?_ (fun x hx => ?_) fun v id m _ himplements => himplements.browses hbrowses
  · obtain ⟨objects, cache, rfl⟩ := hbrowses.exists_eq
    rfl
  · rw [hbrowses.referents_eq]
    exact hx

/-- New parts leave the entries that were there right. -/
theorem Named.adds (h : s.Named kept) (hadds : s.Adds s' x) : s'.Named kept := by
  refine h.change (hadds.natives _ (mem_referents_of_adapted? h.adapts.isSome_adapted?))
    (fun y hy => (hadds.made y).mpr (.inl hy)) fun v id m hv himplements => ?_
  constructor
  · rw [hadds.memberCache, hadds.config]
    exact himplements.members
  · rw [hadds.kindOf hv]
    exact himplements.able

/-! ## Keeping track -/

/-- The adapters that live are kept, each once, under the value and the interface that it adapts. What is kept has
been referred to, though it may have died since. -/
structure Tracked (s : Store) : Prop where
  named : ∀ kept ∈ s.adapters, s.Named kept
  referred : ∀ kept ∈ s.adapters, kept.2 ∈ s.referred
  distinct : (s.adapters.map (·.1)).Nodup
  complete : ∀ r, (s.native r).adapted?.isSome = true → s.Lives (.native r) → ∃ key, (key, r) ∈ s.adapters

/-- What is tracked was published: kept under its own key, and referred to. -/
theorem Tracked.published (h : s.Tracked) : s.Published := ⟨fun kept hkept => (h.named kept hkept).key, h.referred⟩

/-- Keys are distinct, so an entry is the one that its key finds. -/
theorem Tracked.lookup (h : s.Tracked) (hkept : (key, r) ∈ s.adapters) : s.adapters.lookup key = some r :=
  lookup_of_mem h.distinct hkept

/-- What is kept is given. -/
theorem Tracked.upgrade? (h : s.Tracked) (hkept : (key, r) ∈ s.adapters) : s.upgrade? key = some r :=
  upgrade?_eq_some_iff.mpr ⟨h.lookup hkept, h.referred _ hkept⟩

/-- Tracking is kept while the store is browsed. -/
theorem Tracked.browses (h : s.Tracked) (hbrowses : s.Browses s') : s'.Tracked := by
  have hnamed := fun kept hkept => (h.named kept hkept).browses hbrowses
  have hlives : ∀ r, s'.Lives (.native r) → s.Lives (.native r) := fun r => hbrowses.lives_iff.mp
  obtain ⟨objects, cache, rfl⟩ := hbrowses.exists_eq
  exact ⟨hnamed, h.referred, h.distinct, fun r hr hlive => h.complete r hr (hlives r hlive)⟩

/-- What is in use may change among what lives. -/
theorem Tracked.withInUse (h : s.Tracked) {inUse : List Referent} (hinUse : ∀ x ∈ inUse, x ∈ s.referents → s.Lives x)
    (calls : List CallRecord) : ({ s with inUse := inUse, calls := calls } : Store).Tracked where
  named kept hkept := (h.named kept hkept).frame inUse s.adapters s.referred calls
  referred := h.referred
  distinct := h.distinct
  complete r hr hlive := by
    -- the roots change among what lives, and all references stay
    have hlived : s.Lives (.native r) := by
      refine Lives.of_change ?_ ?_ hlive hlive.made
      · intro y hy hmade
        rcases mem_roots.mp hy with hused | hheld
        · exact hinUse y hused hmade
        · exact lives_of_root hmade (mem_roots.mpr (.inr hheld))
      · exact fun z hz y hy _ => .inr ⟨hz.made, hy⟩
    exact h.complete r hr hlived

/-- One more object, which is no adapter or is kept under a new key. -/
theorem Tracked.adds (h : s.Tracked) (hadds : s.Adds s' x)
    (hx : ∀ y ∈ s'.references x, y ∈ s.referents → s.Lives y) {added : List (AdapterKey × NativeRef)}
    (hadapters : s'.adapters = s.adapters ++ added) (hnamed : ∀ kept ∈ added, s'.Named kept)
    (hreferred : s.referred ⊆ s'.referred) (hadded : ∀ kept ∈ added, kept.2 ∈ s'.referred)
    (hdistinct : (s'.adapters.map (·.1)).Nodup)
    (hcomplete : ∀ r, x = .native r → (s'.native r).adapted?.isSome = true → ∃ key, (key, r) ∈ added) : s'.Tracked where
  named kept hkept := by
    rw [hadapters, List.mem_append] at hkept
    rcases hkept with hold | hnew
    · exact (h.named kept hold).adds hadds
    · exact hnamed kept hnew
  referred kept hkept := by
    rw [hadapters, List.mem_append] at hkept
    rcases hkept with hold | hnew
    · exact hreferred (h.referred kept hold)
    · exact hadded kept hnew
  distinct := hdistinct
  complete r hr hlive := by
    rw [hadapters]
    -- an adapter that was there before lived before, and is kept since
    rcases (hadds.made _).mp hlive.made with hold | hnew
    · rw [hadds.natives r hold] at hr
      obtain ⟨key, hkey⟩ := h.complete r hr (hadds.lives hx hlive hold)
      exact ⟨key, List.mem_append_left _ hkey⟩
    · obtain ⟨key, hkey⟩ := hcomplete r hnew.symm hr
      exact ⟨key, List.mem_append_right _ hkey⟩

/-- A new adapter of a value that lives, where none is kept. -/
theorem Tracked.withAdapter (h : s.Tracked) (hv : ∀ x ∈ v.held, s.Lives x) (himplements : s.Implements v id m)
    {identity : Identity} (hidentity : v.identity? = some identity) (hid : interface.typeId? = some id)
    (hnone : s.adapters.lookup (identity, id) = none) :
    ({ s.withAdapter v interface m (some (identity, id)) with
      adapters := s.adapters ++ [((identity, id), ⟨s.natives.size⟩)]
      inUse := .native ⟨s.natives.size⟩ :: s.inUse } : Store).Tracked := by
  have hadds := s.adds_native (.adapter v interface m (some (identity, id)))
    (s.adapters ++ [((identity, id), ⟨s.natives.size⟩)]) (s.referred ++ [⟨s.natives.size⟩])
  have hnative : (s.withAdapter v interface m (some (identity, id))).native ⟨s.natives.size⟩ =
      .adapter v interface m (some (identity, id)) := s.native_addNative _
  refine h.adds hadds (fun y hy hmade => ?_) rfl (fun kept hkept => ?_) (List.subset_append_left _ _)
    (fun kept hkept => ?_) ?_ fun r hr _ => ?_
  · -- the adapter holds the value, and members of the interface, which are kept
    have hholds : y ∈ v.held ++ m.held := by
      have href : y ∈ ((s.withAdapter v interface m (some (identity, id))).native ⟨s.natives.size⟩).held := hy
      rw [hnative] at href
      exact href
    rcases List.mem_append.mp hholds with hvalue | hmembers
    · exact hv y hvalue
    · exact lives_of_root hmade (mem_roots.mpr (.inr (.inr ⟨_, mem_of_lookup himplements.members, hmembers⟩)))
  · -- the new entry is named by its own adapter, and the key belongs to this value alone
    rw [List.mem_singleton.mp hkept]
    have hsame : ∀ u : Script, u.identity? = some identity → u = v := fun u hu => Script.eq_of_identity? hu hidentity
    refine ⟨⟨v, interface, m, _, hnative, hidentity, hid⟩, ?_, fun u hu y hy => ?_, fun u hu => ⟨m, ?_⟩⟩
    · exact congrArg NativeObject.cacheKey? hnative
    · rw [hsame u hu] at hy
      exact (hadds.made y).mpr (.inl (hv y hy).made)
    · rw [hsame u hu]
      exact ⟨himplements.members, himplements.able⟩
  · rw [List.mem_singleton.mp hkept]
    exact List.mem_append_right _ (List.mem_singleton_self _)
  · exact nodup_keys_append h.distinct hnone _
  · cases hr
    exact ⟨_, List.mem_singleton_self _⟩

/-! ## With and without a cache -/

/-- With the cache on the adapters are tracked, and with the cache off none is kept. -/
structure Accounted (s : Store) : Prop where
  tracked : s.config.adapterCache = true → s.Tracked
  empty : s.config.adapterCache = false → s.adapters = []

/-- With the cache on this is part of tracking, and with the cache off there is nothing to publish. -/
theorem Accounted.published (h : s.Accounted) : s.Published := by
  cases hcache : s.config.adapterCache with
  | true => exact (h.tracked hcache).published
  | false =>
    have hnone := h.empty hcache
    constructor <;> rw [hnone] <;> exact List.forall_mem_nil _

/-- Once those that do not live are dropped, the adapters that are referred to live. -/
structure Orderly (s : Store) : Prop extends s.Accounted where
  live : ∀ r ∈ s.referred, s.Lives (.native r)

theorem Orderly.lives_kept (h : s.Orderly) (hkept : kept ∈ s.adapters) : s.Lives (.native kept.2) :=
  h.live _ (h.published.referred kept hkept)

/-- What is in use may change among what lives, as for tracking. -/
theorem Accounted.withInUse (h : s.Accounted) {inUse : List Referent} (hinUse : ∀ x ∈ inUse, x ∈ s.referents → s.Lives x)
    (calls : List CallRecord) : ({ s with inUse := inUse, calls := calls } : Store).Accounted :=
  ⟨fun hon => (h.tracked hon).withInUse hinUse calls, h.empty⟩

/-- **Dropping the adapters that do not live leaves exactly those that live.** -/
theorem Accounted.releaseAdapters (h : s.Accounted) : s.releaseAdapters.Orderly := by
  have hkept : ∀ kept, kept ∈ s.releaseAdapters.adapters ↔ kept ∈ s.adapters ∧ s.Lives (.native kept.2) :=
    fun kept => h.published.mem_releaseAdapters
  have hreferred : ∀ r, r ∈ s.releaseAdapters.referred ↔ r ∈ s.referred ∧ s.Lives (.native r) :=
    fun r => h.published.mem_referred_releaseAdapters
  obtain ⟨adapters, referred, heq, hfewer⟩ := s.releaseAdapters_frame
  rw [heq] at hkept hreferred ⊢
  have hlives : ∀ r, ({ s with adapters := adapters, referred := referred } : Store).Lives r ↔ s.Lives r :=
    fun r => lives_frame adapters referred s.calls
  refine ⟨⟨fun hon => ⟨fun kept hmem => ?_, fun kept hmem => ?_, ?_, fun r hr hlive => ?_⟩, fun hoff => ?_⟩,
    fun r hr => ?_⟩
  · exact ((h.tracked hon).named kept ((hkept kept).mp hmem).1).frame s.inUse adapters referred s.calls
  · obtain ⟨hold, hlive⟩ := (hkept kept).mp hmem
    exact (hreferred kept.2).mpr ⟨(h.tracked hon).referred kept hold, hlive⟩
  · exact (h.tracked hon).distinct.sublist (hfewer.map _)
  · -- what lives does not depend on what is kept, so one look at what lives is enough
    have hlived := (hlives _).mp hlive
    obtain ⟨key, hkey⟩ := (h.tracked hon).complete r hr hlived
    exact ⟨key, (hkept _).mpr ⟨hkey, hlived⟩⟩
  · exact List.sublist_nil.mp (h.empty hoff ▸ hfewer)
  · exact (hlives _).mpr ((hreferred r).mp hr).2

theorem Orderly.browses (h : s.Orderly) (hbrowses : s.Browses s') : s'.Orderly := by
  have htracked := fun hon => (h.tracked hon).browses hbrowses
  have hlives : ∀ r, s.Lives (.native r) → s'.Lives (.native r) := fun r => hbrowses.lives_iff.mpr
  obtain ⟨objects, cache, rfl⟩ := hbrowses.exists_eq
  exact ⟨⟨htracked, h.empty⟩, fun r hr => hlives r (h.live r hr)⟩

theorem Orderly.releaseAdapters_eq (h : s.Orderly) : s.releaseAdapters = s := h.published.releaseAdapters_of_lives h.live

/-! ## Coercions -/

/-- A store that keeps track of adapters while what was in use still is, and more. -/
structure Continues (s : Store) (held : List Referent) (s' : Store) : Prop where
  accounted : (s'.withInUse (held ++ s.inUse)).Accounted
  config : s'.config = s.config

/-- Without a change, more of what lives may come into use. -/
theorem Orderly.continues (h : s.Orderly) {held : List Referent} (hheld : ∀ x ∈ held, x ∈ s.referents → s.Lives x) :
    s.Continues held s := by
  refine ⟨h.withInUse (fun x hx hmade => ?_) s.calls, rfl⟩
  rcases List.mem_append.mp hx with hnew | hused
  · exact hheld x hnew hmade
  · exact lives_of_root hmade (mem_roots.mpr (.inl hused))

/-- What continues after browsing continues what was before. -/
theorem Continues.browses (hbrowses : s.Browses s₁) {held : List Referent} (h : s₁.Continues held s') :
    s.Continues held s' := by
  obtain ⟨objects, cache, rfl⟩ := hbrowses.exists_eq
  exact ⟨h.accounted, h.config⟩

/-- What a proxy that lives wraps lives. -/
theorem lives_of_unwrap? {n : Native} (hv : ∀ x ∈ v.held, s.Lives x) (hn : s.unwrap? v = some n) (hx : x ∈ n.held)
    (hmade : x ∈ s.referents) : s.Lives x := by
  obtain ⟨ref, p, rfl, hp, rfl⟩ := exists_proxy_of_unwrap? hn
  refine lives_of_held hmade (.inr ⟨.object ref, hv _ List.mem_cons_self, ?_⟩)
  simp only [references, hp, ScriptObject.held, List.mem_append]
  exact .inl hx

/-- **Adapting a value gives an adapter of it**: the one that is kept, or one that was not there before. -/
theorem Orderly.adapted (h : s.Orderly) {identity : Identity} (hidentity : v.identity? = some identity)
    (hid : interface.typeId? = some id) (himplements : s.Implements v id m) :
    ∃ r s', (adapterFor v interface).outcome s = (.ok (.object r), s') ∧ s'.Adapts (identity, id) r ∧
      ((s.config.adapterCache = true ∧ ((identity, id), r) ∈ s.adapters) ∨ r = ⟨s.natives.size⟩) ∧
      ((∀ x ∈ v.held, s.Lives x) → s.Continues [.native r] s') := by
  have hnew : ∀ key, (s.withAdapter v interface m key).Adapts (identity, id) ⟨s.natives.size⟩ := fun key =>
    ⟨v, interface, m, key, s.native_addNative _, hidentity, hid⟩
  cases hcache : s.config.adapterCache with
  | false =>
    refine ⟨_, _, outcome_adapterFor_uncached hcache hid himplements, hnew none, .inr rfl, fun _ => ?_⟩
    refine ⟨⟨fun hon => ?_, h.empty⟩, rfl⟩
    cases hcache.symm.trans hon
  -- with the cache on the adapter was kept under the key, or is made and kept now
  | true =>
    have htracked := h.tracked hcache
    cases hlookup : s.adapters.lookup (identity, id) with
    | some r =>
      have hkept := mem_of_lookup hlookup
      refine ⟨r, s, outcome_adapterFor_kept hcache hidentity hid h.releaseAdapters_eq (htracked.upgrade? hkept),
        (htracked.named _ hkept).adapts, .inl ⟨rfl, hkept⟩, fun _ => h.continues fun x hx _ => ?_⟩
      rw [List.mem_singleton.mp hx]
      exact h.lives_kept hkept
    | none =>
      refine ⟨_, _, outcome_adapterFor_made hcache hidentity hid h.releaseAdapters_eq himplements hlookup, hnew _, .inr rfl,
        fun hv => ?_⟩
      refine ⟨⟨fun _ => htracked.withAdapter hv himplements hidentity hid hlookup, fun hoff => ?_⟩, rfl⟩
      cases hcache.symm.trans hoff

/-- What a computation does to adapters, with its result in use. -/
def Continued (s : Store) (held : α → List Referent) : Except Stop α × Store → Prop
  | (.ok a, s') => s.Continues (held a) s'
  | (.error _, s') => s.Continues [] s'

/-- **A coercion to an interface keeps track of adapters.** -/
theorem Orderly.coerced (h : s.Orderly) (hv : ∀ x ∈ v.held, s.Lives x) {outcome : Except Stop Native × Store}
    (hcoerces : s.Coerces v interface outcome) : s.Continued Native.held outcome := by
  cases hcoerces with
  | refused hbrowses =>
    show s.Continues [] _
    exact .browses hbrowses ((h.browses hbrowses).continues (List.forall_mem_nil _))
  | null hnull =>
    show s.Continues [] s
    exact h.continues (List.forall_mem_nil _)
  | @wrapped n hn =>
    show s.Continues n.held s
    exact h.continues fun x hx hmade => lives_of_unwrap? hv hn hx hmade
  | @adapted s₁ id m hbrowses hidentity _ hid himplements =>
    -- ranking came first; it let nothing die, so the value still lives
    have hlives : ∀ x ∈ v.held, s₁.Lives x := fun x hx => hbrowses.lives_iff.mpr (hv x hx)
    obtain ⟨identity, hidentity⟩ := Option.isSome_iff_exists.mp hidentity
    obtain ⟨r, s', hrun, -, -, hcontinues⟩ := (h.browses hbrowses).adapted hidentity hid himplements
    rw [hrun]
    exact .browses hbrowses (hcontinues hlives)

/-- A coercion that fails has only looked at things. -/
theorem Orderly.browses_of_failed (h : s.Orderly) {stop : Stop}
    (hcoerces : s.Coerces v interface (.error stop, s')) : s.Browses s' := by
  generalize houtcome : (Except.error stop, s') = outcome at hcoerces
  cases hcoerces with
  | refused hbrowses =>
    cases houtcome
    exact hbrowses
  | null => cases houtcome
  | wrapped => cases houtcome
  | @adapted s₁ id m hbrowses hidentity _ hid himplements =>
    obtain ⟨identity, hidentity⟩ := Option.isSome_iff_exists.mp hidentity
    obtain ⟨r, s₂, hrun, -⟩ := (h.browses hbrowses).adapted hidentity hid himplements
    cases houtcome.trans hrun

/-- A new script object or function that holds only what lives. -/
theorem Orderly.continues_adds (h : s.Orderly) (hadds : s.Adds (s'.withInUse (x :: s.inUse)) x)
    (hx : ∀ y ∈ s'.references x, s.Lives y) (hscript : ∀ r, x ≠ .native r) (hadapters : s'.adapters = s.adapters)
    (hreferred : s'.referred = s.referred) : s.Continues [x] s' := by
  have hconfig : s'.config = s.config := hadds.config
  refine ⟨⟨fun hon => ?_, fun hoff => ?_⟩, hconfig⟩
  · have htracked := h.tracked (hconfig ▸ hon)
    have hsame : (s'.withInUse (x :: s.inUse)).adapters = s.adapters ++ [] := by
      rw [List.append_nil]
      exact hadapters
    refine htracked.adds hadds (fun y hy _ => hx y ?_) hsame (List.forall_mem_nil _)
      (hreferred ▸ List.Subset.refl _) (List.forall_mem_nil _) ?_ fun r hr => absurd hr (hscript r)
    · cases x <;> exact hy
    · show (s'.adapters.map (·.1)).Nodup
      rw [hadapters]
      exact htracked.distinct
  · exact hadapters.trans (h.empty (hconfig ▸ hoff))

/-- A new script object continues the store where what it holds lives. -/
theorem Orderly.newObject (h : s.Orderly) {o : ScriptObject} (ho : ∀ x ∈ o.held, s.Lives x) :
    s.Continued Script.held ((Eval.newObject o).outcome s) := by
  show s.Continues [.object ⟨s.objects.size⟩] (s.addObject o).2
  refine h.continues_adds (s.adds_object o) (fun y hy => ho y ?_) nofun rfl rfl
  have hread : (s.addObject o).2.object ⟨s.objects.size⟩ = o := by simp [addObject, object]
  rw [references, hread] at hy
  exact hy

theorem Orderly.newFunction (h : s.Orderly) {f : ScriptFunction} (hf : ∀ x ∈ f.held, s.Lives x) :
    s.Continued Script.held ((Eval.newFunction f).outcome s) := by
  show s.Continues [.function ⟨s.functions.size⟩] (s.addFunction f).2
  refine h.continues_adds (s.adds_function f) (fun y hy => hf y ?_) nofun rfl rfl
  have hread : (s.addFunction f).2.function ⟨s.functions.size⟩ = f := by simp [addFunction, function]
  rw [references, hread] at hy
  exact hy

end Store

/-! ## What a coercion gives -/

section Giving

variable {s s₁ : Store} {v : Script} {interface : Descriptor} {id : TypeId} {m : Membership} {d : Descriptor}
  (htarget : s.types.targetOf d = .ok (.interface interface))

theorem Store.Implements.unwrap? (h : s.Implements v id m) : s.unwrap? v = none := by
  cases v with
  | object r =>
    show (s.object r).native? = none
    have hkind : (s.object r).kindOf = .scriptCallable ∨ (s.object r).kindOf = .scriptObject := h.able.imp (·.1) (·.1)
    cases hobject : s.object r with
    | proxy p =>
      rw [hobject] at hkind
      cases hproxy : p.kind <;> rw [ScriptObject.kindOf, hproxy] at hkind <;> rcases hkind with hkind | hkind <;> cases hkind
    | _ => rfl
  | _ => rfl

include htarget

/-- A function or object that has a rank for an interface is adapted to it. -/
theorem outcome_convert_of_ranked (hidentity : v.identity?.isSome = true) (hv : s.unwrap? v = none) {rank : Rank}
    (hrank : (rankTarget v (.interface interface)).outcome s = (.ok rank, s₁)) (hsome : rank.isNone = false) :
    (convert d v).outcome s = (adapterFor v interface).outcome s₁ := by
  have hd : ∀ members, d = .union members → False := by
    rintro members rfl
    cases htarget
  have hany : Target.interface interface ≠ .any := nofun
  obtain ⟨parts, hconvert⟩ := exists_convertBy hd v
  rw [hconvert, outcome_convertBy hidentity htarget hany hrank hsome parts, hv]
  rfl

/-- **An adapter that lives is given again**, for every type that comes to its interface, and nothing changes. -/
theorem Store.Orderly.convert_of_kept (h : s.Orderly) (hon : s.config.adapterCache = true)
    {key : AdapterKey} {r : NativeRef} (hkept : (key, r) ∈ s.adapters) (hidentity : v.identity? = some key.1)
    (hid : interface.typeId? = some key.2) : (convert d v).outcome s = (.ok (.object r), s) := by
  have htracked := h.tracked hon
  -- the value was adapted before, so it has the rank that lets it be adapted again
  obtain ⟨m, himplements⟩ := (htracked.named _ hkept).able v hidentity
  have hreference : v.identity?.isSome = true := by rw [hidentity]; rfl
  rw [outcome_convert_of_ranked htarget hreference himplements.unwrap? (himplements.rank hid) rfl]
  exact outcome_adapterFor_kept hon hidentity hid h.releaseAdapters_eq (htracked.upgrade? hkept)

/-- **A value that can be adapted gets an adapter**, which was kept, or was not there before. -/
theorem Store.Orderly.convert_of_ranked (h : s.Orderly) {identity : Identity} (hidentity : v.identity? = some identity)
    (hv : s.unwrap? v = none) {rank : Rank} (hrank : (rankTarget v (.interface interface)).outcome s = (.ok rank, s₁))
    (hsome : rank.isNone = false) :
    ∃ id r s', interface.typeId? = some id ∧ (convert d v).outcome s = (.ok (.object r), s') ∧
      s'.Adapts (identity, id) r ∧
      ((s.config.adapterCache = true ∧ ((identity, id), r) ∈ s.adapters) ∨ r = ⟨s.natives.size⟩) := by
  have hreference : v.identity?.isSome = true := by rw [hidentity]; rfl
  obtain ⟨id, m, hid, himplements⟩ := exists_implements_of_ranked hreference hv hrank hsome
  have hbrowses := (browses_rankTarget v (.interface interface) s).store
  rw [hrank] at hbrowses
  obtain ⟨r, s', hrun, hadapts, hr, -⟩ := (h.browses hbrowses).adapted hidentity hid himplements
  rw [outcome_convert_of_ranked htarget hreference hv hrank hsome]
  obtain ⟨objects, cache, rfl⟩ := hbrowses.exists_eq
  exact ⟨id, r, s', hid, hrun, hadapts, hr⟩

end Giving

end Interop
