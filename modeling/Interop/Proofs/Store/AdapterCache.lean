import Interop.Proofs.Lookup
import Interop.Store.Liveness

/-!
# Dropping adapters

A dropped adapter takes its entry away, and only its own: an entry that another adapter has taken over in the meantime
stays. So adapters may be dropped one by one, each looking at its own key only; where every entry is that of an adapter
which was made for it and is still referred to, the entries that are left in the end are those of the adapters that live.

* **`dropAdapter_eq`**: what is left when an adapter is dropped, whatever the entries are.
* **`upgrade?_dropAdapter_publish`**: what has taken an entry over keeps it when its predecessor is dropped.
* **`Published.releaseAdapters_eq`**: dropping the adapters that do not live leaves the entries of those that do.
-/

namespace Interop.Store

variable {s : Store} {r : NativeRef} {key : AdapterKey} {kept : AdapterKey × NativeRef}

/-! ## Dropping one adapter -/

/-- All that a dropped adapter does: an entry goes if it is under the key of the adapter and nothing refers to its
own adapter, as nothing does to the dropped one. -/
theorem dropAdapter_eq (s : Store) (r : NativeRef) : s.dropAdapter r =
    { s with
      adapters := s.adapters.filter fun kept =>
        (s.native r).cacheKey? ≠ some kept.1 || (s.referred.filter (· ≠ r)).contains kept.2
      referred := s.referred.filter (· ≠ r) } := by
  have hnative : ({ s with referred := s.referred.filter (· ≠ r) } : Store).native r = s.native r := rfl
  unfold dropAdapter
  simp only [hnative]
  cases (s.native r).cacheKey? with
  | none =>
    -- without a key, no entry is looked at
    simp only [ne_eq, reduceCtorEq, not_false_eq_true, decide_true, Bool.true_or]
    rw [List.filter_eq_self.mpr fun _ _ => rfl]
  | some key => simp only [forget, ne_eq, Option.some.injEq, eq_comm (a := key)]

/-- Nothing but the entries and what is referred to changes where adapters are dropped, and no entry is new. -/
theorem releaseAdapters_frame (s : Store) : ∃ adapters referred,
    s.releaseAdapters = { s with adapters := adapters, referred := referred } ∧ adapters.Sublist s.adapters := by
  unfold releaseAdapters
  split
  · exact ⟨s.adapters, s.referred, rfl, List.Sublist.refl _⟩
  · refine List.foldlRecOn (motive := fun later => ∃ adapters referred,
      later = ({ s with adapters := adapters, referred := referred } : Store) ∧ adapters.Sublist s.adapters) _ _
      ⟨s.adapters, s.referred, rfl, List.Sublist.refl _⟩ ?_
    rintro _ ⟨adapters, referred, rfl, hsublist⟩ r -
    rw [dropAdapter_eq]
    exact ⟨_, _, rfl, List.filter_sublist.trans hsublist⟩

/-- To let adapters go is to take entries away; no object changes. -/
theorem natives_releaseAdapters (s : Store) : s.releaseAdapters.natives = s.natives := by
  obtain ⟨adapters, referred, heq, -⟩ := s.releaseAdapters_frame
  rw [heq]

/-! ## Entries -/

/-- An adapter that is put in is found under its key, and whatever was found under other keys still is. -/
theorem lookup_putEntry (key : AdapterKey) (r : NativeRef) (entries : List (AdapterKey × NativeRef))
    (k : AdapterKey) : (putEntry key r entries).lookup k = if k = key then some r else entries.lookup k :=
  lookup_of_insertion (putEntry key r) rfl (fun _ _ => rfl) entries k

/-- An entry that is there after an adapter has been put in is that adapter's, or was there before. -/
theorem mem_putEntry {entries : List (AdapterKey × NativeRef)} (h : kept ∈ putEntry key r entries) :
    kept ∈ entries ∨ kept = (key, r) := by
  induction entries with
  | nil => exact .inr (List.mem_singleton.mp h)
  | cons first rest ih =>
    rw [putEntry] at h
    split at h
    · next hfirst =>
      rcases List.mem_cons.mp h with rfl | hrest
      · exact .inr (congrArg (·, r) hfirst)
      · exact .inl (List.mem_cons_of_mem _ hrest)
    · rcases List.mem_cons.mp h with rfl | hrest
      · exact .inl List.mem_cons_self
      · exact (ih hrest).imp_left (List.mem_cons_of_mem _)

/-- Where a key has no entry, the adapter that is put under it goes to the end. -/
theorem putEntry_of_lookup_eq_none {entries : List (AdapterKey × NativeRef)} (h : entries.lookup key = none)
    (r : NativeRef) : putEntry key r entries = entries ++ [(key, r)] := by
  induction entries with
  | nil => rfl
  | cons first rest ih =>
    rw [lookup_cons_ite] at h
    split at h
    · cases h
    · next hne => rw [putEntry, if_neg (Ne.symm hne), ih h, List.cons_append]

/-- An entry is upgraded to the adapter that it names, if that one is referred to. -/
theorem upgrade?_eq_some_iff : s.upgrade? key = some r ↔ s.adapters.lookup key = some r ∧ r ∈ s.referred := by
  rw [upgrade?, Option.filter_eq_some_iff, List.contains_iff_mem]

/-- Whatever is published, an adapter that is referred to is found under the key from then on. -/
theorem upgrade?_publish (hr : r ∈ s.referred) :
    (s.publish key r).2.upgrade? key = some (s.publish key r).1 := by
  unfold publish
  cases hfound : s.upgrade? key with
  | some winner => exact hfound
  | none => exact upgrade?_eq_some_iff.mpr ⟨(lookup_putEntry key r s.adapters key).trans (if_pos rfl), hr⟩

/-- An adapter that is found under a key is found there when another one is dropped. -/
theorem upgrade?_dropAdapter {winner : NativeRef} (hwinner : s.upgrade? key = some winner) (hne : winner ≠ r) :
    (s.dropAdapter r).upgrade? key = some winner := by
  obtain ⟨hkept, hreferred⟩ := upgrade?_eq_some_iff.mp hwinner
  rw [upgrade?_eq_some_iff, dropAdapter_eq]
  exact ⟨lookup_filter hkept _ (by simp [hreferred, hne]), List.mem_filter.mpr ⟨hreferred, decide_eq_true hne⟩⟩

/-- **A dropped adapter leaves its successor alone**: what has been published under its key since nothing referred to it
is found there afterwards. -/
theorem upgrade?_dropAdapter_publish {made : NativeRef} (hgone : r ∉ s.referred) (hmade : made ∈ s.referred)
    (key : AdapterKey) : ((s.publish key made).2.dropAdapter r).upgrade? key = some (s.publish key made).1 := by
  have hfound : (s.publish key made).2.upgrade? key = some (s.publish key made).1 := upgrade?_publish hmade
  have hreferred : (s.publish key made).2.referred = s.referred := by
    unfold publish
    split <;> rfl
  refine upgrade?_dropAdapter hfound fun heq => hgone ?_
  rw [← hreferred, ← heq]
  exact (upgrade?_eq_some_iff.mp hfound).2

/-! ## Dropping all that do not live -/

/-- Every entry is that of an adapter which was made for its key, and which is referred to. -/
structure Published (s : Store) : Prop where
  key : ∀ kept ∈ s.adapters, (s.native kept.2).cacheKey? = some kept.1
  referred : ∀ kept ∈ s.adapters, kept.2 ∈ s.referred

/-- Among such entries a dropped adapter takes away exactly its own. -/
theorem Published.dropAdapter_eq (h : s.Published) (r : NativeRef) : s.dropAdapter r =
    { s with adapters := s.adapters.filter (·.2 ≠ r), referred := s.referred.filter (· ≠ r) } := by
  have hentries : s.adapters.filter (fun kept =>
      (s.native r).cacheKey? ≠ some kept.1 || (s.referred.filter (· ≠ r)).contains kept.2) =
        s.adapters.filter (·.2 ≠ r) := by
    refine List.filter_congr fun kept hkept => ?_
    have hkey := h.key kept hkept
    have hreferred := h.referred kept hkept
    by_cases hdropped : kept.2 = r
    · -- the entry of the adapter itself is under its key, and nothing refers to it any more
      simp [hdropped, hdropped ▸ hkey]
    · simp [hdropped, hreferred]
  rw [Store.dropAdapter_eq, hentries]

/-- The entries that are left are such entries again. -/
theorem Published.filter (h : s.Published) (keep : NativeRef → Bool) :
    ({ s with adapters := s.adapters.filter (keep ·.2), referred := s.referred.filter keep } : Store).Published where
  key kept hkept := h.key kept (List.mem_filter.mp hkept).1
  referred kept hkept := List.mem_filter.mpr
    ⟨h.referred kept (List.mem_filter.mp hkept).1, (List.mem_filter.mp hkept).2⟩

/-- So adapters may be dropped one after the other, in any order. -/
theorem Published.foldl_dropAdapter (h : s.Published) (dropped : List NativeRef) : dropped.foldl dropAdapter s =
    { s with adapters := s.adapters.filter (·.2 ∉ dropped), referred := s.referred.filter (· ∉ dropped) } := by
  induction dropped generalizing s with
  | nil =>
    simp only [List.foldl_nil, List.not_mem_nil, not_false_eq_true, decide_true]
    rw [List.filter_eq_self.mpr fun _ _ => rfl, List.filter_eq_self.mpr fun _ _ => rfl]
  | cons r rest ih =>
    rw [List.foldl_cons, h.dropAdapter_eq, ih (h.filter (· ≠ r))]
    simp only [List.filter_filter, List.mem_cons, not_or, Bool.decide_and, Bool.and_comm]

/-- **Dropping the adapters that do not live leaves the entries of those that live.** -/
theorem Published.releaseAdapters_eq (h : s.Published) : s.releaseAdapters =
    { s with
      adapters := s.adapters.filter (.native ·.2 ∈ s.survivors)
      referred := s.referred.filter (.native · ∈ s.survivors) } := by
  unfold releaseAdapters
  split
  · -- nothing is referred to, so nothing is kept
    next hnone =>
    have hreferred : s.referred = [] := List.isEmpty_iff.mp hnone
    have hadapters : s.adapters = [] := by
      refine List.eq_nil_iff_forall_not_mem.mpr fun kept hkept => ?_
      have hmem := h.referred kept hkept
      rw [hreferred] at hmem
      cases hmem
    rw [hadapters, hreferred]
    cases s
    cases hadapters
    cases hreferred
    rfl
  · rw [h.foldl_dropAdapter]
    have hunreferred : ∀ r ∈ s.referred, r ∉ s.unreferred ↔ .native r ∈ s.survivors := by
      intro r hr
      simp [unreferred, hr]
    congr 1
    · exact List.filter_congr fun kept hkept => decide_eq_decide.mpr (hunreferred _ (h.referred kept hkept))
    · exact List.filter_congr fun r hr => decide_eq_decide.mpr (hunreferred r hr)

end Interop.Store
