/-!
# Association lists

Types, members, bindings and remembered winners are all kept in lists of keys and values, of which the first value of
a key counts. What is said here is what the proofs about any of these tables need.

* **`mem_of_lookup`**, **`lookup_of_mem`**: a value that is found is in the list, and is found if its key occurs once.
* **`lookup_filter`**: a value that is found stays found while other entries go.
* **`nodup_keys_append`**: a value under a key that is not found may be added.
* **`lookup_of_insertion`**: what is found after a value has been put in, in the place of an earlier one of its key.
* **`nodup_keys_of_insertion`**: putting values in this way makes no key occur twice.
-/

namespace Interop

variable [BEq α] [LawfulBEq α]

theorem mem_of_lookup {entries : List (α × β)} {key : α} {value : β} (h : entries.lookup key = some value) :
    (key, value) ∈ entries := by
  obtain ⟨before, after, heq, -⟩ := List.lookup_eq_some_iff.mp h
  rw [heq]
  exact List.mem_append_right _ List.mem_cons_self

/-- Where every key occurs once, every value counts. -/
theorem lookup_of_mem {entries : List (α × β)} (hkeys : (entries.map (·.1)).Nodup) {key : α} {value : β}
    (h : (key, value) ∈ entries) : entries.lookup key = some value := by
  rw [List.lookup_eq_some_iff]
  obtain ⟨before, after, heq⟩ := List.append_of_mem h
  refine ⟨before, after, heq, fun entry hentry => ?_⟩
  rw [heq, List.map_append, List.nodup_append] at hkeys
  have hne : entry.1 ≠ key := hkeys.2.2 entry.1 (List.mem_map_of_mem hentry) key List.mem_cons_self
  exact bne_iff_ne.mpr hne.symm

/-- A value that is found is found among fewer entries, as long as it is one of them. -/
theorem lookup_filter {entries : List (α × β)} {key : α} {value : β} (h : entries.lookup key = some value)
    (keep : α × β → Bool) (hkeep : keep (key, value) = true) : (entries.filter keep).lookup key = some value := by
  obtain ⟨before, after, heq, hbefore⟩ := List.lookup_eq_some_iff.mp h
  refine List.lookup_eq_some_iff.mpr ⟨before.filter keep, after.filter keep, ?_, fun entry hentry => ?_⟩
  · rw [heq, List.filter_append, List.filter_cons_of_pos hkeep]
  · exact hbefore entry (List.mem_filter.mp hentry).1

/-- A key that is not found is new. -/
theorem nodup_keys_append {entries : List (α × β)} (hkeys : (entries.map (·.1)).Nodup) {key : α}
    (hnone : entries.lookup key = none) (value : β) : ((entries ++ [(key, value)]).map (·.1)).Nodup := by
  rw [List.map_append, List.nodup_append]
  refine ⟨hkeys, List.pairwise_singleton _ _, fun used hused new hnew heq => ?_⟩
  obtain ⟨entry, hentry, rfl⟩ := List.mem_map.mp hused
  obtain rfl := List.mem_singleton.mp hnew
  have hfound : entries.lookup entry.1 = some entry.2 := lookup_of_mem hkeys hentry
  rw [heq, hnone] at hfound
  cases hfound

/-- The first entry answers if the key is its own. -/
theorem lookup_cons_ite [DecidableEq α] (entry : α × β) (rest : List (α × β)) (key : α) :
    (entry :: rest).lookup key = if key = entry.1 then some entry.2 else rest.lookup key := by
  rw [List.lookup_cons]
  by_cases hkey : key = entry.1
  · simp [hkey]
  · simp [hkey, beq_false_of_ne hkey]

/-- An insertion replaces the first value of its key, and goes to the end where there is none. -/
theorem lookup_of_insertion [DecidableEq α] (insertion : List (α × β) → List (α × β)) {added : α} {value : β}
    (hnil : insertion [] = [(added, value)])
    (hcons : ∀ first rest, insertion (first :: rest) =
      if first.1 = added then (first.1, value) :: rest else first :: insertion rest)
    (entries : List (α × β)) (key : α) :
    (insertion entries).lookup key = if key = added then some value else entries.lookup key := by
  induction entries with
  | nil => rw [hnil, lookup_cons_ite]
  | cons first rest ih =>
    rw [hcons]
    split
    · next hfirst =>
      rw [lookup_cons_ite, lookup_cons_ite, hfirst]
      split <;> rfl
    · next hfirst =>
      rw [lookup_cons_ite, lookup_cons_ite, ih]
      by_cases hkey : key = first.1
      · -- the keys of the first entry and of the new one differ, so only one test can succeed
        rw [if_pos hkey, if_pos hkey, if_neg fun heq => hfirst (hkey.symm.trans heq)]
      · rw [if_neg hkey, if_neg hkey]

omit [BEq α] [LawfulBEq α] in
/-- An insertion adds its key at the end, unless the key is there. -/
theorem nodup_keys_of_insertion [DecidableEq α] (insertion : List (α × β) → List (α × β)) {added : α}
    (hnil : (insertion []).map (·.1) = [added])
    (hcons : ∀ first rest, (insertion (first :: rest)).map (·.1) =
      if first.1 = added then first.1 :: rest.map (·.1) else first.1 :: (insertion rest).map (·.1))
    {entries : List (α × β)} (hkeys : (entries.map (·.1)).Nodup) : ((insertion entries).map (·.1)).Nodup := by
  have hadds : ∀ entries, (insertion entries).map (·.1) =
      if added ∈ entries.map (·.1) then entries.map (·.1) else entries.map (·.1) ++ [added] := by
    intro entries
    induction entries with
    | nil => exact hnil
    | cons first rest ih =>
      rw [hcons, ih]
      by_cases hfirst : first.1 = added
      · simp [hfirst]
      · by_cases hrest : added ∈ rest.map (·.1) <;> simp [hfirst, Ne.symm hfirst, hrest]
  rw [hadds]
  split
  · exact hkeys
  · next hnew =>
    rw [List.nodup_append]
    refine ⟨hkeys, List.pairwise_singleton _ _, fun used hused new hadded heq => hnew ?_⟩
    rwa [← List.mem_singleton.mp hadded, ← heq]

end Interop
