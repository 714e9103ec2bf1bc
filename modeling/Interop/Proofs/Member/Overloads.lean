import Interop.Proofs.Member.Constants

/-!
# Overloads of tables

A table is built of methods, grouped by name, then of fields, which take the place of the methods of their name and keep
them behind, and at last of properties, which only take names that are free. So asking for the overloads of a name gives
what it gave before there were any fields or properties, if no two fields have one name.

* **`lookup_groupMethods`**: methods by name.
* **`MemberTable.overloads?_build`**: fields and properties leave the overloads of a table alone.
* **`TypeTable.scanFields_tidy`**: the fields that a scan finds have different names.
-/

namespace Interop

-- ids are compared as they stand; unfolding one means computing a digest
attribute [local irreducible] TypeId.ofName TypeId.ofSignature

/-! ## Overloads of tables -/

/-- The methods of a name, if there are any. -/
def OverloadSet.ofMethods? (name : String) : List Callable → Option OverloadSet
  | [] => none
  | candidates => some ⟨name, candidates⟩

/-- Grouping a method adds it to the end of the group of its name. -/
theorem lookup_groupMethod (c : Callable) (name : String) : ∀ groups : List (String × List Callable),
    (groupMethod groups c).lookup name =
      if name = c.name then some ((groups.lookup name).getD [] ++ [c]) else groups.lookup name
  | [] => by
    rw [groupMethod, lookup_cons_ite]
    split <;> rfl
  | (first, group) :: rest => by
    rw [groupMethod]
    split
    · next hfirst =>
      rw [lookup_cons_ite, lookup_cons_ite, hfirst]
      split <;> rfl
    · next hfirst =>
      rw [lookup_cons_ite, lookup_cons_ite, lookup_groupMethod c name rest]
      by_cases hname : name = first
      · -- the group of another name comes first
        rw [if_pos hname, if_pos hname, if_neg fun heq => hfirst (hname.symm.trans heq)]
      · rw [if_neg hname, if_neg hname]

/-- **Methods are grouped by name**, each group in the order of the methods. -/
theorem lookup_groupMethods (methods : List Callable) (name : String) :
    (groupMethods methods).lookup name =
      (OverloadSet.ofMethods? name (methods.filter (·.name = name))).map (·.candidates) := by
  -- on the methods, for all groups that there are already
  have hrun : ∀ (methods : List Callable) (groups : List (String × List Callable)),
      (methods.foldl groupMethod groups).lookup name =
        match methods.filter (·.name = name) with
        | [] => groups.lookup name
        | group => some ((groups.lookup name).getD [] ++ group) := by
    intro methods
    induction methods with
    | nil => exact fun _ => rfl
    | cons c methods ih =>
      intro groups
      rw [List.foldl_cons, ih, lookup_groupMethod]
      by_cases hname : c.name = name
      · rw [List.filter_cons_of_pos (by simpa using hname), if_pos hname.symm]
        cases methods.filter (·.name = name) <;> simp
      · rw [List.filter_cons_of_neg (by simpa using hname), if_neg (Ne.symm hname)]
  rw [groupMethods, hrun]
  cases methods.filter (·.name = name) <;> rfl

namespace MemberTable

/-- The overloads of a name, those behind a field included. -/
def overloads? (t : MemberTable) (name : String) : Option OverloadSet := (t.find? name).bind Member.overloads?

/-- A member that is put under a name decides what overloads the name has. -/
theorem overloads?_insert (t : MemberTable) (name : String) (m : Member) (n : String) :
    (t.insert name m).overloads? n = if n = name then m.overloads? else t.overloads? n := by
  rw [overloads?, find?_insert]
  split <;> rfl

/-- The methods of a name become its overloads, in order. -/
theorem overloads?_ofMethods (methods : List Callable) (name : String) :
    (ofMethods methods).overloads? name = OverloadSet.ofMethods? name (methods.filter (·.name = name)) := by
  -- the rows of the table are the groups, in the same order
  have hrows : ∀ groups : List (String × List Callable),
      (groups.map fun group => (group.1, Member.methods ⟨group.1, group.2⟩)).lookup name
        = (groups.lookup name).map fun candidates => .methods ⟨name, candidates⟩ := by
    intro groups
    induction groups with
    | nil => rfl
    | cons group rest ih =>
      obtain ⟨n, candidates⟩ := group
      rw [List.map_cons, lookup_cons_ite, lookup_cons_ite, ih]
      by_cases hname : name = n
      · subst hname
        simp
      · simp [hname]
  rw [overloads?, find?, ofMethods, hrows, lookup_groupMethods]
  cases methods.filter (·.name = name) <;> rfl

/-- A field that has nothing behind it, and that takes the place of no other field. -/
structure Admits (t : MemberTable) (f : MemberField) : Prop where
  bare : f.methods = none
  free : ∀ g, t.find? f.name ≠ some (.field g)

/-- A field keeps the methods of its name behind it. -/
theorem overloads?_addField {t : MemberTable} {f : MemberField} (hf : t.Admits f) (name : String) :
    (t.addField f).overloads? name = t.overloads? name := by
  unfold addField
  split
  · next set hset =>
    rw [overloads?_insert]
    split
    · next heq =>
      rw [heq, overloads?, hset]
      rfl
    · rfl
  · next hother =>
    rw [overloads?_insert]
    split
    · next heq =>
      -- there was nothing but a property
      rw [heq, overloads?, Member.overloads?, hf.bare]
      cases hfind : t.find? f.name with
      | none => rfl
      | some m =>
        cases m with
        | methods set => exact absurd hfind (hother set)
        | field g => exact absurd hfind (hf.free g)
        | property p => rfl
    · rfl

theorem find?_addField_of_ne {t : MemberTable} {f : MemberField} {name : String} (hne : name ≠ f.name) :
    (t.addField f).find? name = t.find? name := by
  unfold addField
  split <;> rw [find?_insert, if_neg hne]

/-- So do fields of different names. -/
theorem overloads?_foldl_addField (name : String) : ∀ {fields : TypeTable.NamedFields} {t : MemberTable},
    (fields.map (·.2.name)).Nodup → (∀ slot ∈ fields, t.Admits slot.2) →
      (fields.foldl (fun t (_, f) => t.addField f) t).overloads? name = t.overloads? name
  | [], _, _, _ => rfl
  | (_, f) :: fields, t, hnodup, hadmits => by
    rw [List.map_cons, List.nodup_cons] at hnodup
    obtain ⟨hf, hfields⟩ := List.forall_mem_cons.mp hadmits
    rw [List.foldl_cons, overloads?_foldl_addField name hnodup.2 fun slot hslot => ?_]
    · exact overloads?_addField hf name
    · -- the fields that are still to come have other names, under which nothing has changed
      have hne : slot.2.name ≠ f.name := fun heq => hnodup.1 (heq ▸ List.mem_map_of_mem hslot)
      obtain ⟨hbare, hfree⟩ := hfields slot hslot
      exact ⟨hbare, fun g => by rw [find?_addField_of_ne hne]; exact hfree g⟩

/-- A group is found under the name of the property, or was there. -/
theorem fst_of_mem_collectAccessor {name : String} {m : AccessorMethod} :
    ∀ {found : List (String × AccessorGroup)} {entry : String × AccessorGroup},
      entry ∈ collectAccessor found name m → entry.1 = name ∨ ∃ old ∈ found, entry.1 = old.1
  | [], entry, h => by
    rw [collectAccessor, List.mem_singleton] at h
    exact .inl (congrArg Prod.fst h)
  | first :: rest, entry, h => by
    rw [collectAccessor] at h
    split at h
    · next heq =>
      -- the first group has the name, and keeps it
      rcases List.mem_cons.mp h with rfl | hrest
      · exact .inl heq
      · exact .inr ⟨entry, List.mem_cons_of_mem _ hrest, rfl⟩
    · rcases List.mem_cons.mp h with rfl | hrest
      · exact .inr ⟨_, List.mem_cons_self, rfl⟩
      · rcases fst_of_mem_collectAccessor hrest with hnew | ⟨old, hold, heq⟩
        · exact .inl hnew
        · exact .inr ⟨old, List.mem_cons_of_mem _ hold, heq⟩

/-- An accessor is counted only for a name that is free. -/
theorem find?_of_accessorOf? {t : MemberTable} {row : String × Member} {name : String} {m : AccessorMethod}
    (h : t.accessorOf? row = some (name, m)) : t.find? name = none := by
  unfold accessorOf? at h
  -- only methods whose name announces a property count, and only while the property has a free name
  split at h
  · obtain ⟨⟨kind', rest⟩, -, h⟩ := Option.bind_eq_some_iff.mp h
    obtain ⟨property, -, h⟩ := Option.bind_eq_some_iff.mp h
    dsimp only at h
    split at h
    · cases h
    · next hcontains =>
      cases h
      simpa [contains] using hcontains
  · cases h

theorem find?_of_mem_accessors {t : MemberTable} : ∀ entry ∈ t.accessors, t.find? entry.1 = none := by
  refine List.foldlRecOn (motive := fun groups : List (String × AccessorGroup) =>
    ∀ entry ∈ groups, t.find? entry.1 = none) _ _ (List.forall_mem_nil _) ?_
  intro groups hgroups x hx entry hentry
  obtain ⟨row, -, hx⟩ := List.mem_filterMap.mp hx
  rcases fst_of_mem_collectAccessor hentry with heq | ⟨old, hold, heq⟩ <;> rw [heq]
  · exact find?_of_accessorOf? hx
  · exact hgroups old hold

/-- A property has the name that it is made under. -/
theorem name_of_toProperty? {a : AccessorGroup} {name : String} {p : Property} (h : a.toProperty? name = some p) :
    p.name = name := by
  unfold AccessorGroup.toProperty? at h
  split at h
  · cases h
  · cases h
    rfl
  · cases h
    rfl
  · split at h <;> cases h <;> rfl

/-- Properties have names that the table leaves free. -/
theorem find?_of_mem_properties {t : MemberTable} {p : Property} (hp : p ∈ t.properties) : t.find? p.name = none := by
  obtain ⟨⟨name, a⟩, hentry, hmade⟩ := List.mem_filterMap.mp hp
  rw [name_of_toProperty? hmade]
  exact find?_of_mem_accessors (name, a) hentry

/-- Properties take free names only, so the overloads of a table stay what they are. -/
theorem overloads?_withProperties (t : MemberTable) (name : String) :
    t.withProperties.overloads? name = t.overloads? name := by
  refine List.foldlRecOn (motive := fun table : MemberTable => table.overloads? name = t.overloads? name) _ _ rfl ?_
  intro table htable p hp
  rw [overloads?_insert]
  split
  · next heq =>
    -- a property has no overloads, and there were none under its name
    rw [heq, overloads?, find?_of_mem_properties hp]
    rfl
  · exact htable

/-- **Fields and properties leave the overloads of a table alone.** -/
theorem overloads?_build {methods : List Callable} {fields : TypeTable.NamedFields}
    (hnodup : (fields.map (·.2.name)).Nodup) (hbare : ∀ slot ∈ fields, slot.2.methods = none) (name : String) :
    (build methods fields).overloads? name = OverloadSet.ofMethods? name (methods.filter (·.name = name)) := by
  rw [build, overloads?_withProperties, overloads?_foldl_addField name hnodup, overloads?_ofMethods]
  refine fun slot hslot => ⟨hbare slot hslot, fun g hg => ?_⟩
  obtain ⟨h, hnone, -⟩ := showsOnly_ofMethods methods slot.2.name [] g hg
  cases hnone

end MemberTable

/-! ## Fields of different names -/

namespace TypeTable

variable {t : TypeTable}

/-- Fields under their own names, no name twice, with nothing behind them. -/
structure Tidy (slots : NamedFields) : Prop where
  named : ∀ slot ∈ slots, slot.1 = slot.2.name
  nodup : (slots.map (·.1)).Nodup
  bare : ∀ slot ∈ slots, slot.2.methods = none

theorem tidy_nil : Tidy [] := ⟨List.forall_mem_nil _, List.nodup_nil, List.forall_mem_nil _⟩

/-- A field that is added keeps the names in place, and takes a new one at the end. -/
theorem map_fst_addField (f : MemberField) : ∀ slots : NamedFields,
    (t.addField slots f).map (·.1) =
      if f.name ∈ slots.map (·.1) then slots.map (·.1) else slots.map (·.1) ++ [f.name]
  | [] => rfl
  | (name, existing) :: rest => by
    rw [addField]
    by_cases hname : name = f.name
    · rw [if_pos hname]
      split <;> simp [hname]
    · have hiff : f.name ∈ ((name, existing) :: rest).map (·.1) ↔ f.name ∈ rest.map (·.1) := by
        simp [Ne.symm hname]
      rw [if_neg hname, List.map_cons, map_fst_addField f rest, if_congr hiff rfl rfl]
      split <;> rfl

theorem Tidy.addField {slots : NamedFields} (h : Tidy slots) {f : MemberField} (hf : f.methods = none) :
    Tidy (t.addField slots f) := by
  refine ⟨fun slot hslot => ?_, ?_, fun slot hslot => ?_⟩
  · -- the slot was there, or is the new one under its own name
    rcases mem_addField hslot with hold | ⟨rfl, -⟩
    · exact h.named slot hold
    · rfl
  · rw [map_fst_addField]
    split
    · exact h.nodup
    · next hnew =>
      -- the new name goes to the end, and none of the names before is the same
      rw [List.nodup_append]
      refine ⟨h.nodup, List.nodup_singleton _, ?_⟩
      rintro name hname _ hsingle rfl
      exact hnew (List.mem_singleton.mp hsingle ▸ hname)
  · rcases mem_addField hslot with hold | ⟨rfl, -⟩
    · exact h.bare slot hold
    · exact hf

theorem Tidy.nodup_names {slots : NamedFields} (h : Tidy slots) : (slots.map (·.2.name)).Nodup := by
  rw [← List.map_congr_left h.named]
  exact h.nodup

/-- A field is made without methods; those join it later. -/
theorem ofField?_bare (b : Bindings) (f : FieldDecl) :
    Yields (fun _ => True) (MemberField.ofField? b f) fun made => ∀ a, made = some a → a.methods = none := by
  unfold MemberField.ofField?
  split
  · intro a ha
    cases ha
  · refine Yields.bind (P := fun _ => True) ?_ fun type _ a ha => ?_
    · cases resolveType b f.type <;> trivial
    · cases ha
      rfl

theorem scanFields_tidy (t : TypeTable) (b : Bindings) (flag : Bool) (root : TypeId) (closure : List TypeId) :
    Yields (fun _ => True) (t.scanFields b flag root closure) fun scan => Tidy scan.instances ∧ Tidy scan.statics := by
  -- along the types, and along the fields of each type; a static field goes to one list, any other to the other one
  refine Yields.foldlM (fun id _ scan hscan => ?_) ⟨tidy_nil, tidy_nil⟩
  refine Yields.bind (P := fun _ => True) (by cases t.declaredBy root id <;> trivial) fun decl _ => ?_
  refine Yields.foldlM (fun f _ scan hscan => ?_) hscan
  unfold FieldScan.add
  split
  · exact hscan
  · refine (ofField?_bare b f).bind fun made hmade => ?_
    cases made with
    | none => exact hscan
    | some a =>
      dsimp only
      split
      · exact ⟨hscan.1, hscan.2.addField (hmade a rfl)⟩
      · exact ⟨hscan.1.addField (hmade a rfl), hscan.2⟩

end TypeTable

end Interop
