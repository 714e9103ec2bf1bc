import Interop.Proofs.Member.Skipped

/-!
# Fields that hide others

Of the fields of one name that a type and its supertypes declare, one is kept. They are met the nearest supertype first,
which is not the order of the hierarchy: an interface may be met before one that extends it. A field takes the place of
the one that is held if its type is below the type of that one, so what is held moves down. A field that was passed over
or replaced is not below the one that is held then, and as the order is transitive, it is not below any later one.

* **`TypeTable.Below`**: strict subtypes, in a hierarchy without cycles a strict order.
* **`TypeTable.moreDerived_keeps`**, **`foldl_moreDerived_keeps`**: what is held after one field more, and after all.
* **`lookup_foldl_addField`**, **`scanFields_made`**: the scan for fields holds what is preferred under each name.
* **`collectMembers_own`**: fields that a type declares itself.
* **`collectMembers_mostDerived`**: the fields that the entry of a type shows.
-/

namespace Interop

-- ids are compared as they stand; unfolding one means computing a digest
attribute [local irreducible] TypeId.ofName

/-- A field gives a member if it is visible and has a handle. -/
def FieldDecl.isShown (f : FieldDecl) (includeNonPublic : Bool) : Bool :=
  f.flags.isVisible includeNonPublic && f.storage.isSome

namespace TypeTable

variable {t : TypeTable}

/-! ## Strict subtypes -/

/-- A type is a strict subtype of another one. -/
def Below (t : TypeTable) (a b : TypeId) : Prop := a ≠ b ∧ t.isSubtype a b = true

instance (t : TypeTable) (a b : TypeId) : Decidable (t.Below a b) := inferInstanceAs (Decidable (_ ∧ _))

/-- Below the root type subtyping has no circles, so it is antisymmetric. -/
theorem isSubtype_antisymm (hacyclic : t.Acyclic) (hroot : t.parents Standard.object = []) {a b : TypeId}
    (hab : t.isSubtype a b = true) (hba : t.isSubtype b a = true) : a = b := by
  rcases (t.isSubtype_iff a b).mp hab with heq | ⟨-, -, rfl | hup⟩
  · exact heq
  · exact eq_object_of_isSubtype hroot hba
  · rcases (t.isSubtype_iff b a).mp hba with heq | ⟨-, -, rfl | hdown⟩
    · exact heq.symm
    · exact (eq_object_of_isSubtype hroot hab).symm
    · exact hacyclic.eq_of_reaches hup hdown

theorem Below.trans (hacyclic : t.Acyclic) (hroot : t.parents Standard.object = []) {a b c : TypeId}
    (hab : t.Below a b) (hbc : t.Below b c) : t.Below a c := by
  refine ⟨fun heq => ?_, isSubtype_trans hroot hab.2 hbc.2⟩
  -- a type that came back to itself would be one with the type in between
  rw [heq] at hab
  exact hbc.1 (isSubtype_antisymm hacyclic hroot hbc.2 hab.2)

/-! ## What is held under a name -/

/-- Of the field that is held and another one of its name, the one that is held afterwards. -/
def moreDerived (t : TypeTable) (held : Option MemberField) (f : MemberField) : Option MemberField :=
  match held with
  | none => some f
  | some g => if t.Below f.declaring g.declaring then some f else some g

/-- Of the fields that were met one is held, unless there were none, and none of them is declared below it. -/
structure Keeps (t : TypeTable) (met : List MemberField) (held : Option MemberField) : Prop where
  isSome : met ≠ [] → held.isSome = true
  minimal : ∀ f, held = some f → f ∈ met ∧ ∀ g ∈ met, ¬ t.Below g.declaring f.declaring

/-- **One field more**: what was passed over stays above, or beside, the one that is held. -/
theorem moreDerived_keeps (hacyclic : t.Acyclic) (hroot : t.parents Standard.object = []) {met : List MemberField}
    {held : Option MemberField} (h : t.Keeps met held) (f : MemberField) :
    t.Keeps (met ++ [f]) (t.moreDerived held f) := by
  have hself : ¬ t.Below f.declaring f.declaring := fun hf => hf.1 rfl
  cases held with
  | none =>
    have hnone : met = [] := by
      by_contra hmet
      cases h.isSome hmet
    subst hnone
    refine ⟨fun _ => rfl, fun g hg => ?_⟩
    obtain rfl : f = g := Option.some.inj hg
    simpa using hself
  | some g =>
    obtain ⟨hg, hminimal⟩ := h.minimal g rfl
    unfold moreDerived
    dsimp only
    split
    · next hbelow =>
      refine ⟨fun _ => rfl, fun g' hg' => ?_⟩
      obtain rfl : f = g' := Option.some.inj hg'
      refine ⟨List.mem_append_right _ List.mem_cons_self, fun old hold hbelow' => ?_⟩
      rcases List.mem_append.mp hold with hold | hold
      · -- the old ones are not below the one that was held, and so not below what is below that
        exact hminimal old hold (hbelow'.trans hacyclic hroot hbelow)
      · rw [List.mem_singleton.mp hold] at hbelow'
        exact hself hbelow'
    · next hbelow =>
      refine ⟨fun _ => rfl, fun g' hg' => ?_⟩
      obtain rfl : g = g' := Option.some.inj hg'
      refine ⟨List.mem_append_left _ hg, fun old hold => ?_⟩
      rcases List.mem_append.mp hold with hold | hold
      · exact hminimal old hold
      · rw [List.mem_singleton.mp hold]
        exact hbelow

/-- **All fields of a name**: the one that is held in the end is minimal. -/
theorem foldl_moreDerived_keeps (hacyclic : t.Acyclic) (hroot : t.parents Standard.object = [])
    (fs : List MemberField) : t.Keeps fs (fs.foldl t.moreDerived none) := by
  have hrun : ∀ (fs met : List MemberField) (held : Option MemberField), t.Keeps met held →
      t.Keeps (met ++ fs) (fs.foldl t.moreDerived held) := by
    intro fs
    induction fs with
    | nil =>
      intro met held h
      rwa [List.append_nil]
    | cons f fs ih =>
      intro met held h
      have hrest := ih (met ++ [f]) (t.moreDerived held f) (moreDerived_keeps hacyclic hroot h f)
      rwa [List.append_assoc, List.singleton_append] at hrest
  refine hrun fs [] none ⟨fun hne => absurd rfl hne, fun f hf => ?_⟩
  cases hf

/-- What is held stays while no field is met that is declared below it. -/
theorem foldl_moreDerived_eq {fs : List MemberField} {held : MemberField}
    (h : ∀ f ∈ fs, ¬ t.Below f.declaring held.declaring) : fs.foldl t.moreDerived (some held) = some held := by
  induction fs with
  | nil => rfl
  | cons f fs ih =>
    obtain ⟨hf, hfs⟩ := List.forall_mem_cons.mp h
    rw [List.foldl_cons, moreDerived, if_neg hf, ih hfs]

/-- Adding a field changes the slot of its name to the more derived of the two. -/
theorem lookup_addField (slots : NamedFields) (f : MemberField) (name : String) :
    (t.addField slots f).lookup name =
      if f.name = name then t.moreDerived (slots.lookup name) f else slots.lookup name := by
  induction slots with
  | nil =>
    rw [addField, lookup_cons_ite]
    by_cases hname : f.name = name
    · rw [if_pos hname, if_pos hname.symm]
      rfl
    · rw [if_neg hname, if_neg (Ne.symm hname)]
  | cons slot rest ih =>
    rw [addField, lookup_cons_ite]
    by_cases hslot : slot.1 = f.name
    · rw [if_pos hslot]
      by_cases hname : f.name = name
      · have hhere : name = slot.1 := hname.symm.trans hslot.symm
        rw [if_pos hname, if_pos hhere]
        -- the test of the definition, with the two names the other way round
        have hiff : (slot.2.declaring ≠ f.declaring ∧ t.isSubtype f.declaring slot.2.declaring = true) ↔
            t.Below f.declaring slot.2.declaring := and_congr_left fun _ => ne_comm
        rw [if_congr hiff rfl rfl, moreDerived]
        split <;> rw [lookup_cons_ite, if_pos hhere]
      · have hother : name ≠ slot.1 := fun heq => hname (hslot.symm.trans heq.symm)
        rw [if_neg hname, if_neg hother]
        split <;> rw [lookup_cons_ite, if_neg hother]
    · rw [if_neg hslot, lookup_cons_ite, ih]
      by_cases hhere : name = slot.1
      · rw [if_pos hhere, if_pos hhere, if_neg fun heq => hslot (hhere.symm.trans heq.symm)]
      · rw [if_neg hhere, if_neg hhere]

/-- Under each name the fields of this name are taken in, and no others. -/
theorem lookup_foldl_addField (fs : List MemberField) (slots : NamedFields) (name : String) :
    (fs.foldl t.addField slots).lookup name = (fs.filter (·.name = name)).foldl t.moreDerived (slots.lookup name) := by
  induction fs generalizing slots with
  | nil => rfl
  | cons f fs ih =>
    rw [List.foldl_cons, ih, lookup_addField, List.filter_cons]
    by_cases hname : f.name = name
    · rw [if_pos hname, if_pos (decide_eq_true hname), List.foldl_cons]
    · rw [if_neg hname, if_neg (by simpa using hname)]

/-! ## The scan for fields -/

/-- The fields of one kind that were found so far. -/
def FieldScan.slots (scan : FieldScan) (isStatic : Bool) : NamedFields :=
  if isStatic then scan.statics else scan.instances

variable {b : Bindings} {flag : Bool}

/-- A declaration that gives no member is skipped; any other one is taken in among the fields of its kind. -/
theorem FieldScan.add_cases {scan scan' : FieldScan} {f : FieldDecl} (h : FieldScan.add t b flag scan f = .ok scan') :
    (f.isShown flag = false ∧ scan' = scan) ∨
      ∃ a, f.isShown flag = true ∧ f.ShownAs a ∧ ∀ isStatic, scan'.slots isStatic =
        if a.flags.isStatic = isStatic then t.addField (scan.slots isStatic) a else scan.slots isStatic := by
  unfold FieldScan.add at h
  split at h
  · next hhidden =>
    have hvisible : f.flags.isVisible flag = false := by simpa using hhidden
    refine .inl ⟨?_, (Except.ok.inj h).symm⟩
    rw [FieldDecl.isShown, hvisible, Bool.false_and]
  · next hhidden =>
    have hvisible : f.flags.isVisible flag = true := by simpa using hhidden
    obtain ⟨made, hmade, hadded⟩ := exists_of_bind_eq_ok h
    have hfield := MemberField.ofField?_shown b f
    rw [hmade] at hfield
    cases made with
    | none =>
      refine .inl ⟨?_, (Except.ok.inj hadded).symm⟩
      rw [FieldDecl.isShown, hfield.2 rfl, Option.isSome_none, Bool.and_false]
    | some a =>
      have hshown : f.ShownAs a := hfield.1 a rfl
      refine .inr ⟨a, ?_, hshown, fun isStatic => ?_⟩
      · rw [FieldDecl.isShown, hvisible, hshown.storage, Option.isSome_some, Bool.and_true]
      · dsimp only at hadded
        -- static and other fields have lists of their own
        split at hadded
        · next hstatic =>
          cases hadded
          cases isStatic <;> simp [slots, hstatic]
        · next hstatic =>
          cases hadded
          cases isStatic <;> simp [slots, hstatic]

/-- **A run over declarations** takes in the fields that give members, in order, each among those of its kind. -/
theorem foldlM_add_made : ∀ {fields : List FieldDecl} {scan scan' : FieldScan},
    fields.foldlM (FieldScan.add t b flag) scan = .ok scan' →
    ∃ made : List (FieldDecl × MemberField), made.map (·.1) = fields.filter (·.isShown flag) ∧
      (∀ p ∈ made, p.1.ShownAs p.2) ∧
      ∀ isStatic, scan'.slots isStatic =
        ((made.map (·.2)).filter (·.flags.isStatic = isStatic)).foldl t.addField (scan.slots isStatic)
  | [], scan, scan', h => by
    cases h
    exact ⟨[], rfl, List.forall_mem_nil _, fun _ => rfl⟩
  | f :: fields, scan, scan', h => by
    rw [List.foldlM_cons] at h
    obtain ⟨scan₁, hfirst, hrest⟩ := exists_of_bind_eq_ok h
    obtain ⟨made, hmade, hshown, hslots⟩ := foldlM_add_made hrest
    rcases FieldScan.add_cases hfirst with ⟨hskipped, rfl⟩ | ⟨a, htaken, ha, hadded⟩
    · exact ⟨made, by rw [hmade, List.filter_cons_of_neg (by simp [hskipped])], hshown, hslots⟩
    · refine ⟨(f, a) :: made, ?_, List.forall_mem_cons.mpr ⟨ha, hshown⟩, fun isStatic => ?_⟩
      · rw [List.map_cons, hmade, List.filter_cons, if_pos htaken]
      · rw [hslots, hadded, List.map_cons, List.filter_cons]
        by_cases hstatic : a.flags.isStatic = isStatic
        · rw [if_pos hstatic, if_pos (decide_eq_true hstatic), List.foldl_cons]
        · rw [if_neg hstatic, if_neg (by simpa using hstatic)]

/-- Where the host refuses nothing it lists what the types declare. -/
theorem listing_eq_flatMap {α : Type} {members : TypeDecl → List α} {root : TypeId} {closure : List TypeId}
    (h : (t.listing members root closure).2 = none) :
    (t.listing members root closure).1 = closure.flatMap fun id => ((t.find? id).map members).getD [] := by
  induction closure with
  | nil => rfl
  | cons id closure ih =>
    rw [listing] at h ⊢
    cases hdecl : t.declaredBy root id with
    | error stop =>
      rw [hdecl] at h
      cases h
    | ok decl =>
      rw [hdecl] at h
      rw [List.flatMap_cons, ← eq_of_declaredBy hdecl, ← ih h]

/-- **The scan for fields** holds under each name what is preferred of the fields of this name and kind, met in the
order of the types. -/
theorem scanFields_made {root : TypeId} {closure : List TypeId} {scan : FieldScan}
    (h : t.scanFields b flag root closure = .ok scan) :
    ∃ made : List (FieldDecl × MemberField),
      made.map (·.1) = (closure.flatMap fun id => ((t.find? id).map (·.fields)).getD []).filter (·.isShown flag) ∧
      (∀ p ∈ made, p.1.ShownAs p.2) ∧
      ∀ name isStatic, (scan.slots isStatic).lookup name =
        ((made.filter fun p => p.2.name = name ∧ p.2.flags.isStatic = isStatic).map (·.2)).foldl t.moreDerived
          none := by
  rw [scanFields, foldlM_listing] at h
  obtain ⟨hrefusal, hscan⟩ := bind_orRefusal_eq_ok h
  obtain ⟨made, hmade, hshown, hslots⟩ := foldlM_add_made hscan
  rw [listing_eq_flatMap hrefusal] at hmade
  refine ⟨made, hmade, hshown, fun name isStatic => ?_⟩
  have hnone : (({} : FieldScan).slots isStatic).lookup name = none := by cases isStatic <;> rfl
  rw [hslots, lookup_foldl_addField, hnone, List.filter_filter, List.filter_map]
  simp only [Bool.decide_and, Function.comp_def]

/-- A field that a type or one of its supertypes declares, visible and with a handle, of a name and a kind. -/
structure Offers (t : TypeTable) (id : TypeId) (includeNonPublic : Bool) (name : String) (isStatic : Bool)
    (f : FieldDecl) : Prop where
  declared : ∃ a d, (t.Reaches id a ∨ (id.isPrimitive = false ∧ a = Standard.object)) ∧ t.find? a = some d ∧
    f ∈ d.fields
  isShown : f.isShown includeNonPublic = true
  name : f.name = name
  isStatic : f.flags.isStatic = isStatic

/-- The fields that are found are taken from those that are offered, under their names. -/
theorem scanFields_offers {id : TypeId} {scan : FieldScan} (h : t.scanFields b flag id (t.ancestry id) = .ok scan)
    (name : String) (isStatic : Bool) :
    ∃ made : List (FieldDecl × MemberField), (∀ p ∈ made, t.Offers id flag name isStatic p.1 ∧ p.1.ShownAs p.2) ∧
      (∀ f, t.Offers id flag name isStatic f → ∃ a, (f, a) ∈ made) ∧
      (scan.slots isStatic).lookup name = (made.map (·.2)).foldl t.moreDerived none := by
  obtain ⟨made, hmade, hshown, hlookup⟩ := scanFields_made h
  -- what is declared along the closure is what is declared at a type that the first one reaches, or at the root type
  have hdeclared : ∀ f, f ∈ made.map (·.1) ↔ f.isShown flag = true ∧
      ∃ a d, (t.Reaches id a ∨ (id.isPrimitive = false ∧ a = Standard.object)) ∧ t.find? a = some d ∧
        f ∈ d.fields := by
    intro f
    rw [hmade, List.mem_filter, and_comm, List.mem_flatMap]
    refine and_congr_right fun _ => ⟨?_, ?_⟩
    · rintro ⟨a, ha, hf⟩
      cases hfind : t.find? a with
      | none =>
        rw [hfind] at hf
        cases hf
      | some d =>
        rw [hfind] at hf
        exact ⟨a, d, (t.mem_ancestry_iff id a).mp ha, hfind, hf⟩
    · rintro ⟨a, d, ha, hfind, hf⟩
      refine ⟨a, (t.mem_ancestry_iff id a).mpr ha, ?_⟩
      rw [hfind]
      exact hf
  refine ⟨made.filter fun p => p.2.name = name ∧ p.2.flags.isStatic = isStatic, fun p hp => ?_, fun f hf => ?_,
    hlookup name isStatic⟩
  · obtain ⟨hp, hkind⟩ := List.mem_filter.mp hp
    have hthis := hshown p hp
    obtain ⟨hname, hstatic⟩ := of_decide_eq_true hkind
    obtain ⟨htaken, hthere⟩ := (hdeclared p.1).mp (List.mem_map_of_mem hp)
    exact ⟨⟨hthere, htaken, hthis.name.symm.trans hname, hthis.flags ▸ hstatic⟩, hthis⟩
  · obtain ⟨p, hp, rfl⟩ := List.mem_map.mp ((hdeclared f).mpr ⟨hf.isShown, hf.declared⟩)
    have hthis := hshown p hp
    refine ⟨p.2, List.mem_filter.mpr ⟨hp, decide_eq_true ⟨hthis.name.trans hf.name, ?_⟩⟩⟩
    rw [hthis.flags]
    exact hf.isStatic

end TypeTable

/-! ## Fields of tables -/

namespace MemberTable

/-- A property does not take a name that is in use. -/
theorem find?_withProperties {t : MemberTable} {name : String} {m : Member} (h : t.find? name = some m) :
    t.withProperties.find? name = some m := by
  refine List.foldlRecOn (motive := fun table : MemberTable => table.find? name = some m) _ _ h ?_
  intro table htable p hp
  rw [find?_insert, if_neg, htable]
  rintro rfl
  rw [find?_of_mem_properties hp] at h
  cases h

/-- A field that is added stands under its name. -/
theorem find?_addField_self (t : MemberTable) (f : MemberField) :
    ∃ methods, (t.addField f).find? f.name = some (.field { f with methods := methods }) := by
  unfold addField
  split
  · next set _ => exact ⟨some set, by rw [find?_insert, if_pos rfl]⟩
  · exact ⟨f.methods, by rw [find?_insert, if_pos rfl]⟩

/-- Fields of other names leave a name as it is. -/
theorem find?_foldl_addField_of_ne {fields : TypeTable.NamedFields} {name : String}
    (h : ∀ slot ∈ fields, name ≠ slot.2.name) (t : MemberTable) :
    (fields.foldl (fun t (_, f) => t.addField f) t).find? name = t.find? name := by
  refine List.foldlRecOn (motive := fun table : MemberTable => table.find? name = t.find? name) _ _ rfl ?_
  intro table htable slot hslot
  rw [find?_addField_of_ne (h slot hslot), htable]

/-- Fields under different names stand under these names. -/
theorem find?_foldl_addField {fields : TypeTable.NamedFields} (h : TypeTable.Tidy fields) (t : MemberTable)
    {name : String} {f : MemberField} (hf : fields.lookup name = some f) :
    ∃ methods, (fields.foldl (fun t (_, f) => t.addField f) t).find? name =
      some (.field { f with methods := methods }) := by
  obtain ⟨before, after, rfl, hbefore⟩ := List.lookup_eq_some_iff.mp hf
  have hname : name = f.name := h.named (name, f) (List.mem_append_right _ List.mem_cons_self)
  have hafter : ∀ slot ∈ after, name ≠ slot.2.name := by
    intro slot hslot heq
    have hnodup := h.nodup
    rw [List.map_append, List.map_cons, List.nodup_append, List.nodup_cons] at hnodup
    have hslotname := h.named slot (List.mem_append_right _ (List.mem_cons_of_mem _ hslot))
    exact hnodup.2.1.1 (List.mem_map.mpr ⟨slot, hslot, hslotname.trans heq.symm⟩)
  rw [List.foldl_append, List.foldl_cons, find?_foldl_addField_of_ne hafter, hname]
  exact find?_addField_self _ f

/-- **A table shows the fields that it was built from**, under their names. -/
theorem find?_build {fields : TypeTable.NamedFields} (h : TypeTable.Tidy fields) (methods : List Callable)
    {name : String} {f : MemberField} (hf : fields.lookup name = some f) :
    ∃ methods', (build methods fields).find? name = some (.field { f with methods := methods' }) := by
  obtain ⟨methods', hfind⟩ := find?_foldl_addField h (ofMethods methods) hf
  exact ⟨methods', find?_withProperties hfind⟩

/-- A field that the table shows comes from the slot of its name. -/
theorem exists_lookup_of_build {fields : TypeTable.NamedFields} (h : TypeTable.Tidy fields) {methods : List Callable}
    {name : String} {f : MemberField} (hf : (build methods fields).find? name = some (.field f)) :
    ∃ g, fields.lookup name = some g := by
  obtain ⟨g, hg, hname, -⟩ := showsOnly_build methods fields name f hf
  obtain ⟨slot, hslot, rfl⟩ := List.mem_map.mp hg
  have hslotname : slot.1 = name := (h.named slot hslot).trans hname
  exact ⟨slot.2, hslotname ▸ lookup_of_mem h.nodup hslot⟩

end MemberTable

/-! ## Entries -/

namespace TypeTable

variable {t : TypeTable}

/-- **A field that a type declares itself is held under its name**, if it is the only one of its name there and no
supertype is at the same time a subtype: it is met before all others, and none of them is declared below it. -/
theorem scanFields_own (howned : t.FieldsOwned) {id : TypeId} {d : TypeDecl} (hd : t.find? id = some d)
    (hbelow : ∀ a ∈ t.ancestry id, ¬ t.Below a id) {b : Bindings} {flag : Bool} {scan : FieldScan}
    (h : t.scanFields b flag id (t.ancestry id) = .ok scan) {f : FieldDecl} (hf : f ∈ d.fields)
    (hshown : f.isShown flag = true) (honly : ∀ g ∈ d.fields, g.name = f.name → g = f) :
    ∃ a, (scan.slots f.flags.isStatic).lookup f.name = some a ∧ f.ShownAs a := by
  obtain ⟨made, hmade, hmadeShown, hlookup⟩ := scanFields_made h
  obtain ⟨rest, hancestry, -⟩ := t.ancestry_eq_cons id
  have hnotBelow : ∀ p ∈ made, ¬ t.Below p.2.declaring id := by
    intro p hp
    have hmem : p.1 ∈ made.map (·.1) := List.mem_map_of_mem hp
    rw [hmade, List.mem_filter, List.mem_flatMap] at hmem
    obtain ⟨⟨a, ha, hpa⟩, -⟩ := hmem
    cases hfind : t.find? a with
    | none =>
      rw [hfind] at hpa
      cases hpa
    | some d' =>
      rw [hfind] at hpa
      rw [(hmadeShown p hp).declaring, howned a d' hfind p.1 hpa]
      exact hbelow a ha
  -- the fields of the type itself come first, and of these only the given one has its name
  rw [hancestry, List.flatMap_cons, hd, Option.map_some, Option.getD_some, List.filter_append] at hmade
  obtain ⟨own, others, rfl, hfirst, -⟩ := List.map_eq_append_iff.mp hmade
  have hown : ∀ p ∈ own.filter fun p => p.2.name = f.name ∧ p.2.flags.isStatic = f.flags.isStatic, f.ShownAs p.2 := by
    intro p hp
    obtain ⟨hp, hkind⟩ := List.mem_filter.mp hp
    have hthis := hmadeShown p (List.mem_append_left _ hp)
    have hmem := List.mem_map_of_mem (f := (·.1)) hp
    rw [hfirst] at hmem
    rw [← honly p.1 (List.mem_filter.mp hmem).1 (hthis.name.symm.trans (of_decide_eq_true hkind).1)]
    exact hthis
  have hne : (own.filter fun p => p.2.name = f.name ∧ p.2.flags.isStatic = f.flags.isStatic) ≠ [] := by
    have hmem : f ∈ own.map (·.1) := hfirst ▸ List.mem_filter.mpr ⟨hf, hshown⟩
    obtain ⟨p, hp, rfl⟩ := List.mem_map.mp hmem
    have hthis := hmadeShown p (List.mem_append_left _ hp)
    exact List.ne_nil_of_mem (List.mem_filter.mpr ⟨hp, decide_eq_true ⟨hthis.name, congrArg _ hthis.flags⟩⟩)
  obtain ⟨p, later, hcons⟩ := List.exists_cons_of_ne_nil hne
  rw [hcons] at hown
  have hp : f.ShownAs p.2 := hown p List.mem_cons_self
  refine ⟨p.2, ?_, hp⟩
  rw [hlookup, List.filter_append, hcons, List.cons_append, List.map_cons, List.foldl_cons]
  refine foldl_moreDerived_eq fun g hg => ?_
  obtain ⟨q, hq, rfl⟩ := List.mem_map.mp hg
  rw [hp.declaring, howned id d hd f hf]
  refine hnotBelow q ?_
  rcases List.mem_append.mp hq with hq | hq
  · have hmem := hcons ▸ List.mem_cons_of_mem p hq
    exact List.mem_append_left _ (List.mem_filter.mp hmem).1
  · exact List.mem_append_right _ (List.mem_filter.mp hq).1

/-- **The members of a type show the field.** -/
theorem collectMembers_own (howned : t.FieldsOwned) {id : TypeId} {d : TypeDecl} (hd : t.find? id = some d)
    (hbelow : ∀ a ∈ t.ancestry id, ¬ t.Below a id) {b : Bindings} {flag : Bool} {entry : TypeMembers}
    (h : t.collectMembers id b flag = .ok entry) {f : FieldDecl} (hf : f ∈ d.fields)
    (hshown : f.isShown flag = true) (honly : ∀ g ∈ d.fields, g.name = f.name → g = f) :
    ∃ a, (entry.table f.flags.isStatic).find? f.name = some (.field a) ∧ f.ShownAs a := by
  rw [collectMembers_eq b flag hd] at h
  obtain ⟨kept, -, h⟩ := exists_of_bind_eq_ok h
  obtain ⟨scan, hscan, h⟩ := exists_of_bind_eq_ok h
  obtain ⟨constructors, -, h⟩ := exists_of_bind_eq_ok h
  obtain ⟨a, hlookup, ha⟩ := scanFields_own howned hd hbelow hscan hf hshown honly
  have htidy := t.scanFields_tidy b flag id (t.ancestry id)
  rw [hscan] at htidy
  cases h
  have hbuilt : ∀ methods, Tidy (scan.slots f.flags.isStatic) → ∃ a,
      (MemberTable.build methods (scan.slots f.flags.isStatic)).find? f.name = some (.field a) ∧ f.ShownAs a := by
    intro methods htidy
    obtain ⟨behind, hfind⟩ := MemberTable.find?_build htidy methods hlookup
    exact ⟨_, hfind, ha.name, ha.declaring, ha.flags, ha.storage⟩
  cases hstatic : f.flags.isStatic with
  | false =>
    rw [hstatic] at hbuilt
    exact hbuilt _ htidy.1
  | true =>
    rw [hstatic] at hbuilt
    exact hbuilt _ htidy.2

/--
**The most derived field hides the others.** In a hierarchy without cycles in which the root type has no supertypes, a
field of an entry is one that is offered along the hierarchy, and no field of its name and kind that is offered is
declared on a strict subtype of the type that declares it. Where fields of a name and kind are offered, the entry has
one.
-/
theorem collectMembers_mostDerived (hacyclic : t.Acyclic) (hroot : t.parents Standard.object = []) {id : TypeId}
    {b : Bindings} {flag : Bool} {entry : TypeMembers} (h : t.collectMembers id b flag = .ok entry) (name : String)
    (isStatic : Bool) :
    (∀ f, (entry.table isStatic).find? name = some (.field f) →
      (∃ g, t.Offers id flag name isStatic g ∧ g.ShownAs f) ∧
        ∀ g, t.Offers id flag name isStatic g → ¬ t.Below g.declaring f.declaring) ∧
    ((∃ g, t.Offers id flag name isStatic g) → ∃ f, (entry.table isStatic).find? name = some (.field f)) := by
  cases hdecl : t.find? id with
  | none =>
    rw [collectMembers, hdecl] at h
    cases h
  | some decl =>
    rw [collectMembers_eq b flag hdecl] at h
    obtain ⟨kept, -, h⟩ := exists_of_bind_eq_ok h
    obtain ⟨scan, hscan, h⟩ := exists_of_bind_eq_ok h
    obtain ⟨constructors, -, h⟩ := exists_of_bind_eq_ok h
    obtain ⟨methods, htable⟩ : ∃ methods, entry.table isStatic = .build methods (scan.slots isStatic) := by
      cases h
      cases isStatic
      · exact ⟨_, rfl⟩
      · exact ⟨_, rfl⟩
    have htidy : Tidy (scan.slots isStatic) := by
      have hboth := t.scanFields_tidy b flag id (t.ancestry id)
      rw [hscan] at hboth
      cases isStatic
      · exact hboth.1
      · exact hboth.2
    obtain ⟨made, hmade, hall, hlookup⟩ := scanFields_offers hscan name isStatic
    have hkeeps := foldl_moreDerived_keeps hacyclic hroot (made.map (·.2))
    rw [htable]
    refine ⟨fun f hf => ?_, ?_⟩
    · obtain ⟨held, hheld⟩ := MemberTable.exists_lookup_of_build htidy hf
      obtain ⟨behind, hfind⟩ := MemberTable.find?_build htidy methods hheld
      -- the field that is shown is the one that is held, with methods behind it
      obtain rfl : f = { held with methods := behind } := by
        rw [hf] at hfind
        cases hfind
        rfl
      obtain ⟨hmem, hminimal⟩ := hkeeps.minimal held (hlookup ▸ hheld)
      obtain ⟨p, hp, rfl⟩ := List.mem_map.mp hmem
      obtain ⟨hoffered, hshown⟩ := hmade p hp
      refine ⟨⟨p.1, hoffered, hshown.name, hshown.declaring, hshown.flags, hshown.storage⟩, fun g hg => ?_⟩
      obtain ⟨a, ha⟩ := hall g hg
      rw [← (hmade (g, a) ha).2.declaring]
      exact hminimal a (List.mem_map_of_mem ha)
    · rintro ⟨g, hg⟩
      obtain ⟨a, ha⟩ := hall g hg
      have hsome := hkeeps.isSome (List.ne_nil_of_mem (List.mem_map_of_mem ha))
      obtain ⟨held, hheld⟩ := Option.isSome_iff_exists.mp hsome
      obtain ⟨behind, hfind⟩ := MemberTable.find?_build htidy methods (hlookup.trans hheld)
      exact ⟨_, hfind⟩

/-- An interface, one that extends it, and a class that implements both, the lower one by way of a third. All but the
last two have a tag. -/
def tags : TypeTable :=
  let tag : FieldSpec := { name := "tag", type := .string, flags := { isStatic := true } }
  let named : TypeSpec := { name := "demo.Named", kind := .ofInterface, fields := [tag] }
  let special : TypeSpec :=
    { name := "demo.Special", kind := .ofInterface, interfaces := [.interface "demo.Named" false], fields := [tag] }
  let extra : TypeSpec :=
    { name := "demo.Extra", kind := .ofInterface, interfaces := [.interface "demo.Special" false] }
  let card : TypeSpec :=
    { name := "demo.Card", kind := .ofClass
      interfaces := [.interface "demo.Named" false, .interface "demo.Extra" false] }
  ([named, special, extra, card].foldl Store.declare (.standard {} false)).types

/-- The type that declares the static field of a name, if an entry has one. -/
def declaresStatic? (entry : TypeMembers) (name : String) : Option TypeId :=
  match entry.statics.find? name with
  | some (.field f) => some f.declaring
  | _ => none

/-- The class meets the tag of the upper interface first, and shows that of the lower one. -/
theorem collectMembers_mostDerived_tags :
    tags.Acyclic ∧ tags.parents Standard.object = [] ∧
    tags.ancestry (.ofName "demo.Card") =
      [.ofName "demo.Card", .ofName "demo.Named", .ofName "demo.Extra", .ofName "demo.Special", Standard.object] ∧
    ∃ entry f, tags.collectMembers (.ofName "demo.Card") .empty false = .ok entry ∧
      entry.statics.find? "tag" = some (.field f) ∧ f.declaring = .ofName "demo.Special" ∧
      ∀ g, tags.Offers (.ofName "demo.Card") false "tag" true g → ¬ tags.Below g.declaring f.declaring := by
  have hacyclic : tags.Acyclic := acyclic_of_order (by decide +kernel) (by decide +kernel)
  have hroot : tags.parents Standard.object = [] := by decide +kernel
  have hentry : ((tags.collectMembers (.ofName "demo.Card") .empty false).toOption.map fun entry =>
      declaresStatic? entry "tag") = some (some (.ofName "demo.Special")) := by decide +kernel
  refine ⟨hacyclic, hroot, by decide +kernel, ?_⟩
  cases hcollect : tags.collectMembers (.ofName "demo.Card") .empty false with
  | error stop =>
    rw [hcollect] at hentry
    cases hentry
  | ok entry =>
    rw [hcollect] at hentry
    have hdeclares : declaresStatic? entry "tag" = some (.ofName "demo.Special") := Option.some.inj hentry
    unfold declaresStatic? at hdeclares
    split at hdeclares
    · next f hf =>
      have hminimal := ((collectMembers_mostDerived hacyclic hroot hcollect "tag" true).1 f hf).2
      exact ⟨entry, f, rfl, hf, Option.some.inj hdeclares, hminimal⟩
    · cases hdeclares

end TypeTable

end Interop
