import Interop.Proofs.Member.Resolved
import Interop.Proofs.TypeTable.Reachability
import Interop.TypeTable.Standard

/-!
# Fields that a type declares itself

In a hierarchy without cycles a static field that a type declares is the one that its members show: it is met before
those of the supertypes, and only a field of a strict subtype would take its place. Methods of its name stand behind it,
and a property is made only where its name is free. Enum constants are such fields.

* **`TypeTable.scanFields_guards`**: own fields stay where they are while the supertypes are scanned.
* **`MemberTable.showsOnly_build`**: a field of a table is one that the table was built from.
* **`TypeTable.collectMembers_presents`**: the entry of a type is about that type, and shows its own fields.
-/

namespace Interop

-- ids are compared as they stand; unfolding one means computing a digest
attribute [local irreducible] TypeId.ofName

/-! ## Fields of tables -/

namespace MemberTable

theorem find?_insert (t : MemberTable) (name : String) (m : Member) (n : String) :
    (t.insert name m).find? n = if n = name then some m else t.find? n :=
  lookup_of_insertion (insertRow name m) rfl (fun _ _ => rfl) t.rows n

/-- The fields that a table shows under a name are among those given, with other methods behind them. -/
def ShowsOnly (t : MemberTable) (name : String) (given : List MemberField) : Prop :=
  ∀ f, t.find? name = some (.field f) → ∃ g ∈ given, g.name = name ∧ g.flags = f.flags ∧ g.storage = f.storage

/-- A member that is put under another name changes nothing, and one under this name has to show a given field. -/
theorem ShowsOnly.insert {t : MemberTable} {name : String} {given : List MemberField} (ht : t.ShowsOnly name given)
    {other : String} {m : Member} (hm : other = name → ∀ f, m = .field f →
      ∃ g ∈ given, g.name = name ∧ g.flags = f.flags ∧ g.storage = f.storage) :
    (t.insert other m).ShowsOnly name given := by
  intro f hf
  rw [find?_insert] at hf
  split at hf
  · next heq =>
    cases hf
    exact hm heq.symm f rfl
  · exact ht f hf

theorem ShowsOnly.addField {t : MemberTable} {name : String} {given : List MemberField} (ht : t.ShowsOnly name given)
    {g : MemberField} (hg : g ∈ given) : (t.addField g).ShowsOnly name given := by
  unfold MemberTable.addField
  split
  · refine ht.insert fun hname f hf => ?_
    cases hf
    exact ⟨g, hg, hname, rfl, rfl⟩
  · refine ht.insert fun hname f hf => ?_
    cases hf
    exact ⟨g, hg, hname, rfl, rfl⟩

/-- Properties take only free names, and so show no other field under this one. -/
theorem ShowsOnly.withProperties {t : MemberTable} {name : String} {given : List MemberField}
    (ht : t.ShowsOnly name given) : t.withProperties.ShowsOnly name given := by
  refine List.foldlRecOn (motive := fun t => ShowsOnly t name given) _ _ ht fun t ht p _ => ?_
  refine ht.insert fun _ f hf => ?_
  cases hf

theorem showsOnly_ofMethods (methods : List Callable) (name : String) (given : List MemberField) :
    (ofMethods methods).ShowsOnly name given := by
  intro f hf
  obtain ⟨group, -, hrow⟩ := List.mem_map.mp (mem_of_find? hf)
  cases hrow

/-- **A field that a table shows is one that it was built from.** -/
theorem showsOnly_build (methods : List Callable) (fields : TypeTable.NamedFields) (name : String) :
    (build methods fields).ShowsOnly name (fields.map (·.2)) := by
  refine ShowsOnly.withProperties ?_
  refine List.foldlRecOn (motive := fun t => ShowsOnly t name (fields.map (·.2))) _ _
    (showsOnly_ofMethods methods name _) fun t ht slot hslot => ?_
  exact ht.addField (List.mem_map_of_mem hslot)

end MemberTable

/-! ## Scanning for fields -/

/-- A stop other than a refusal of the host to list members. -/
def Stop.NotRefused (stop : Stop) : Prop := ∀ name, stop ≠ .failed (.accessDenied name)

/-- The field as its accessor shows it. -/
structure FieldDecl.ShownAs (f : FieldDecl) (a : MemberField) : Prop where
  name : a.name = f.name
  declaring : a.declaring = f.declaring
  flags : a.flags = f.flags
  storage : f.storage = some a.storage

/-- Resolving a type is refused for no type that the host hides: it fails at variables alone. -/
theorem resolveType_notRefused (b : Bindings) (d : Descriptor) :
    Yields Stop.NotRefused (resolveType b d) fun _ => True := by
  unfold resolveType
  dsimp only
  split
  · exact nofun
  · trivial

/-- A declared field is shown with its flags and its storage, unless it has none. -/
theorem MemberField.ofField?_shown (b : Bindings) (f : FieldDecl) :
    Yields Stop.NotRefused (MemberField.ofField? b f) fun made =>
      (∀ a, made = some a → f.ShownAs a) ∧ (made = none → f.storage = none) := by
  unfold ofField?
  split
  · next hstorage => exact ⟨by simp, fun _ => hstorage⟩
  · next storage hstorage =>
    refine (resolveType_notRefused b f.type).bind fun type _ => ⟨fun a ha => ?_, by simp⟩
    cases ha
    exact ⟨rfl, rfl, rfl, hstorage⟩

namespace TypeTable

/-- The host lists the members of all types. -/
def Listed (t : TypeTable) : Prop := ∀ id d, t.find? id = some d → d.denied = false

/-- Fields are declared by the types that list them. -/
def FieldsOwned (t : TypeTable) : Prop := ∀ id d, t.find? id = some d → ∀ f ∈ d.fields, f.declaring = id

/-- The host lists the members of some types. -/
def ListsAll (t : TypeTable) (ids : List TypeId) : Prop := ∀ id ∈ ids, ∀ d, t.find? id = some d → d.denied = false

instance (t : TypeTable) (ids : List TypeId) : Decidable (t.ListsAll ids) :=
  decidable_of_iff (∀ id ∈ ids, ∀ d ∈ t.find? id, d.denied = false) Iff.rfl

variable {t : TypeTable} {b : Bindings} {flag : Bool}

/-- Where all types are listed, so are those of every closure. -/
theorem Listed.listsAll (ht : t.Listed) (ids : List TypeId) : t.ListsAll ids := fun id _ => ht id

/-- Of a type that is not denied the declaration is found. -/
theorem declaredBy_notRefused (root : TypeId) {id : TypeId} (hid : ∀ d, t.find? id = some d → d.denied = false) :
    Yields Stop.NotRefused (t.declaredBy root id) fun decl => decl = t.find? id := by
  unfold declaredBy describe
  cases hfind : t.find? id with
  | none =>
    dsimp only
    split
    · exact nofun
    · exact rfl
  | some d =>
    dsimp only
    rw [hid d hfind]
    exact rfl

/-- The static fields of a name are owned, and there is one as soon as it was met. -/
structure Guards (own : MemberField → Prop) (name : String) (scan : FieldScan) : Prop where
  named : ∀ slot ∈ scan.statics, slot.1 = slot.2.name
  owned : ∀ slot ∈ scan.statics, slot.1 = name → own slot.2

/-- A field of a name has been met. -/
def FieldScan.Met (scan : FieldScan) (name : String) : Prop := ∃ slot ∈ scan.statics, slot.1 = name

/-- Adding a field keeps a slot for every name there was, and one for its own. -/
theorem exists_mem_addField (slots : NamedFields) (f : MemberField) :
    (∀ old ∈ slots, ∃ slot ∈ t.addField slots f, slot.1 = old.1) ∧ ∃ slot ∈ t.addField slots f, slot.1 = f.name := by
  induction slots with
  | nil => exact ⟨List.forall_mem_nil _, (f.name, f), List.mem_singleton_self _, rfl⟩
  | cons first rest ih =>
    obtain ⟨hold, slot, hslot, hname⟩ := ih
    rw [addField]
    split
    · next hfirst =>
      split
      · refine ⟨List.forall_mem_cons.mpr ⟨⟨_, List.mem_cons_self, rfl⟩, fun old hmem => ?_⟩,
          _, List.mem_cons_self, hfirst⟩
        exact ⟨old, List.mem_cons_of_mem _ hmem, rfl⟩
      · exact ⟨fun old hmem => ⟨old, hmem, rfl⟩, first, List.mem_cons_self, hfirst⟩
    · refine ⟨List.forall_mem_cons.mpr ⟨⟨_, List.mem_cons_self, rfl⟩, fun old hmem => ?_⟩, slot, ?_, hname⟩
      · obtain ⟨slot, hslot, hname⟩ := hold old hmem
        exact ⟨slot, List.mem_cons_of_mem _ hslot, hname⟩
      · exact List.mem_cons_of_mem _ hslot

variable {own : MemberField → Prop} {name : String}

/-- Taking in a field keeps the guard if the field is owned itself, or if an owned one is there that it cannot
replace. -/
theorem Guards.add {scan : FieldScan} (hscan : Guards own name scan) {f : FieldDecl}
    (hf : f.name = name → (∀ a, f.ShownAs a → own a) ∨ (scan.Met name ∧ ∀ a, own a →
      a.declaring = f.declaring ∨ t.isSubtype f.declaring a.declaring = false)) :
    Yields Stop.NotRefused (FieldScan.add t b flag scan f) fun scan' => Guards own name scan' ∧
      (scan.Met name → scan'.Met name) ∧
      (f.name = name → f.flags.isVisible flag = true → f.flags.isStatic = true → f.storage ≠ none →
        scan'.Met name) := by
  unfold FieldScan.add
  split
  · next hhidden =>
    refine ⟨hscan, id, fun _ hvisible => ?_⟩
    rw [hvisible] at hhidden
    cases hhidden
  · refine (MemberField.ofField?_shown b f).bind fun made hmade => ?_
    cases made with
    | none => exact ⟨hscan, id, fun _ _ _ hstorage => absurd (hmade.2 rfl) hstorage⟩
    | some a =>
      have hshown := hmade.1 a rfl
      dsimp only
      split
      · -- an own field stays in the slot of its name, unless a field of a type strictly below replaces it
        obtain ⟨hkept, hadded⟩ := t.exists_mem_addField scan.statics a
        refine ⟨⟨fun slot (hslot : slot ∈ t.addField scan.statics a) => ?_,
          fun slot (hslot : slot ∈ t.addField scan.statics a) hname => ?_⟩, ?_, ?_⟩
        · rcases mem_addField hslot with hold | ⟨rfl, -⟩
          · exact hscan.named slot hold
          · rfl
        · rcases mem_addField hslot with hold | ⟨rfl, hover⟩
          · exact hscan.owned slot hold hname
          · rcases hf (hshown.name.symm.trans hname) with hown | ⟨⟨there, hthere, htherename⟩, hstrict⟩
            · exact hown a hshown
            · rcases hover with hnone | ⟨old, hold, holdname, hne, hsub⟩
              · exact absurd (htherename.trans hname.symm) (hnone there hthere)
              · rw [hshown.declaring] at hne hsub
                rcases hstrict old.2 (hscan.owned old hold (holdname.trans hname)) with heq | hnot
                · exact absurd heq hne
                · rw [hnot] at hsub
                  cases hsub
        · rintro ⟨old, hold, holdname⟩
          obtain ⟨slot, hslot, heq⟩ := hkept old hold
          exact ⟨slot, hslot, heq.trans holdname⟩
        · intro hname _ _ _
          obtain ⟨slot, hslot, heq⟩ := hadded
          exact ⟨slot, hslot, heq.trans (hshown.name.trans hname)⟩
      · -- instance fields have a list of their own
        next hstatic =>
        refine ⟨⟨hscan.named, hscan.owned⟩, id, fun _ _ hisStatic => ?_⟩
        rw [hshown.flags] at hstatic
        exact absurd hisStatic hstatic

/-- The fields that a type declares itself are all owned, and those of the name are then met. -/
theorem Guards.ownFields : ∀ {fields : List FieldDecl} {scan : FieldScan}, Guards own name scan →
    (∀ f ∈ fields, f.name = name → (∀ a, f.ShownAs a → own a) ∧ f.flags.isVisible flag = true ∧
      f.flags.isStatic = true ∧ f.storage ≠ none) →
    Yields Stop.NotRefused (fields.foldlM (FieldScan.add t b flag) scan) fun scan' => Guards own name scan' ∧
      ((scan.Met name ∨ ∃ f ∈ fields, f.name = name) → scan'.Met name)
  | [], scan, hscan, _ => by
    refine ⟨hscan, fun hmet => ?_⟩
    rcases hmet with hmet | ⟨f, hf, -⟩
    · exact hmet
    · cases hf
  | f :: rest, scan, hscan, hfields => by
    obtain ⟨hf, hrest⟩ := List.forall_mem_cons.mp hfields
    rw [List.foldlM_cons]
    refine (hscan.add fun hname => .inl (hf hname).1).bind fun scan₁ ⟨hscan₁, hkept, hadded⟩ => ?_
    refine (hscan₁.ownFields hrest).mono fun scan₂ ⟨hscan₂, hmet⟩ => ⟨hscan₂, ?_⟩
    rintro (hbefore | ⟨g, hg, hname⟩)
    · exact hmet (.inl (hkept hbefore))
    · rcases List.mem_cons.mp hg with rfl | hg
      · obtain ⟨-, hvisible, hstatic, hstorage⟩ := hf hname
        exact hmet (.inl (hadded hname hvisible hstatic hstorage))
      · exact hmet (.inr ⟨g, hg, hname⟩)

/-- An accessor of a field that a type declares itself. -/
def IsOwn (id : TypeId) (d : TypeDecl) (name : String) (a : MemberField) : Prop :=
  a.declaring = id ∧ ∃ f ∈ d.fields, f.name = name ∧ f.ShownAs a

/-- All fields of a name that a type declares are static ones which everybody sees, and there is one. -/
structure OwnsStatic (d : TypeDecl) (name : String) : Prop where
  declared : ∃ f ∈ d.fields, f.name = name
  visible : ∀ f ∈ d.fields, f.name = name → ∀ flag, f.flags.isVisible flag = true
  isStatic : ∀ f ∈ d.fields, f.name = name → f.flags.isStatic = true
  stored : ∀ f ∈ d.fields, f.name = name → f.storage ≠ none

/-- **Own fields stay**: while the supertypes are scanned nothing takes their place. -/
theorem scanFields_guards (hlisted : t.Listed) (howned : t.FieldsOwned) (hacyclic : t.Acyclic)
    (hroot : t.parents Standard.object = []) {id : TypeId} (hid : id ≠ Standard.object) {d : TypeDecl}
    (hd : t.find? id = some d) (hname : OwnsStatic d name) :
    Yields Stop.NotRefused (t.scanFields b flag id (t.ancestry id)) fun scan =>
      Guards (IsOwn id d name) name scan ∧ scan.Met name := by
  obtain ⟨rest, hancestry, hrest⟩ := t.ancestry_eq_cons id
  rw [hancestry, scanFields, List.foldlM_cons]
  refine Yields.bind (P := fun scan => Guards (IsOwn id d name) name scan ∧ scan.Met name) ?_ fun scan hscan => ?_
  · refine (declaredBy_notRefused id (hlisted id)).bind fun decl hdecl => ?_
    rw [hdecl, hd]
    have hstart : Guards (IsOwn id d name) name {} := ⟨List.forall_mem_nil _, List.forall_mem_nil _⟩
    refine (hstart.ownFields fun f hf heq => ⟨fun a ha => ⟨?_, f, hf, heq, ha⟩, hname.visible f hf heq flag,
      hname.isStatic f hf heq, hname.stored f hf heq⟩).mono
      fun scan ⟨hscan, hthere⟩ => ⟨hscan, hthere (.inr hname.declared)⟩
    rw [ha.declaring, howned id d hd f hf]
  · refine Yields.foldlM (fun ancestor hancestor scan hscan => ?_) hscan
    refine (declaredBy_notRefused id (hlisted ancestor)).bind fun decl hdecl => ?_
    refine Yields.foldlM (fun f hf scan hscan => ?_) hscan
    have hdeclaring : f.declaring = ancestor := by
      cases hfind : t.find? ancestor with
      | none =>
        rw [hdecl, hfind] at hf
        cases hf
      | some d' =>
        rw [hdecl, hfind] at hf
        exact howned ancestor d' hfind f hf
    -- a supertype that is a subtype as well would close a cycle
    have hstrict : ancestor = id ∨ t.isSubtype ancestor id = false := by
      refine or_iff_not_imp_right.mpr fun hsub => ?_
      rcases (t.isSubtype_iff ancestor id).mp (Bool.eq_true_of_not_eq_false hsub) with heq | ⟨-, -, heq | hup⟩
      · exact heq
      · exact absurd heq hid
      · rcases hrest ancestor hancestor with hdown | rfl
        · exact hacyclic.eq_of_reaches hup hdown
        · exact hup.eq_of_parents_nil hroot
    refine (hscan.1.add fun _ => .inr ⟨hscan.2, fun a ha => ?_⟩).mono fun scan' ⟨hscan', hkept, _⟩ =>
      ⟨hscan', hkept hscan.2⟩
    rw [hdeclaring, ha.1]
    exact hstrict.imp_left Eq.symm

/-! ## Entries -/

/-- Along a closure of listed types the scan of the fields is not refused. -/
theorem scanFields_notRefused (root : TypeId) {closure : List TypeId} (hlisted : t.ListsAll closure) :
    Yields Stop.NotRefused (t.scanFields b flag root closure) fun _ => True := by
  have hrun : Yields Stop.NotRefused (t.scanFields b flag root closure) (Guards (fun _ => True) "") := by
    refine Yields.foldlM (fun id hid scan hscan => ?_) ⟨List.forall_mem_nil _, List.forall_mem_nil _⟩
    refine (declaredBy_notRefused root (hlisted id hid)).bind fun decl _ => ?_
    refine Yields.foldlM (fun f _ scan hscan => ?_) hscan
    exact (hscan.add fun _ => .inl fun _ _ => trivial).mono fun scan' hscan' => hscan'.1
  exact hrun.mono fun _ _ => trivial

theorem params_notRefused (params : List Descriptor) :
    Yields Stop.NotRefused (params.mapM (resolveType b)) fun _ => True :=
  (Yields.mapM fun d _ => resolveType_notRefused b d).mono fun _ _ => trivial

theorem scanMethods_notRefused (root : TypeId) {closure : List TypeId} (hlisted : t.ListsAll closure) :
    Yields Stop.NotRefused (t.scanMethods b flag root closure) fun _ => True := by
  refine Yields.foldlM (fun id hid scan _ => ?_) trivial
  refine (declaredBy_notRefused root (hlisted id hid)).bind fun decl _ => ?_
  refine Yields.foldlM (fun m _ scan _ => ?_) trivial
  unfold MethodScan.add Callable.ofMethod?
  split
  · trivial
  · split
    · trivial
    · refine Yields.bind (P := fun _ => True) ?_ fun _ _ => trivial
      exact (params_notRefused m.params).bind fun _ _ =>
        (resolveType_notRefused b m.returnType).bind fun _ _ => trivial

theorem scanConstructors_notRefused {root : TypeId} (hroot : ∀ d, t.find? root = some d → d.denied = false)
    (decl : TypeDecl) :
    Yields Stop.NotRefused (t.scanConstructors b flag root decl) fun _ => True := by
  unfold scanConstructors
  split
  · trivial
  · refine (declaredBy_notRefused root hroot).bind fun declared _ => ?_
    refine Yields.bind (P := fun _ => True) ?_ fun candidates _ => ?_
    · refine (Yields.mapM (P := fun _ => True) fun c _ => ?_).mono fun _ _ => trivial
      unfold Callable.ofConstructor?
      split
      · trivial
      · exact (params_notRefused c.params).bind fun _ _ => trivial
    · split <;> trivial

/-- An entry is about a type and shows the static fields that the type declares itself. -/
structure Presents (t : TypeTable) (id : TypeId) (entry : TypeMembers) : Prop where
  typeId : entry.typeId = id
  shows : ∀ d, t.find? id = some d → ∀ name, OwnsStatic d name → ∀ f, entry.statics.find? name = some (.field f) →
    ∃ own ∈ d.fields, own.name = name ∧ own.storage = some f.storage

/-- **The entry of a type presents it**: its own static fields are those that its members show. -/
theorem collectMembers_presents (hlisted : t.Listed) (howned : t.FieldsOwned) (hacyclic : t.Acyclic)
    (hroot : t.find? Standard.object = some StandardType.object) (id : TypeId) :
    Yields Stop.NotRefused (t.collectMembers id b flag) (t.Presents id) := by
  unfold collectMembers
  cases hd : t.find? id with
  | none => exact nofun
  | some d =>
    -- for every name under which the type owns a static field, the slot of the name keeps a field of its own
    have hfields : Yields Stop.NotRefused (t.scanFields b flag id (t.ancestry id)) fun scan =>
        ∀ name : { name // OwnsStatic d name }, Guards (IsOwn id d name) name scan := by
      refine Yields.all (scanFields_notRefused id (hlisted.listsAll _)) fun ⟨name, hname⟩ => ?_
      have hid : id ≠ Standard.object := by
        rintro rfl
        obtain ⟨f, hf, -⟩ := hname.declared
        rw [hroot] at hd
        cases hd
        cases hf
      have hparents : t.parents Standard.object = [] := by
        rw [parents, hroot]
        rfl
      exact (scanFields_guards hlisted howned hacyclic hparents hid hd hname).mono fun _ h => h.1
    refine (scanMethods_notRefused id (hlisted.listsAll _)).bind fun methods _ => ?_
    refine hfields.bind fun fields hguards => ?_
    refine (scanConstructors_notRefused (hlisted id) d).bind fun constructors _ => ⟨rfl, ?_⟩
    intro d' hd' name hname f hf
    rw [hd] at hd'
    cases hd'
    -- so the field that is shown under the name came from that slot
    obtain ⟨g, hg, hgname, -, hstorage⟩ := MemberTable.showsOnly_build _ _ name f hf
    obtain ⟨slot, hslot, rfl⟩ := List.mem_map.mp hg
    have hslotname : slot.1 = name := ((hguards ⟨name, hname⟩).named slot hslot).trans hgname
    obtain ⟨-, own, hown, hownname, hshown⟩ := (hguards ⟨name, hname⟩).owned slot hslot hslotname
    refine ⟨own, hown, hownname, ?_⟩
    rw [hshown.storage, hstorage]

/-- Where nothing is refused the search does not go on to other types. -/
theorem collectOrAbove_presents (hlisted : t.Listed) (howned : t.FieldsOwned) (hacyclic : t.Acyclic)
    (hroot : t.find? Standard.object = some StandardType.object) (declared : Option TypeId) (id : TypeId) :
    Yields Stop.NotRefused (t.collectOrAbove b flag declared id) (t.Presents id) := by
  have hcollected : Yields Stop.NotRefused (t.collectMembers id b flag) (t.Presents id) :=
    collectMembers_presents hlisted howned hacyclic hroot id
  unfold collectOrAbove
  split
  · next refused hrefused =>
    rw [hrefused] at hcollected
    exact absurd rfl (hcollected refused)
  · exact hcollected

end TypeTable

end Interop
