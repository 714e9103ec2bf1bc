import Interop.Member.Cache
import Interop.Proofs.Lookup

/-!
# Where members come from

Collecting makes up no members. Every method, constructor and field of an entry is made from a declaration; grouping,
overriding, the fields in front of methods and the properties made of accessors only arrange them. So a requirement that
is met by what each declaration is made into is met by the whole entry, whatever the hierarchy looks like.

* **`Yields`**: what a computation that may stop gives.
* **`MemberTable.meets_build`**: a table meets what its methods and fields meet.
* **`TypeTable.Makes`**: what declarations are made into.
* **`TypeTable.collectOrAbove_meets`**: an entry meets what its declarations are made to meet.
-/

namespace Interop

/-! ## Results

Collecting is a computation that may stop. What it yields holds of its result, and says where else it may stop. -/

/-- The result has a property, or the computation stopped as allowed. -/
def Yields (allowed : Stop → Prop) (x : Except Stop α) (P : α → Prop) : Prop :=
  match x with
  | .ok a => P a
  | .error stop => allowed stop

namespace Yields

variable {allowed : Stop → Prop}

/-- A computation in two parts stops only as its parts may. -/
theorem bind {x : Except Stop α} {f : α → Except Stop β} {P : α → Prop} {Q : β → Prop} (hx : Yields allowed x P)
    (hf : ∀ a, P a → Yields allowed (f a) Q) : Yields allowed (x >>= f) Q := by
  cases x with
  | ok a => exact hf a hx
  | error stop => exact hx

/-- Without a claim about stops or results there is nothing to show. -/
theorem any (x : Except Stop α) : Yields (fun _ => True) x fun _ => True := by
  cases x <;> trivial

/-- Of a result more may be known than is asked. -/
theorem mono {x : Except Stop α} {P Q : α → Prop} (hx : Yields allowed x P) (h : ∀ a, P a → Q a) :
    Yields allowed x Q := by
  cases x with
  | ok a => exact h a hx
  | error stop => exact hx

/-- Facts about a result that are known one by one are known together. -/
theorem all {x : Except Stop α} {P : ι → α → Prop} (hx : Yields allowed x fun _ => True)
    (h : ∀ i, Yields allowed x (P i)) : Yields allowed x fun a => ∀ i, P i a := by
  cases x with
  | ok a => exact h
  | error stop => exact hx

/-- A loop over a list yields what each of its rounds does. -/
theorem mapM {f : α → Except Stop β} {P : β → Prop} : ∀ {xs : List α}, (∀ x ∈ xs, Yields allowed (f x) P) →
    Yields allowed (xs.mapM f) fun ys => ∀ y ∈ ys, P y
  | [], _ => by
    rw [List.mapM_nil]
    exact fun y hy => absurd hy List.not_mem_nil
  | x :: xs, h => by
    obtain ⟨hx, hxs⟩ := List.forall_mem_cons.mp h
    rw [List.mapM_cons]
    exact hx.bind fun y hy => (mapM hxs).bind fun ys hys => List.forall_mem_cons.mpr ⟨hy, hys⟩

/-- A run of steps yields what every step keeps. -/
theorem foldlM {f : β → α → Except Stop β} {P : β → Prop} : ∀ {xs : List α} {b : β},
    (∀ x ∈ xs, ∀ b, P b → Yields allowed (f b x) P) → P b → Yields allowed (xs.foldlM f b) P
  | [], _, _, hb => hb
  | x :: xs, b, h, hb => by
    obtain ⟨hx, hxs⟩ := List.forall_mem_cons.mp h
    rw [List.foldlM_cons]
    exact (hx b hb).bind fun b' hb' => foldlM hxs hb'

end Yields

/-! ## Requirements -/

/-- What is required of methods and constructors, and of fields by their type and storage. -/
structure Requirement where
  callable : Callable → Prop
  field : Descriptor → Storage → Prop

def OverloadSet.Meets (R : Requirement) (set : OverloadSet) : Prop := ∀ c ∈ set.candidates, R.callable c

/-- Of a field and of the methods behind it. -/
structure MemberField.Meets (R : Requirement) (f : MemberField) : Prop where
  field : R.field f.type f.storage
  methods : ∀ set, f.methods = some set → set.Meets R

structure Property.Meets (R : Requirement) (p : Property) : Prop where
  getter : ∀ c, p.getter = some c → R.callable c
  setter : ∀ c, p.setter = some c → R.callable c
  setters : ∀ set, p.setters = some set → set.Meets R

def Member.Meets (R : Requirement) : Member → Prop
  | .methods set => set.Meets R
  | .field f => f.Meets R
  | .property p => p.Meets R

def MemberTable.Meets (R : Requirement) (t : MemberTable) : Prop := ∀ row ∈ t.rows, row.2.Meets R

structure TypeMembers.Meets (R : Requirement) (e : TypeMembers) : Prop where
  instances : e.instances.Meets R
  statics : e.statics.Meets R
  constructors : ∀ set, e.constructors = some set → set.Meets R

variable {R : Requirement}

/-! ## Tables -/

/-- A method that is grouped by its name is the new one or was in a group before. -/
theorem mem_groupMethod {c : Callable} : ∀ {groups : List (String × List Callable)}
    {group : String × List Callable}, group ∈ groupMethod groups c →
      ∀ c' ∈ group.2, c' = c ∨ ∃ old ∈ groups, c' ∈ old.2 := by
  intro groups
  induction groups with
  | nil =>
    intro group hgroup c' hc'
    rw [groupMethod, List.mem_singleton] at hgroup
    subst hgroup
    exact .inl (List.mem_singleton.mp hc')
  | cons first rest ih =>
    intro group hgroup c' hc'
    rw [groupMethod] at hgroup
    split at hgroup
    · rcases List.mem_cons.mp hgroup with rfl | hrest
      · rcases List.mem_append.mp hc' with hold | hnew
        · exact .inr ⟨first, List.mem_cons_self, hold⟩
        · exact .inl (List.mem_singleton.mp hnew)
      · exact .inr ⟨group, List.mem_cons_of_mem _ hrest, hc'⟩
    · rcases List.mem_cons.mp hgroup with rfl | hrest
      · exact .inr ⟨first, List.mem_cons_self, hc'⟩
      · rcases ih hrest c' hc' with hnew | ⟨old, hold, hc'⟩
        · exact .inl hnew
        · exact .inr ⟨old, List.mem_cons_of_mem _ hold, hc'⟩

/-- Grouping makes up no methods. -/
theorem mem_groupMethods (methods : List Callable) :
    ∀ group ∈ groupMethods methods, ∀ c ∈ group.2, c ∈ methods := by
  refine List.foldlRecOn (motive := fun groups => ∀ group ∈ groups, ∀ c ∈ group.2, c ∈ methods)
    methods groupMethod (List.forall_mem_nil _) fun groups hgroups added hadded group hgroup c hc => ?_
  rcases mem_groupMethod hgroup c hc with rfl | ⟨old, hold, hc⟩
  · exact hadded
  · exact hgroups old hold c hc

namespace MemberTable

/-- A row that is in the table after a member was put was there before, or has the member. -/
theorem mem_insertRow {name : String} {m : Member} : ∀ {rows : List (String × Member)} {row : String × Member},
    row ∈ insertRow name m rows → row.2 = m ∨ row ∈ rows := by
  intro rows
  induction rows with
  | nil => simp [insertRow]
  | cons first rest ih =>
    intro row hrow
    rw [insertRow] at hrow
    split at hrow
    · rcases List.mem_cons.mp hrow with rfl | hrest
      · exact .inl rfl
      · exact .inr (List.mem_cons_of_mem _ hrest)
    · rcases List.mem_cons.mp hrow with rfl | hrest
      · exact .inr List.mem_cons_self
      · exact (ih hrest).imp_right (List.mem_cons_of_mem _)

theorem mem_of_find? {t : MemberTable} {name : String} {m : Member} (h : t.find? name = some m) :
    (name, m) ∈ t.rows := mem_of_lookup h

/-- The overloads that are found obey the rule of the table. -/
theorem Meets.overloads? {t : MemberTable} (ht : t.Meets R) {name : String} {m : Member} {set : OverloadSet}
    (hm : t.find? name = some m) (hset : m.overloads? = some set) : set.Meets R := by
  have hmember : m.Meets R := ht _ (mem_of_find? hm)
  cases m with
  | methods found =>
    cases hset
    exact hmember
  | field f => exact hmember.methods set hset
  | property p => cases hset

/-- A member that obeys a rule may be put under any name. -/
theorem meets_insert {t : MemberTable} (ht : t.Meets R) {m : Member} (hm : m.Meets R) (name : String) :
    (t.insert name m).Meets R := by
  intro row hrow
  rcases mem_insertRow hrow with heq | hold
  · rw [heq]
    exact hm
  · exact ht row hold

/-- Methods that obey a rule make a table that does. -/
theorem meets_ofMethods {methods : List Callable} (h : ∀ c ∈ methods, R.callable c) : (ofMethods methods).Meets R := by
  intro row hrow
  obtain ⟨group, hgroup, rfl⟩ := List.mem_map.mp hrow
  exact fun c hc => h c (mem_groupMethods methods group hgroup c hc)

theorem meets_addField {t : MemberTable} (ht : t.Meets R) {f : MemberField} (hf : f.Meets R) :
    (t.addField f).Meets R := by
  unfold addField
  split
  · next set hset =>
    have hmethods : set.Meets R := ht _ (mem_of_find? hset)
    refine meets_insert (m := .field { f with methods := some set }) ht ⟨hf.field, fun behind heq => ?_⟩ f.name
    cases heq
    exact hmethods
  · exact meets_insert (m := .field f) ht hf f.name

end MemberTable

/-! ## Properties -/

namespace AccessorGroup

/-- The accessors that a property is made of. -/
def accessors (a : AccessorGroup) : List Callable := a.getter.toList ++ a.setters

/-- An accessor of a group was there before, or is one of the overloads of the method that is met. -/
theorem mem_accessors_add {a : AccessorGroup} {m : AccessorMethod} :
    ∀ c ∈ (a.add m).accessors, c ∈ a.accessors ∨ c ∈ m.set.candidates := by
  obtain ⟨kind, name, set⟩ := m
  intro c hc
  cases kind with
  -- the getter is replaced by one that fits, or else stays
  | get =>
    unfold add at hc
    dsimp only at hc
    split at hc
    · next getter hgetter =>
      rcases List.mem_append.mp hc with hnew | hold
      · cases Option.mem_toList.mp hnew
        exact .inr (List.mem_of_find?_eq_some hgetter)
      · exact .inl (List.mem_append_right _ hold)
    · exact .inl hc
  -- a getter that is there is not replaced
  | is =>
    unfold add at hc
    dsimp only at hc
    split at hc
    · exact .inl hc
    · rcases List.mem_append.mp hc with hnew | hold
      · exact .inr (List.mem_of_find?_eq_some (Option.mem_toList.mp hnew))
      · exact .inl (List.mem_append_right _ hold)
  | set =>
    rcases List.mem_append.mp hc with hgetter | hsetter
    · exact .inl (List.mem_append_left _ hgetter)
    · rcases List.mem_append.mp hsetter with hold | hnew
      · exact .inl (List.mem_append_right _ hold)
      · exact .inr (List.mem_filter.mp hnew).1

/-- A property is made of accessors alone, so it obeys the rule that they do. -/
theorem meets_toProperty? {a : AccessorGroup} (ha : ∀ c ∈ a.accessors, R.callable c) {name : String} {p : Property}
    (hp : a.toProperty? name = some p) : p.Meets R := by
  have hgetter : ∀ c, a.getter = some c → R.callable c := fun c hc =>
    ha c (List.mem_append_left _ (Option.mem_toList.mpr hc))
  have hsetters : ∀ c ∈ a.setters, R.callable c := fun c hc => ha c (List.mem_append_right _ hc)
  unfold toProperty? at hp
  split at hp
  · cases hp
  · cases hp
    exact ⟨hgetter, by simp, by simp⟩
  · next only hsingle =>
    cases hp
    refine ⟨hgetter, fun c hc => hsetters c ?_, by simp⟩
    cases hc
    rw [hsingle]
    exact List.mem_singleton_self only
  · split at hp
    · next setter hsetter =>
      cases hp
      refine ⟨hgetter, fun c hc => hsetters c ?_, by simp⟩
      cases hc
      obtain ⟨getter, -, hfound⟩ := Option.bind_eq_some_iff.mp hsetter
      exact List.mem_of_find?_eq_some hfound
    · cases hp
      refine ⟨hgetter, by simp, fun set hset => ?_⟩
      cases hset
      exact hsetters

end AccessorGroup

namespace MemberTable

/-- Accessors that are collected under a name come from the method or were there. -/
theorem mem_collectAccessor {name : String} {m : AccessorMethod} :
    ∀ {found : List (String × AccessorGroup)} {entry : String × AccessorGroup},
      entry ∈ collectAccessor found name m → ∀ c ∈ entry.2.accessors,
        c ∈ m.set.candidates ∨ ∃ old ∈ found, c ∈ old.2.accessors := by
  intro found
  induction found with
  | nil =>
    intro entry hentry c hc
    rw [collectAccessor, List.mem_singleton] at hentry
    subst hentry
    rcases AccessorGroup.mem_accessors_add c hc with hold | hnew
    · cases hold
    · exact .inl hnew
  | cons first rest ih =>
    intro entry hentry c hc
    rw [collectAccessor] at hentry
    split at hentry
    · rcases List.mem_cons.mp hentry with rfl | hrest
      · rcases AccessorGroup.mem_accessors_add c hc with hold | hnew
        · exact .inr ⟨first, List.mem_cons_self, hold⟩
        · exact .inl hnew
      · exact .inr ⟨entry, List.mem_cons_of_mem _ hrest, hc⟩
    · rcases List.mem_cons.mp hentry with rfl | hrest
      · exact .inr ⟨first, List.mem_cons_self, hc⟩
      · rcases ih hrest c hc with hnew | ⟨old, hold, hc⟩
        · exact .inl hnew
        · exact .inr ⟨old, List.mem_cons_of_mem _ hold, hc⟩

/-- An accessor is a row of the table. -/
theorem accessorOf?_row {t : MemberTable} {row : String × Member} {name : String} {m : AccessorMethod}
    (h : t.accessorOf? row = some (name, m)) : row = (m.name, .methods m.set) := by
  unfold accessorOf? at h
  split at h
  · next found hfound =>
    obtain ⟨⟨kind', rest⟩, -, h⟩ := Option.bind_eq_some_iff.mp h
    obtain ⟨property, -, h⟩ := Option.bind_eq_some_iff.mp h
    dsimp only at h
    split at h
    · cases h
    · cases h
      exact Prod.ext rfl hfound
  · cases h

/-- The accessors of a property are methods of the table. -/
theorem meets_accessors {t : MemberTable} (ht : t.Meets R) :
    ∀ entry ∈ t.accessors, ∀ c ∈ entry.2.accessors, R.callable c := by
  refine List.foldlRecOn (motive := fun groups : List (String × AccessorGroup) =>
    ∀ entry ∈ groups, ∀ c ∈ entry.2.accessors, R.callable c) _ _ (List.forall_mem_nil _) ?_
  intro groups hgroups x hx entry hentry c hc
  obtain ⟨row, hrow, hx⟩ := List.mem_filterMap.mp hx
  have hset : x.2.set.Meets R := by
    have hmember := ht row hrow
    rwa [accessorOf?_row hx] at hmember
  rcases mem_collectAccessor hentry c hc with hnew | ⟨old, hold, hc⟩
  · exact hset c hnew
  · exact hgroups old hold c hc

/-- The properties of a table come from its methods, so they obey the rule of the table. -/
theorem meets_withProperties {t : MemberTable} (ht : t.Meets R) : t.withProperties.Meets R := by
  have hproperties : ∀ p ∈ t.properties, p.Meets R := by
    intro p hp
    obtain ⟨entry, hentry, hp⟩ := List.mem_filterMap.mp hp
    exact AccessorGroup.meets_toProperty? (meets_accessors ht entry hentry) hp
  refine List.foldlRecOn (motive := fun t : MemberTable => t.Meets R) _ _ ht fun t ht p hp => ?_
  exact meets_insert (m := .property p) ht (hproperties p hp) p.name

/-- **A table is made of the methods and fields that it is built from.** -/
theorem meets_build {methods : List Callable} (hmethods : ∀ c ∈ methods, R.callable c) {fields : TypeTable.NamedFields}
    (hfields : ∀ f ∈ fields, f.2.Meets R) : (build methods fields).Meets R := by
  refine meets_withProperties ?_
  refine List.foldlRecOn (motive := fun t : MemberTable => t.Meets R) _ _ (meets_ofMethods hmethods) ?_
  intro t ht f hf
  exact meets_addField ht (hfields f hf)

end MemberTable

/-- The overloads of a name are among the members. -/
theorem TypeMembers.Meets.overloads? {m : Membership} (h : m.entry.Meets R) {name : String} {isStatic : Bool}
    {o : Overloads} (ho : m.overloads? name isStatic = some o) : o.set.Meets R := by
  obtain ⟨⟨inStatics, member⟩, hfind, ho⟩ := Option.bind_eq_some_iff.mp ho
  obtain ⟨set, hset, rfl⟩ := Option.map_eq_some_iff.mp ho
  have hstatics : (m.entry.statics.find? name).map (true, ·) = some (inStatics, member) → set.Meets R := by
    intro hfind
    obtain ⟨found, hfound, heq⟩ := Option.map_eq_some_iff.mp hfind
    cases heq
    exact h.statics.overloads? hfound hset
  unfold TypeMembers.find? at hfind
  split at hfind
  · exact hstatics hfind
  · split at hfind
    · next found hfound =>
      cases hfind
      exact h.instances.overloads? hfound hset
    · exact hstatics hfind

/-! ## Collecting -/

namespace TypeTable

variable {t : TypeTable} {b : Bindings} {allowed : Stop → Prop}

/-- What the declarations of a host are made into with some bindings meets a requirement, and collecting may stop as
allowed. -/
structure Makes (t : TypeTable) (b : Bindings) (allowed : Stop → Prop) (R : Requirement) : Prop where
  failed : ∀ failure, allowed (.failed failure)
  method : ∀ id d, t.find? id = some d → ∀ m ∈ d.methods,
    Yields allowed (Callable.ofMethod? b m) fun made => ∀ c ∈ made.toList, R.callable c
  field : ∀ id d, t.find? id = some d → ∀ f ∈ d.fields,
    Yields allowed (MemberField.ofField? b f) fun made => ∀ accessor ∈ made.toList, accessor.Meets R
  constructor : ∀ id d, t.find? id = some d → ∀ c ∈ d.constructors, ∀ typeName,
    Yields allowed (Callable.ofConstructor? b typeName c) fun made => ∀ c ∈ made.toList, R.callable c

/-- What is declared by a type is declared in the table, and the host may refuse. -/
theorem declaredBy_yields (hfailed : ∀ failure, allowed (.failed failure)) (t : TypeTable) (root id : TypeId) :
    Yields allowed (t.declaredBy root id) fun decl => ∀ d ∈ decl, t.find? id = some d := by
  unfold declaredBy describe
  cases hfind : t.find? id with
  | none =>
    dsimp only
    split
    · exact hfailed _
    · simp [Yields]
  | some d =>
    dsimp only
    cases d.denied with
    | true => exact hfailed _
    | false =>
      rintro _ ⟨⟩
      rfl

/-- The methods that are kept are made of declared ones. -/
theorem scanMethods_meets (h : t.Makes b allowed R) (flag : Bool) (root : TypeId) (closure : List TypeId) :
    Yields allowed (t.scanMethods b flag root closure) fun scan => ∀ c ∈ scan.kept, R.callable c := by
  refine Yields.foldlM (fun id _ scan hscan => ?_) (List.forall_mem_nil _)
  refine (declaredBy_yields h.failed t root id).bind fun decl hdecl => ?_
  refine Yields.foldlM (fun m hm scan hscan => ?_) hscan
  cases decl with
  | none => cases hm
  | some d =>
    unfold MethodScan.add
    split
    · exact hscan
    · refine (h.method id d (hdecl d rfl) m hm).bind fun made hmade => ?_
      exact List.forall_mem_append.mpr ⟨hscan, hmade⟩

/-- A field comes in where there is none of its name, or in the place of one declared on a strict supertype. -/
theorem mem_addField {f : MemberField} : ∀ {slots : NamedFields} {slot : String × MemberField},
    slot ∈ t.addField slots f → slot ∈ slots ∨ (slot = (f.name, f) ∧ ((∀ old ∈ slots, old.1 ≠ f.name) ∨
      ∃ old ∈ slots, old.1 = f.name ∧ old.2.declaring ≠ f.declaring ∧
        t.isSubtype f.declaring old.2.declaring = true)) := by
  intro slots
  induction slots with
  | nil =>
    intro slot hslot
    exact .inr ⟨List.mem_singleton.mp hslot, .inl (List.forall_mem_nil _)⟩
  | cons first rest ih =>
    intro slot hslot
    rw [addField] at hslot
    split at hslot
    · next hname =>
      split at hslot
      · next hover =>
        rcases List.mem_cons.mp hslot with rfl | hrest
        · exact .inr ⟨by rw [hname], .inr ⟨first, List.mem_cons_self, hname, hover.1, hover.2⟩⟩
        · exact .inl (List.mem_cons_of_mem _ hrest)
      · exact .inl hslot
    · next hname =>
      rcases List.mem_cons.mp hslot with rfl | hrest
      · exact .inl List.mem_cons_self
      · rcases ih hrest with hold | ⟨heq, hnone | ⟨old, hold, hover⟩⟩
        · exact .inl (List.mem_cons_of_mem _ hold)
        · exact .inr ⟨heq, .inl (List.forall_mem_cons.mpr ⟨hname, hnone⟩)⟩
        · exact .inr ⟨heq, .inr ⟨old, List.mem_cons_of_mem _ hold, hover⟩⟩

/-- A field that is added obeys the rule as the others do. -/
theorem meets_addField {slots : NamedFields} (hslots : ∀ slot ∈ slots, slot.2.Meets R) {f : MemberField}
    (hf : f.Meets R) : ∀ slot ∈ t.addField slots f, slot.2.Meets R := by
  intro slot hslot
  rcases mem_addField hslot with hold | ⟨rfl, -⟩
  · exact hslots slot hold
  · exact hf

/-- The fields that are found are made of declared ones. -/
theorem scanFields_meets (h : t.Makes b allowed R) (flag : Bool) (root : TypeId) (closure : List TypeId) :
    Yields allowed (t.scanFields b flag root closure) fun scan =>
      (∀ slot ∈ scan.instances, slot.2.Meets R) ∧ ∀ slot ∈ scan.statics, slot.2.Meets R := by
  refine Yields.foldlM (fun id _ scan hscan => ?_) ⟨List.forall_mem_nil _, List.forall_mem_nil _⟩
  refine (declaredBy_yields h.failed t root id).bind fun decl hdecl => ?_
  refine Yields.foldlM (fun f hf scan hscan => ?_) hscan
  cases decl with
  | none => cases hf
  | some d =>
    unfold FieldScan.add
    split
    · exact hscan
    · refine (h.field id d (hdecl d rfl) f hf).bind fun made hmade => ?_
      cases made with
      | none => exact hscan
      | some accessor =>
        have haccessor : accessor.Meets R := hmade accessor (List.mem_singleton_self _)
        dsimp only
        split
        · exact ⟨hscan.1, meets_addField hscan.2 haccessor⟩
        · exact ⟨meets_addField hscan.1 haccessor, hscan.2⟩

theorem scanConstructors_meets (h : t.Makes b allowed R) (flag : Bool) (root : TypeId) (decl : TypeDecl) :
    Yields allowed (t.scanConstructors b flag root decl) fun found => ∀ set, found = some set → set.Meets R := by
  unfold scanConstructors
  split
  · exact fun _ => nofun
  · refine (declaredBy_yields h.failed t root root).bind fun declared hdeclared => ?_
    have hmade : ∀ c ∈ ((declared.map (·.constructors)).getD []).filter (·.flags.isVisible flag),
        Yields allowed (Callable.ofConstructor? b decl.name c) fun made => ∀ c ∈ made.toList, R.callable c := by
      intro c hc
      have hmem := (List.mem_filter.mp hc).1
      cases declared with
      | none => cases hmem
      | some d => exact h.constructor root d (hdeclared d rfl) c hmem decl.name
    refine (Yields.mapM hmade).bind fun candidates hcandidates => ?_
    have hfound : ∀ c ∈ candidates.filterMap id, R.callable c := by
      intro c hc
      obtain ⟨made, hmem, heq⟩ := List.mem_filterMap.mp hc
      exact hcandidates made hmem c (Option.mem_toList.mpr heq)
    split
    · exact fun _ => nofun
    · rintro _ ⟨⟩
      exact hfound

/-- **Collected members are made of declarations.** -/
theorem collectMembers_meets (h : t.Makes b allowed R) (id : TypeId) (flag : Bool) :
    Yields allowed (t.collectMembers id b flag) fun entry => entry.Meets R := by
  unfold collectMembers
  split
  · exact h.failed _
  · refine (scanMethods_meets h flag id _).bind fun methods hmethods => ?_
    refine (scanFields_meets h flag id _).bind fun fields hfields => ?_
    refine (scanConstructors_meets h flag id _).bind fun constructors hconstructors => ?_
    have hkept : ∀ (p : Callable → Bool), ∀ c ∈ methods.kept.filter p, R.callable c :=
      fun p c hc => hmethods c (List.mem_filter.mp hc).1
    exact ⟨MemberTable.meets_build (hkept _) hfields.1, MemberTable.meets_build (hkept _) hfields.2, hconstructors⟩

/-- Collecting from the next type up obeys the rule of each single type, and may run out. -/
theorem collectAbove_meets (h : t.Makes b allowed R) (hdiverged : allowed .diverged) (flag : Bool) (refused : String) :
    ∀ (n : Nat) (next : Option TypeId),
      Yields allowed (t.collectAbove b flag refused n next) fun entry => entry.Meets R
  | 0, _ => hdiverged
  | _ + 1, none => h.failed _
  | n + 1, some id => by
    unfold collectAbove
    split
    · exact collectAbove_meets h hdiverged flag refused n (t.nextAfterRefusal id)
    · exact collectMembers_meets h id flag

/-- Whether or not a type is refused, what is collected obeys the rule. -/
theorem collectOrAbove_meets (h : t.Makes b allowed R) (hdiverged : allowed .diverged) (flag : Bool)
    (declared : Option TypeId) (id : TypeId) :
    Yields allowed (t.collectOrAbove b flag declared id) fun entry => entry.Meets R := by
  unfold collectOrAbove
  split
  · exact collectAbove_meets h hdiverged flag _ _ _
  · exact collectMembers_meets h id flag

end TypeTable

end Interop
