import Interop.Proofs.Store.Declarations

/-!
# Bridges

A bridge is a store over the standard types in which a host has declared types of its own, in any order with
conversions, calls and everything else that changes a store. `Store.Bridge` says how a bridge comes about;
`Store.Regular` is what holds in every bridge.

* **`Store.Regular`**: types are under their ids and standard types as they were, enums hold their constants, entries
  present their types, adapters have the members of their interface, and class proxies wrap classes.
* **`Store.Regular.step`**, **`Regular.lookedUp`**, **`Regular.declare`**: what keeps it.
* **`Store.Bridge.regular`**: every bridge is regular.
-/

namespace Interop

/-! ## The standard types -/

namespace StandardType

theorem find?_object : table.find? Standard.object = some object := rfl

theorem find?_string : table.find? Standard.string = some string := rfl

theorem find?_list : table.find? Standard.list = some list := rfl

/-- What every entry of the table has is had by every type that is found in it. -/
theorem forall_of_entries {p : TypeId → TypeDecl → Bool} (h : (table.entries.all fun entry => p entry.1 entry.2) = true)
    {id : TypeId} {d : TypeDecl} (hd : table.find? id = some d) : p id d = true :=
  List.all_eq_true.mp h (id, d) (TypeTable.mem_entries_of_find? hd)

theorem acyclic_table : table.Acyclic := TypeTable.acyclic_of_entries (by decide +kernel) (by decide +kernel)

end StandardType

-- ids are compared as they stand; unfolding one means computing a digest
attribute [local irreducible] TypeId.ofName

/-! ## How bridges come about -/

/-- A type that leaves the standard and primitive types alone, lists its members, and gives no field the name of one of
its constants. Types are told apart by their ids. -/
structure TypeSpec.Registrable (spec : TypeSpec) : Prop where
  standard : StandardType.table.find? (.ofName spec.name) = none
  primitive : (TypeId.ofName spec.name).isPrimitive = false
  listed : spec.denied = false
  constants : spec.kind = .ofEnum → ∀ f ∈ spec.fields, f.name ∉ spec.constants

namespace Store

/-- A store over the standard types and types that a host has declared, none of them denied and none its own
supertype. A type is declared anew only after its members have been forgotten. -/
inductive Bridge : Store → Prop where
  | standard (config : Config) (wrapPrimitives : Bool) : Bridge (.standard config wrapPrimitives)
  | declare {s : Store} (h : Bridge s) {spec : TypeSpec} (hspec : spec.Registrable)
    (hacyclic : (s.declare spec).types.Acyclic)
    (hfresh : ∀ flag, s.memberCache.find? (.ofName spec.name) flag = none) : Bridge (s.declare spec)
  | step {s s' : Store} (h : Bridge s) (hstep : s.Step s') : Bridge s'
  | lookedUp {s : Store} (h : Bridge s) (id : TypeId) (declared : Option TypeId) (flag : Bool) :
    Bridge (s.lookedUp id declared flag)
  | bindingsOf {s : Store} (h : Bridge s) (id : TypeId) :
    Bridge { s with memberCache := (s.memberCache.bindingsOf s.types id).2 }
  | forget {s : Store} (h : Bridge s) (id : TypeId) : Bridge { s with memberCache := s.memberCache.forget id }
  | wrapPrimitives {s : Store} (h : Bridge s) (wrapPrimitives : Bool) :
    Bridge { s with wrapPrimitives := wrapPrimitives }

/-! ## The invariant -/

/-- What holds in a bridge. -/
structure Regular (s : Store) : Prop where
  keyed : ∀ id d, s.types.find? id = some d → d.id = id
  listed : s.types.Listed
  owned : s.types.FieldsOwned
  acyclic : s.types.Acyclic
  standard : ∀ id d, StandardType.table.find? id = some d → s.types.find? id = some d
  primitive : ∀ id d, s.types.find? id = some d → id.isPrimitive = false
  constants : ∀ id d, s.types.find? id = some d → s.HoldsConstants d
  entries : ∀ kept ∈ s.memberCache.entries, s.types.Presents kept.1.1 kept.2.entry
  adapters : ∀ kept ∈ s.adapters, ∃ target interface m key, s.native kept.2 = .adapter target interface m key ∧
    m.entry.typeId = kept.1.2
  proxies : ∀ r p, s.object r = .proxy p → p.kind = .ofClass → ∃ n type, p.value = .object n ∧
    s.native n = .classRef type

/-- A collected entry shows what its type declares. -/
theorem Regular.presents {s : Store} (hs : s.Regular) {id : TypeId} {flag : Bool} {m : Membership}
    (h : s.memberCache.find? id flag = some m) : s.types.Presents id m.entry :=
  hs.entries ((id, flag), m) (mem_of_lookup h)

/-- The cell of a final field is one that nobody writes to. -/
theorem Regular.not_leavesOpen {s : Store} {id : TypeId} {d : TypeDecl} (hd : s.types.find? id = some d)
    {f : FieldDecl} (hf : f ∈ d.fields) (hfinal : f.flags.isFinal = true) {r : CellRef}
    (hr : f.storage = some (.cell r)) : ¬ s.types.LeavesOpen r :=
  fun hopen => hopen id d hd f hf hfinal hr

/-- Adapters, and class proxies, go on to be what they are where fixed objects stay. -/
theorem Regular.adapters_mono {s s' : Store} (hs : s.Regular)
    (hnative : ∀ r, (s.native r).isFixed = true → s'.native r = s.native r)
    {kept : AdapterKey × NativeRef} (hkept : kept ∈ s.adapters) :
    ∃ target interface m key, s'.native kept.2 = .adapter target interface m key ∧ m.entry.typeId = kept.1.2 := by
  obtain ⟨target, interface, m, key, hadapter, hm⟩ := hs.adapters kept hkept
  refine ⟨target, interface, m, key, ?_, hm⟩
  rw [hnative kept.2 (by rw [hadapter]; rfl), hadapter]

/-- Proxies of classes still wrap classes where objects that never change are the same. -/
theorem Regular.proxies_mono {s s' : Store} (hs : s.Regular)
    (hnative : ∀ r, (s.native r).isFixed = true → s'.native r = s.native r) {r : ObjectRef} {p : Proxy}
    (hp : s.object r = .proxy p) (hkind : p.kind = .ofClass) :
    ∃ n type, p.value = .object n ∧ s'.native n = .classRef type := by
  obtain ⟨n, type, hvalue, hclass⟩ := hs.proxies r p hp hkind
  refine ⟨n, type, hvalue, ?_⟩
  rw [hnative n (by rw [hclass]; rfl), hclass]

/-- A value is shown as a class exactly where it is one. -/
theorem exists_classRef_of_proxyKind {s : Store} {v : Native} (h : s.proxyKind v = .ofClass) :
    ∃ n type, v = .object n ∧ s.native n = .classRef type := by
  cases v with
  | object n =>
    rw [proxyKind] at h
    cases hn : s.native n with
    | classRef type => exact ⟨n, type, rfl, hn⟩
    | _ =>
      rw [hn] at h
      cases h
  | _ => cases h

/-- **Changes keep a store regular.** -/
theorem Regular.step {s s' : Store} (hs : s.Regular) (hstep : s.Step s') : s'.Regular := by
  obtain ⟨htypes, hcache⟩ := hstep.types_memberCache_eq
  -- objects that never change are the same after the step, so constants and classes are
  have hnative : ∀ r, (s.native r).isFixed = true → s'.native r = s.native r := fun r => hstep.native_eq
  refine
    { keyed := by rw [htypes]; exact hs.keyed
      listed := by rw [htypes]; exact hs.listed
      owned := by rw [htypes]; exact hs.owned
      acyclic := by rw [htypes]; exact hs.acyclic
      standard := by rw [htypes]; exact hs.standard
      primitive := by rw [htypes]; exact hs.primitive
      constants := ?_
      entries := by rw [hcache, htypes]; exact hs.entries
      adapters := ?_
      proxies := ?_ }
  · intro id d hd
    rw [htypes] at hd
    refine (hs.constants id d hd).mono hnative fun f hf hfinal r hr _ => ?_
    exact hstep.cell_eq (Regular.not_leavesOpen hd hf hfinal hr)
  · intro kept hkept
    rcases hstep.adapter_cases hkept with hold | ⟨target, interface, m, key, flag, hadapter, hm⟩
    · exact hs.adapters_mono hnative hold
    · refine ⟨target, interface, m, key, ?_, (hs.presents hm).typeId⟩
      rw [hnative kept.2 (by rw [hadapter]; rfl), hadapter]
  · -- a proxy of a class was one before, or was just made for a class
    intro r p hp hkind
    rcases hstep.proxy_cases hp with ⟨before, hbefore, hsame, hvalue⟩ | hmade
    · rw [hvalue]
      exact hs.proxies_mono hnative hbefore (hsame.symm.trans hkind)
    · obtain ⟨n, type, hvalue, hclass⟩ := exists_classRef_of_proxyKind (hmade.symm.trans hkind)
      refine ⟨n, type, hvalue, ?_⟩
      rw [hnative n (by rw [hclass]; rfl), hclass]

/-- Only the collected members differ, and they present their types. -/
theorem Regular.cached {s : Store} (hs : s.Regular) {cache : MemberCache}
    (hcache : ∀ kept ∈ cache.entries, s.types.Presents kept.1.1 kept.2.entry) :
    Regular { s with memberCache := cache } :=
  { hs with entries := hcache }

/-- **Look-ups keep a store regular**: what they publish was collected from the type asked for. -/
theorem Regular.lookedUp {s : Store} (hs : s.Regular) (id : TypeId) (declared : Option TypeId) (flag : Bool) :
    (s.lookedUp id declared flag).Regular := by
  refine hs.cached ?_
  have hcollected : ∀ b, Yields Stop.NotRefused (s.types.collectOrAbove b flag declared id) (s.types.Presents id) :=
    fun b => TypeTable.collectOrAbove_presents hs.listed hs.owned hs.acyclic
      (hs.standard _ _ StandardType.find?_object) declared id
  unfold MemberCache.lookup
  split
  · exact hs.entries
  · dsimp only
    split
    · next entry hentry =>
      have hpresents := hcollected (s.types.inheritedBindings s.memberCache.bindings id).1
      rw [hentry] at hpresents
      intro kept hkept
      rcases List.mem_append.mp hkept with hold | hnew
      · exact hs.entries kept hold
      · rw [List.mem_singleton.mp hnew]
        exact hpresents
    · exact hs.entries

/-- To forget what was collected for a type leaves a regular store regular. -/
theorem Regular.forget {s : Store} (hs : s.Regular) (id : TypeId) :
    Regular { s with memberCache := s.memberCache.forget id } :=
  hs.cached fun kept hkept => hs.entries kept (List.mem_filter.mp hkept).1

/-- **Declarations keep a store regular.** Entries that were published before present types other than the new one. -/
theorem Regular.declare {s : Store} (hs : s.Regular) {spec : TypeSpec} (hspec : spec.Registrable)
    (hacyclic : (s.declare spec).types.Acyclic)
    (hfresh : ∀ flag, s.memberCache.find? (.ofName spec.name) flag = none) : (s.declare spec).Regular := by
  obtain ⟨grown, decl, hgrows, heq, hname, hdenied, howned, hconstants, -, -⟩ := s.declare_spec spec
  have hid : decl.id = .ofName spec.name := congrArg TypeId.ofName hname
  -- a type that is found is the new one or an old one
  have hfind : ∀ id d, (s.declare spec).types.find? id = some d →
      (id = decl.id ∧ d = decl) ∨ (id ≠ decl.id ∧ s.types.find? id = some d) := by
    intro id d hd
    rw [heq, TypeTable.find?_insert, hgrows.types] at hd
    split at hd
    · next hsame => exact .inl ⟨hsame, (Option.some.inj hd).symm⟩
    · next hother => exact .inr ⟨hother, hd⟩
  have hnative : ∀ r, (s.native r).isFixed = true → (s.declare spec).native r = s.native r := by
    intro r hr
    rw [heq]
    exact hgrows.native_eq hr
  refine
    { keyed := fun id d hd => ?_
      listed := fun id d hd => ?_
      owned := fun id d hd => ?_
      acyclic := hacyclic
      standard := fun id d hd => ?_
      primitive := fun id d hd => ?_
      constants := fun id d hd => ?_
      entries := fun kept hkept => ?_
      adapters := fun kept hkept => ?_
      proxies := fun r p hp hkind => ?_ }
  · rcases hfind id d hd with ⟨rfl, rfl⟩ | ⟨-, hold⟩
    · rfl
    · exact hs.keyed id d hold
  · rcases hfind id d hd with ⟨rfl, rfl⟩ | ⟨-, hold⟩
    · rw [hdenied, hspec.listed]
    · exact hs.listed id d hold
  · rcases hfind id d hd with ⟨rfl, rfl⟩ | ⟨-, hold⟩
    · rw [hid]
      exact howned
    · exact hs.owned id d hold
  · have hne : id ≠ decl.id := by
      rintro rfl
      rw [hid, hspec.standard] at hd
      cases hd
    rw [heq, TypeTable.find?_insert, if_neg hne, hgrows.types]
    exact hs.standard id d hd
  · rcases hfind id d hd with ⟨rfl, rfl⟩ | ⟨-, hold⟩
    · rw [hid]
      exact hspec.primitive
    · exact hs.primitive id d hold
  · rcases hfind id d hd with ⟨rfl, rfl⟩ | ⟨-, hold⟩
    · rw [heq]
      exact hconstants hspec.constants
    · refine (hs.constants id d hold).mono hnative fun f _ _ r _ hr => ?_
      rw [heq]
      exact hgrows.cell_eq hr
  · -- what is kept was collected before, and for another type, since for the new one nothing is kept yet
    have hold : kept ∈ s.memberCache.entries := by
      rw [heq] at hkept
      exact hgrows.memberCache ▸ hkept
    have hpresents := hs.entries kept hold
    have hne : kept.1.1 ≠ decl.id := by
      intro hsame
      have hnone := List.lookup_eq_none_iff.mp (hfresh kept.1.2) kept hold
      rw [← hid, ← hsame] at hnone
      simp at hnone
    refine ⟨hpresents.typeId, fun d hd => ?_⟩
    rcases hfind _ d hd with ⟨hsame, -⟩ | ⟨-, hd⟩
    · exact absurd hsame hne
    · exact hpresents.shows d hd
  · rw [heq] at hkept
    exact hs.adapters_mono hnative (hgrows.adapters ▸ hkept)
  · have hobject : s.object r = .proxy p := by
      rw [heq] at hp
      rw [← hp, object, object, hgrows.objects]
    exact hs.proxies_mono hnative hobject hkind

/-- The store that a session begins with is regular. -/
theorem regular_standard (config : Config) (wrapPrimitives : Bool) : (standard config wrapPrimitives).Regular where
  keyed id d hd := by
    have hcheck := StandardType.forall_of_entries (p := fun id d => d.id == id) (by decide +kernel) hd
    exact beq_iff_eq.mp hcheck
  listed id d hd := by
    have hcheck := StandardType.forall_of_entries (p := fun _ d => !d.denied) (by decide +kernel) hd
    simpa using hcheck
  owned id d hd f hf := by
    have hcheck := StandardType.forall_of_entries (p := fun _ d => d.fields.isEmpty) (by decide +kernel) hd
    rw [List.isEmpty_iff.mp hcheck] at hf
    cases hf
  acyclic := StandardType.acyclic_table
  standard _ _ hd := hd
  primitive id d hd := by
    have hcheck := StandardType.forall_of_entries (p := fun id _ => !id.isPrimitive) (by decide +kernel) hd
    simpa using hcheck
  constants id d hd name hname := by
    have hcheck := StandardType.forall_of_entries (p := fun _ d => d.constants.isEmpty) (by decide +kernel) hd
    rw [List.isEmpty_iff.mp hcheck] at hname
    cases hname
  entries := List.forall_mem_nil _
  adapters := List.forall_mem_nil _
  proxies r p hp := by
    have hplain : (standard config wrapPrimitives).object r = .plain [] := by simp [object, standard]
    rw [hplain] at hp
    cases hp

/-- **Every bridge is regular.** -/
theorem Bridge.regular {s : Store} (h : s.Bridge) : s.Regular := by
  induction h with
  | standard config wrapPrimitives => exact regular_standard config wrapPrimitives
  | declare _ hspec hacyclic hfresh ih => exact ih.declare hspec hacyclic hfresh
  | step _ hstep ih => exact ih.step hstep
  | lookedUp _ id declared flag ih => exact ih.lookedUp id declared flag
  | bindingsOf _ id ih => exact ih.cached ih.entries
  | forget _ id ih => exact ih.forget id
  | wrapPrimitives _ wrapPrimitives ih =>
    exact ⟨ih.keyed, ih.listed, ih.owned, ih.acyclic, ih.standard, ih.primitive, ih.constants, ih.entries,
      ih.adapters, ih.proxies⟩

end Store

/-- Bridges over a table as a discipline: what follows it leads from bridges to bridges, and declares no types. -/
def Discipline.bridge (t : TypeTable) : Discipline where
  holds s := s.Bridge ∧ s.types = t
  allows _ := True
  step hchange hs := ⟨hs.1.step hchange.step, hchange.step.types_memberCache_eq.1.trans hs.2⟩
  lookedUp id declared flag hs := ⟨hs.1.lookedUp id declared flag, hs.2⟩
  failed _ := trivial
  diverged := trivial
  lookup _ _ := trivial

end Interop
