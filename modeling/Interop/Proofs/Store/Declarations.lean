import Interop.Proofs.Member.Constants
import Interop.Proofs.Store.Discipline
import Interop.Store.Declare

/-!
# What declaring a type leaves behind

Declaring a type adds objects and cells, and puts one type into the table. The type lists fields of its own, and each
constant of an enum is an object in the cell of a static final field of its name. No other change of a store touches
constants, classes and adapters, or the cells of final fields.

* **`Store.declare_spec`**: what a declaration does.
* **`Store.Step.native_eq`**, **`Step.cell_eq`**, **`Step.proxy_cases`**, **`Step.adapter_cases`**: what a change
  leaves.
-/

namespace Interop

-- ids are compared as they stand; unfolding one means computing a digest
attribute [local irreducible] TypeId.ofName

/-- A type that is declared is found by its own id, in the place of whatever was there. -/
theorem TypeTable.find?_insert (t : TypeTable) (d : TypeDecl) (id : TypeId) :
    (t.insert d).find? id = if id = d.id then some d else t.find? id :=
  lookup_of_insertion (insertEntry d) rfl (fun _ _ => rfl) t.entries id

/-- A type that is denied is found as before, but for the mark. -/
theorem TypeTable.find?_deny (t : TypeTable) (denied id : TypeId) :
    (t.deny denied).find? id = (t.find? id).map fun d => if id = denied then { d with denied := true } else d := by
  obtain ⟨entries⟩ := t
  simp only [find?, deny]
  induction entries with
  | nil => rfl
  | cons entry rest ih =>
    rw [List.map_cons, lookup_cons_ite, lookup_cons_ite]
    dsimp only
    split
    · next heq =>
      rw [heq]
      rfl
    · exact ih

/-- Objects whose content never changes. -/
def NativeObject.isFixed : NativeObject → Bool
  | constant _ _ _ => true
  | classRef _ => true
  | handle _ => true
  | adapter _ _ _ _ => true
  | _ => false

/-- Only lists, maps, arrays and records are changed, and those are the objects that change at all. -/
theorem NativeObject.Updates.not_isFixed {o o' : NativeObject} (h : o.Updates o') : o.isFixed = false := by
  cases h <;> rfl

namespace Store

/-! ## Growing -/

/-- Objects and cells are added. -/
structure Grows (s s' : Store) : Prop where
  natives : ∃ added, s'.natives = s.natives ++ added
  cells : ∃ added, s'.cells = s.cells ++ added
  types : s'.types = s.types
  objects : s'.objects = s.objects
  memberCache : s'.memberCache = s.memberCache
  adapters : s'.adapters = s.adapters

theorem Grows.refl (s : Store) : s.Grows s := ⟨⟨#[], by simp⟩, ⟨#[], by simp⟩, rfl, rfl, rfl, rfl⟩

/-- Growth on growth is growth. -/
theorem Grows.trans {s₁ s₂ s₃ : Store} (h : s₁.Grows s₂) (h' : s₂.Grows s₃) : s₁.Grows s₃ := by
  obtain ⟨natives, hnatives⟩ := h.natives
  obtain ⟨natives', hnatives'⟩ := h'.natives
  obtain ⟨cells, hcells⟩ := h.cells
  obtain ⟨cells', hcells'⟩ := h'.cells
  refine ⟨⟨natives ++ natives', ?_⟩, ⟨cells ++ cells', ?_⟩, h'.types.trans h.types, h'.objects.trans h.objects,
    h'.memberCache.trans h.memberCache, h'.adapters.trans h.adapters⟩
  · rw [hnatives', hnatives, Array.append_assoc]
  · rw [hcells', hcells, Array.append_assoc]

/-- A fixed object has been handed out. -/
theorem lt_size_of_isFixed {s : Store} {r : NativeRef} (hr : (s.native r).isFixed = true) :
    r.index < s.natives.size := by
  by_contra hle
  rw [native, Array.getD_eq_getD_getElem?, Array.getElem?_eq_none (Nat.le_of_not_lt hle)] at hr
  cases hr

/-- An object that never changes stays what it is while a store grows. -/
theorem Grows.native_eq {s s' : Store} (h : s.Grows s') {r : NativeRef} (hr : (s.native r).isFixed = true) :
    s'.native r = s.native r := by
  obtain ⟨added, hadded⟩ := h.natives
  have hlt := lt_size_of_isFixed hr
  simp only [native, hadded, Array.getD_eq_getD_getElem?, Array.getElem?_append_left hlt]

/-- A cell that holds something is one of the cells. -/
theorem lt_size_of_cell {s : Store} {r : CellRef} {v : Native} (hr : s.cell r = v) (hv : v ≠ .null) :
    r.index < s.cells.size := by
  by_contra hle
  rw [cell, Array.getD_eq_getD_getElem?, Array.getElem?_eq_none (Nat.le_of_not_lt hle)] at hr
  exact hv hr.symm

/-- A cell that holds something keeps it while the store grows. -/
theorem Grows.cell_eq {s s' : Store} (h : s.Grows s') {r : CellRef} (hr : s.cell r ≠ .null) :
    s'.cell r = s.cell r := by
  obtain ⟨added, hadded⟩ := h.cells
  have hlt := lt_size_of_cell rfl hr
  simp only [cell, hadded, Array.getD_eq_getD_getElem?, Array.getElem?_append_left hlt]

theorem grows_addNative (s : Store) (o : NativeObject) : s.Grows (s.addNative o).2 :=
  ⟨⟨#[o], rfl⟩, ⟨#[], by simp [addNative]⟩, rfl, rfl, rfl, rfl⟩

theorem grows_addCell (s : Store) (v : Native) : s.Grows (s.addCell v).2 :=
  ⟨⟨#[], by simp [addCell]⟩, ⟨#[v], rfl⟩, rfl, rfl, rfl, rfl⟩

/-! ## Constants -/

/-- A value is a constant of an enum. -/
def IsConstant (s : Store) (enumName : String) (v : Native) : Prop :=
  ∃ n ordinal name, v = .object n ∧ s.native n = .constant enumName ordinal name

/-- A constant stays one where objects that never change are the same. -/
theorem IsConstant.mono {s s' : Store} {enumName : String} {v : Native} (hv : s.IsConstant enumName v)
    (h : ∀ r, (s.native r).isFixed = true → s'.native r = s.native r) : s'.IsConstant enumName v := by
  obtain ⟨n, ordinal, name, rfl, hn⟩ := hv
  refine ⟨n, ordinal, name, rfl, ?_⟩
  rw [h n (by rw [hn]; rfl), hn]

/-- The field of an enum constant as it is declared: static, final, and holding the constant. -/
structure IsConstantField (s : Store) (enumName : String) (f : FieldSpec) : Prop where
  flags : f.flags = { isStatic := true, isFinal := true }
  accessible : f.accessible = true
  broken : f.broken = false
  initial : ∃ v, f.initial = some v ∧ s.IsConstant enumName v

/-- The fields of constants have the names of the constants, in order, and hold them. -/
theorem constantFields_spec (enumName : String) (type : Descriptor) : ∀ (names : List String) (s : Store)
    (ordinal : Nat), s.Grows (s.constantFields enumName type ordinal names).2 ∧
      (s.constantFields enumName type ordinal names).1.map (·.name) = names ∧
      ∀ f ∈ (s.constantFields enumName type ordinal names).1,
        (s.constantFields enumName type ordinal names).2.IsConstantField enumName f
  | [], s, _ => ⟨Grows.refl s, rfl, List.forall_mem_nil _⟩
  | name :: rest, s, ordinal => by
    -- the constant comes first; what it is survives the constants and cells that come after it
    have hadd := s.grows_addNative (.constant enumName ordinal name)
    obtain ⟨hgrows, hnames, hfields⟩ := constantFields_spec enumName type rest
      (s.addNative (.constant enumName ordinal name)).2 (ordinal + 1)
    refine ⟨hadd.trans hgrows, congrArg (name :: ·) hnames, List.forall_mem_cons.mpr ⟨?_, hfields⟩⟩
    refine ⟨rfl, rfl, rfl, _, rfl, IsConstant.mono ?_ fun r => hgrows.native_eq⟩
    exact ⟨_, ordinal, name, rfl, s.native_addNative _⟩

/-- A declared field against what was asked for: a static field that works has a cell with the initial value. -/
structure DeclaredAs (s : Store) (declaring : TypeId) (spec : FieldSpec) (f : FieldDecl) : Prop where
  name : f.name = spec.name
  declaring : f.declaring = declaring
  flags : f.flags = spec.flags.ofMember
  storage : spec.accessible = true → spec.broken = false → f.flags.isStatic = true → ∀ v, spec.initial = some v →
    v ≠ .null → ∃ r, f.storage = some (.cell r) ∧ s.cell r = v

/-- What was declared stays declared while the store grows. -/
theorem DeclaredAs.mono {s s' : Store} {declaring : TypeId} {spec : FieldSpec} {f : FieldDecl}
    (hf : s.DeclaredAs declaring spec f) (h : s.Grows s') : s'.DeclaredAs declaring spec f := by
  refine ⟨hf.name, hf.declaring, hf.flags, fun haccessible hbroken hstatic v hv hne => ?_⟩
  obtain ⟨r, hr, hcell⟩ := hf.storage haccessible hbroken hstatic v hv hne
  refine ⟨r, hr, ?_⟩
  rw [h.cell_eq (by rwa [hcell]), hcell]

/-- A field is declared as its specification says. -/
theorem declareField_spec (s : Store) (declaring : TypeId) (spec : FieldSpec) :
    s.Grows (s.declareField declaring spec).2 ∧
      (s.declareField declaring spec).2.DeclaredAs declaring spec (s.declareField declaring spec).1 := by
  unfold declareField
  dsimp only
  -- a field without a handle has no storage, a broken one refuses, a static one has a cell, and others have a slot
  split
  · next hinaccessible =>
    refine ⟨Grows.refl s, rfl, rfl, rfl, fun haccessible => ?_⟩
    rw [haccessible] at hinaccessible
    cases hinaccessible
  · split
    · next hbroken =>
      refine ⟨Grows.refl s, rfl, rfl, rfl, fun _ hworks => ?_⟩
      rw [hbroken] at hworks
      cases hworks
    · split
      · refine ⟨s.grows_addCell _, rfl, rfl, rfl, fun _ _ _ v hv _ => ⟨_, rfl, ?_⟩⟩
        simp [addCell, cell, hv]
      · next hstatic =>
        exact ⟨Grows.refl s, rfl, rfl, rfl, fun _ _ hisStatic => absurd hisStatic hstatic⟩

/-- So are all fields of a type, in order. -/
theorem declareFields_spec (declaring : TypeId) : ∀ (specs : List FieldSpec) (s : Store),
    s.Grows (s.declareFields declaring specs).2 ∧
      (s.declareFields declaring specs).1.map (·.name) = specs.map (·.name) ∧
      ∀ f ∈ (s.declareFields declaring specs).1, ∃ spec ∈ specs,
        (s.declareFields declaring specs).2.DeclaredAs declaring spec f
  | [], s => ⟨Grows.refl s, rfl, List.forall_mem_nil _⟩
  -- what the first field was declared as survives the declaration of the others
  | spec :: rest, s => by
    obtain ⟨hgrows, hspec⟩ := s.declareField_spec declaring spec
    obtain ⟨hgrows', hnames, hfields⟩ := declareFields_spec declaring rest (s.declareField declaring spec).2
    refine ⟨hgrows.trans hgrows', ?_, List.forall_mem_cons.mpr ⟨⟨spec, List.mem_cons_self, hspec.mono hgrows'⟩, ?_⟩⟩
    · rw [declareFields, List.map_cons, List.map_cons, hnames, hspec.name]
    · intro f hf
      obtain ⟨spec', hspec', hf⟩ := hfields f hf
      exact ⟨spec', List.mem_cons_of_mem _ hspec', hf⟩

/-- Every constant of a type is in the cells of its static final fields of that name. -/
def HoldsConstants (s : Store) (d : TypeDecl) : Prop :=
  ∀ name ∈ d.constants, TypeTable.OwnsStatic d name ∧ ∀ f ∈ d.fields, f.name = name →
    f.flags.isFinal = true ∧ ∃ r, f.storage = some (.cell r) ∧ s.IsConstant d.name (s.cell r)

/-- A type holds its constants as long as neither they nor the cells of its final fields change. -/
theorem HoldsConstants.mono {s s' : Store} {d : TypeDecl} (hd : s.HoldsConstants d)
    (hnative : ∀ r, (s.native r).isFixed = true → s'.native r = s.native r)
    (hcell : ∀ f ∈ d.fields, f.flags.isFinal = true → ∀ r, f.storage = some (.cell r) → s.cell r ≠ .null →
      s'.cell r = s.cell r) : s'.HoldsConstants d := by
  intro name hname
  obtain ⟨howns, hfields⟩ := hd name hname
  refine ⟨howns, fun f hf heq => ?_⟩
  obtain ⟨hfinal, r, hr, hconstant⟩ := hfields f hf heq
  refine ⟨hfinal, r, hr, ?_⟩
  -- a cell with a constant is not empty, and only empty cells may be written again
  have hne : s.cell r ≠ .null := by
    obtain ⟨n, ordinal, constant, heq, -⟩ := hconstant
    rw [heq]
    exact nofun
  rw [hcell f hf hfinal r hr hne]
  exact hconstant.mono hnative

/-- Fields of constants, and others of other names, hold the constants. -/
theorem holdsConstants_of_declared {s : Store} {d : TypeDecl} {id : TypeId} {others constants : List FieldSpec}
    (hnames : d.fields.map (·.name) = (others ++ constants).map (·.name))
    (hfields : ∀ f ∈ d.fields, ∃ spec ∈ others ++ constants, s.DeclaredAs id spec f)
    (hconstants : constants.map (·.name) = d.constants) (hspecs : ∀ spec ∈ constants, s.IsConstantField d.name spec)
    (hothers : ∀ spec ∈ others, spec.name ∉ d.constants) : s.HoldsConstants d := by
  intro name hname
  -- a field of the name of a constant is that of the constant, since the others have other names
  have hfield : ∀ f ∈ d.fields, f.name = name → ∃ spec, s.IsConstantField d.name spec ∧ s.DeclaredAs id spec f := by
    intro f hf heq
    obtain ⟨spec, hspec, hdeclared⟩ := hfields f hf
    rcases List.mem_append.mp hspec with hspec | hspec
    · refine absurd hname ?_
      rw [← heq, hdeclared.name]
      exact hothers spec hspec
    · exact ⟨spec, hspecs spec hspec, hdeclared⟩
  have hflags : ∀ f ∈ d.fields, f.name = name → f.flags = { isPublic := true, isStatic := true, isFinal := true } := by
    intro f hf heq
    obtain ⟨spec, hspec, hdeclared⟩ := hfield f hf heq
    rw [hdeclared.flags, hspec.flags]
    rfl
  have hstored : ∀ f ∈ d.fields, f.name = name →
      ∃ r, f.storage = some (.cell r) ∧ s.IsConstant d.name (s.cell r) := by
    intro f hf heq
    obtain ⟨spec, hspec, hdeclared⟩ := hfield f hf heq
    obtain ⟨v, hv, hconstant⟩ := hspec.initial
    have hne : v ≠ .null := by
      obtain ⟨n, ordinal, constant, rfl, -⟩ := hconstant
      exact nofun
    have hstatic : f.flags.isStatic = true := by rw [hflags f hf heq]
    obtain ⟨r, hr, hcell⟩ := hdeclared.storage hspec.accessible hspec.broken hstatic v hv hne
    exact ⟨r, hr, hcell ▸ hconstant⟩
  -- and there is one, since the names of the constants are among those of the fields
  have hdeclared : ∃ f ∈ d.fields, f.name = name := by
    have hmem : name ∈ d.fields.map (·.name) := by
      rw [hnames, List.map_append, hconstants]
      exact List.mem_append_right _ hname
    exact List.mem_map.mp hmem
  refine ⟨⟨hdeclared, fun f hf heq flag => ?_, fun f hf heq => ?_, fun f hf heq => ?_⟩,
    fun f hf heq => ⟨?_, hstored f hf heq⟩⟩
  · rw [hflags f hf heq]
    rfl
  · rw [hflags f hf heq]
  · obtain ⟨r, hr, -⟩ := hstored f hf heq
    rw [hr]
    exact nofun
  · rw [hflags f hf heq]

/-- **What a declaration does**: the store grows, and one type is put into the table. The type lists fields of its own,
and holds its constants unless it gives one of their names to another field; its methods and constructors are those of
the declaration, and those that every enum has. -/
theorem declare_spec (s : Store) (spec : TypeSpec) : ∃ (grown : Store) (decl : TypeDecl), s.Grows grown ∧
    s.declare spec = { grown with types := grown.types.insert decl } ∧ decl.name = spec.name ∧
      decl.denied = spec.denied ∧ (∀ f ∈ decl.fields, f.declaring = .ofName spec.name) ∧
        ((spec.kind = .ofEnum → ∀ f ∈ spec.fields, f.name ∉ spec.constants) → grown.HoldsConstants decl) ∧
          decl.methods = spec.methods.map (·.declare (.ofName spec.name)) ++
            (if spec.kind == .ofEnum then enumMethods spec.name else []) ∧
          decl.constructors = spec.constructors.map (·.declare (.ofName spec.name)) := by
  -- constants come first, then the fields, so what is known of constants is carried past the fields
  refine ⟨_, _, (constantFields_spec _ _ _ s 0).1.trans (declareFields_spec _ _ _).1, rfl, rfl, rfl, ?_, ?_, rfl, rfl⟩
  · intro f hf
    obtain ⟨field, -, hdeclared⟩ := (declareFields_spec _ _ _).2.2 f hf
    exact hdeclared.declaring
  · intro hclash
    obtain ⟨hgrows, hnames, hfields⟩ := declareFields_spec (.ofName spec.name) (spec.fields ++ _) _
    refine holdsConstants_of_declared hnames hfields (constantFields_spec _ _ _ s 0).2.1 ?_ ?_
    · intro field hfield
      obtain ⟨hflags, haccessible, hbroken, v, hv, hconstant⟩ := (constantFields_spec _ _ _ s 0).2.2 field hfield
      exact ⟨hflags, haccessible, hbroken, v, hv, hconstant.mono fun r => hgrows.native_eq⟩
    · intro field hfield
      dsimp only
      split
      · next hkind => exact hclash (by simpa using hkind) field hfield
      · exact List.not_mem_nil

/-! ## What a change leaves -/

/-- Of two objects of one number, one in the longer array and one in the shorter, the first is the second or the new
one. -/
theorem object_push (objects : Array ScriptObject) (o : ScriptObject) (r : ObjectRef) :
    (objects.push o).getD r.index (.plain []) = objects.getD r.index (.plain []) ∨
      (objects.push o).getD r.index (.plain []) = o := by
  simp only [Array.getD_eq_getD_getElem?, Array.getElem?_push]
  split
  · exact .inr rfl
  · exact .inl rfl

namespace Step

variable {s s' : Store}

/-- A step changes no object that never changes. -/
theorem native_eq (h : s.Step s') {r : NativeRef} (hr : (s.native r).isFixed = true) :
    s'.native r = s.native r := by
  -- only writing to an object could change it, and the objects that are written to are not fixed
  cases h with
  | addNative o => exact (s.grows_addNative o).native_eq hr
  | @setNative changed o hupdates =>
    have hne : changed.index ≠ r.index := by
      intro heq
      have hsame : changed = r := congrArg NativeRef.mk heq
      rw [hsame] at hupdates
      rw [hupdates.not_isFixed] at hr
      cases hr
    simp only [native, Store.setNative, Array.getD_eq_getD_getElem?, Array.getElem?_setIfInBounds_ne hne]
  | releaseAdapters =>
    obtain ⟨adapters, referred, heq, -⟩ := s.releaseAdapters_frame
    rw [heq]
    rfl
  | _ => rfl

/-- A step writes to no cell that is not left open. -/
theorem cell_eq (h : s.Step s') {r : CellRef} (hr : ¬ s.types.LeavesOpen r) : s'.cell r = s.cell r := by
  -- only writing to a cell changes one, and it was open
  cases h with
  | @setCell changed hopen v =>
    have hne : changed.index ≠ r.index := by
      intro heq
      have hsame : changed = r := congrArg CellRef.mk heq
      exact hr (hsame ▸ hopen)
    simp only [cell, Store.setCell, Array.getD_eq_getD_getElem?, Array.getElem?_setIfInBounds_ne hne]
  | releaseAdapters =>
    obtain ⟨adapters, referred, heq, -⟩ := s.releaseAdapters_frame
    rw [heq]
    rfl
  | _ => rfl

/-- A proxy was there before, with the same kind and value, or was made for its value. -/
theorem proxy_cases (h : s.Step s') {r : ObjectRef} {p : Proxy} (hp : s'.object r = .proxy p) :
    (∃ before, s.object r = .proxy before ∧ p.kind = before.kind ∧ p.value = before.value) ∨
      p.kind = s.proxyKind p.value := by
  -- proxies are made, note their members, or stay; other objects are never turned into proxies
  cases h with
  | addProxy v type =>
    rcases object_push s.objects (.proxy ⟨s.proxyKind v, v, type, none⟩) r with heq | heq
    · exact .inl ⟨p, heq.symm.trans hp, rfl, rfl⟩
    · cases heq.symm.trans hp
      exact .inr rfl
  | @setMembers changed before hbefore m =>
    rcases object_set s changed r (.proxy { before with members := some m }) with heq | ⟨rfl, heq⟩
    · exact .inl ⟨p, heq.symm.trans hp, rfl, rfl⟩
    · cases heq.symm.trans hp
      exact .inl ⟨before, hbefore, rfl, rfl⟩
  | @addObject o ho =>
    rcases object_push s.objects o r with heq | heq
    · exact .inl ⟨p, heq.symm.trans hp, rfl, rfl⟩
    · cases heq.symm.trans hp
      cases ho
  | @setObject changed o hchanged ho =>
    rcases object_set s changed r o with heq | ⟨-, heq⟩
    · exact .inl ⟨p, heq.symm.trans hp, rfl, rfl⟩
    · cases heq.symm.trans hp
      cases ho
  | releaseAdapters =>
    obtain ⟨adapters, referred, heq, -⟩ := s.releaseAdapters_frame
    rw [heq] at hp
    exact .inl ⟨p, hp, rfl, rfl⟩
  | _ => exact .inl ⟨p, hp, rfl, rfl⟩

/-- An adapter was kept before, or is one whose members are in the cache. -/
theorem adapter_cases (h : s.Step s') {kept : AdapterKey × NativeRef} (hkept : kept ∈ s'.adapters) :
    kept ∈ s.adapters ∨ ∃ target interface m key flag, s.native kept.2 = .adapter target interface m key ∧
      s.memberCache.find? kept.1.2 flag = some m := by
  cases h with
  | @keepAdapter r target interface m id flag key hr hm identity =>
    rcases mem_putEntry hkept with hold | rfl
    · exact .inl hold
    · exact .inr ⟨target, interface, m, key, flag, hr, hm⟩
  | releaseAdapters =>
    obtain ⟨adapters, referred, heq, hfewer⟩ := s.releaseAdapters_frame
    rw [heq] at hkept
    exact .inl (hfewer.subset hkept)
  | _ => exact .inl hkept

end Step

end Store

end Interop
