import Interop.Proofs.Store.Bridge
import Interop.Proofs.Store.Reached

/-!
# Constants in their places

The constants of an enum are declared in order: each is an object with its ordinal and name, in the cell of a static
final field of its name, and these fields come after all others of the type. Nothing that happens to a store later takes
a constant out of its field, or changes it.

* **`Store.constantFields_inOrder`**, **`Store.declareFields_inOrder`**: what is declared, place by place.
* **`Store.InPlace`**: the constants of a type are in its last fields, in order.
* **`Store.Reached.ordered`**: so they are for all types of a reached store.
* **`Store.InPlace.exists_field`**: the field of a constant, the only one of its name if constants have names of their
  own.
-/

namespace Interop

-- ids are compared as they stand; unfolding one means computing a digest
attribute [local irreducible] TypeId.ofName

/-- Constants have names of their own: no two of them have one name, and besides the fields that hold them no field has
the name of one. -/
structure TypeDecl.NamesApart (d : TypeDecl) : Prop where
  nodup : d.constants.Nodup
  count : d.fields.countP (·.name ∈ d.constants) = d.constants.length

/-- Where the names of the constants come after others, none of these others may be the name of a constant. -/
theorem TypeDecl.namesApart_iff {d : TypeDecl} {others : List String}
    (h : d.fields.map (·.name) = others ++ d.constants) :
    d.NamesApart ↔ d.constants.Nodup ∧ ∀ name ∈ others, name ∉ d.constants := by
  have hcount : d.fields.countP (·.name ∈ d.constants) = others.countP (· ∈ d.constants) + d.constants.length := by
    have hown : d.constants.countP (· ∈ d.constants) = d.constants.length :=
      List.countP_eq_length.mpr fun name hname => decide_eq_true hname
    calc d.fields.countP (·.name ∈ d.constants)
        = (d.fields.map (·.name)).countP (· ∈ d.constants) := by rw [List.countP_map]; rfl
      _ = others.countP (· ∈ d.constants) + d.constants.length := by rw [h, List.countP_append, hown]
  have hnone : others.countP (· ∈ d.constants) = 0 ↔ ∀ name ∈ others, name ∉ d.constants := by
    rw [List.countP_eq_zero]
    simp only [decide_eq_true_eq]
  constructor
  · intro hd
    have hsame := hd.count
    exact ⟨hd.nodup, hnone.mp (by omega)⟩
  · rintro ⟨hnodup, hothers⟩
    exact ⟨hnodup, by rw [hcount, hnone.mpr hothers, Nat.zero_add]⟩

namespace Store

variable {s s' : Store} {enumName name : String} {ordinal : Nat}

/-! ## Declaring -/

/-- A field that is asked for to hold a constant. -/
structure MakesConstant (s : Store) (enumName : String) (ordinal : Nat) (name : String) (f : FieldSpec) : Prop where
  named : f.name = name
  flags : f.flags = { isStatic := true, isFinal := true }
  accessible : f.accessible = true
  broken : f.broken = false
  initial : ∃ n, f.initial = some (.object n) ∧ s.native n = .constant enumName ordinal name

/-- A constant that is made stays made while the store grows. -/
theorem MakesConstant.mono {f : FieldSpec} (hf : s.MakesConstant enumName ordinal name f) (h : s.Grows s') :
    s'.MakesConstant enumName ordinal name f := by
  obtain ⟨n, hinitial, hn⟩ := hf.initial
  refine ⟨hf.named, hf.flags, hf.accessible, hf.broken, n, hinitial, ?_⟩
  rw [h.native_eq (by rw [hn]; rfl), hn]

/-- The fields of constants are asked for in the order of the constants. -/
theorem constantFields_inOrder (enumName : String) (type : Descriptor) (names : List String) (s : Store)
    (ordinal : Nat) {i : Nat} {name : String} (h : names[i]? = some name) :
    ∃ f, (s.constantFields enumName type ordinal names).1[i]? = some f ∧
      (s.constantFields enumName type ordinal names).2.MakesConstant enumName (ordinal + i) name f := by
  induction names generalizing s ordinal i with
  | nil => cases h
  | cons first rest ih =>
    rw [constantFields]
    cases i with
    | zero =>
      obtain rfl : first = name := Option.some.inj h
      have hadded := s.native_addNative (.constant enumName ordinal first)
      obtain ⟨hgrows, -, -⟩ := constantFields_spec enumName type rest
        (s.addNative (.constant enumName ordinal first)).2 (ordinal + 1)
      exact ⟨_, rfl, MakesConstant.mono ⟨rfl, rfl, rfl, rfl, _, rfl, hadded⟩ hgrows⟩
    | succ i =>
      rw [show ordinal + (i + 1) = ordinal + 1 + i by omega]
      exact ih _ (ordinal + 1) h

/-- Fields are declared in the order in which they are asked for. -/
theorem declareFields_inOrder (declaring : TypeId) (specs : List FieldSpec) (s : Store) {i : Nat} {spec : FieldSpec}
    (h : specs[i]? = some spec) : ∃ f, (s.declareFields declaring specs).1[i]? = some f ∧
      (s.declareFields declaring specs).2.DeclaredAs declaring spec f := by
  induction specs generalizing s i with
  | nil => cases h
  | cons first rest ih =>
    rw [declareFields]
    cases i with
    | zero =>
      obtain rfl : first = spec := Option.some.inj h
      obtain ⟨-, hdeclared⟩ := s.declareField_spec declaring first
      obtain ⟨hgrows, -, -⟩ := declareFields_spec declaring rest (s.declareField declaring first).2
      exact ⟨_, rfl, hdeclared.mono hgrows⟩
    | succ i => exact ih _ h

/-! ## Places -/

/-- A static final field in whose cell a constant is. -/
structure HoldsConstant (s : Store) (enumName : String) (ordinal : Nat) (name : String) (f : FieldDecl) : Prop where
  named : f.name = name
  flags : f.flags = { isPublic := true, isStatic := true, isFinal := true }
  stored : ∃ r n, f.storage = some (.cell r) ∧ s.cell r = .object n ∧ s.native n = .constant enumName ordinal name

/-- A field that is declared for a constant holds it. -/
theorem HoldsConstant.of_declared {declaring : TypeId} {spec : FieldSpec} {f : FieldDecl}
    (hspec : s.MakesConstant enumName ordinal name spec) (hf : s.DeclaredAs declaring spec f) :
    s.HoldsConstant enumName ordinal name f := by
  have hflags : f.flags = { isPublic := true, isStatic := true, isFinal := true } := by
    rw [hf.flags, hspec.flags]
    rfl
  refine ⟨hf.name.trans hspec.named, hflags, ?_⟩
  obtain ⟨n, hinitial, hn⟩ := hspec.initial
  obtain ⟨r, hr, hcell⟩ := hf.storage hspec.accessible hspec.broken (by rw [hflags]) _ hinitial nofun
  exact ⟨r, n, hr, hcell, hn⟩

/-- A field holds its constant as long as neither the constant nor the cell changes. -/
theorem HoldsConstant.mono {f : FieldDecl} (h : s.HoldsConstant enumName ordinal name f)
    (hnative : ∀ r, (s.native r).isFixed = true → s'.native r = s.native r)
    (hcell : f.flags.isFinal = true → ∀ r, f.storage = some (.cell r) → s.cell r ≠ .null → s'.cell r = s.cell r) :
    s'.HoldsConstant enumName ordinal name f := by
  obtain ⟨r, n, hr, hn, hconstant⟩ := h.stored
  refine ⟨h.named, h.flags, r, n, hr, ?_, ?_⟩
  · rw [hcell (by rw [h.flags]) r hr (by rw [hn]; exact nofun), hn]
  · rw [hnative n (by rw [hconstant]; rfl), hconstant]

/-- The constants of a type are in its last fields, in order. -/
def InPlace (s : Store) (d : TypeDecl) : Prop :=
  ∃ others, d.fields.length = others + d.constants.length ∧ ∀ (i : Nat) name, d.constants[i]? = some name →
    ∃ f, d.fields[others + i]? = some f ∧ s.HoldsConstant d.name i name f

/-- The constants of a type stay in place as long as neither they nor the cells change. -/
theorem InPlace.mono {d : TypeDecl} (h : s.InPlace d)
    (hnative : ∀ r, (s.native r).isFixed = true → s'.native r = s.native r)
    (hcell : ∀ f ∈ d.fields, f.flags.isFinal = true → ∀ r, f.storage = some (.cell r) → s.cell r ≠ .null →
      s'.cell r = s.cell r) : s'.InPlace d := by
  obtain ⟨others, hlength, hplaces⟩ := h
  refine ⟨others, hlength, fun i name hname => ?_⟩
  obtain ⟨f, hf, hholds⟩ := hplaces i name hname
  exact ⟨f, hf, hholds.mono hnative (hcell f (List.mem_of_getElem? hf))⟩

/-- Fields that are declared after all others, for constants that were made in order. -/
theorem inPlace_of_declared {d : TypeDecl} {type : Descriptor} {others : List FieldSpec} {declaring : TypeId}
    {made : List FieldSpec × Store} (hmade : s.constantFields d.name type 0 d.constants = made)
    {declared : List FieldDecl × Store} (hdeclared : made.2.declareFields declaring (others ++ made.1) = declared)
    (hfields : d.fields = declared.1) : declared.2.InPlace d := by
  obtain ⟨-, hconstants, -⟩ := constantFields_spec d.name type d.constants s 0
  obtain ⟨hgrows, hnames, -⟩ := declareFields_spec declaring (others ++ made.1) made.2
  rw [hmade] at hconstants
  rw [hdeclared] at hgrows hnames
  refine ⟨others.length, ?_, fun i name hname => ?_⟩
  · have hlength := congrArg List.length hnames
    have hcount := congrArg List.length hconstants
    simp only [List.length_map, List.length_append] at hlength hcount
    rw [hfields, hlength, hcount]
  · obtain ⟨spec, hspec, hmakes⟩ := constantFields_inOrder d.name type d.constants s 0 hname
    rw [hmade] at hspec hmakes
    have hplace : (others ++ made.1)[others.length + i]? = some spec := by
      rw [List.getElem?_append_right (Nat.le_add_right _ _), Nat.add_sub_cancel_left, hspec]
    obtain ⟨f, hf, hasked⟩ := declareFields_inOrder declaring (others ++ made.1) made.2 hplace
    rw [hdeclared] at hf hasked
    rw [Nat.zero_add] at hmakes
    exact ⟨f, hfields ▸ hf, .of_declared (hmakes.mono hgrows) hasked⟩

/-- **A declaration puts the constants of its type in their places**, after the fields that are asked for. -/
theorem declare_inPlace (s : Store) (spec : TypeSpec) : ∃ (grown : Store) (decl : TypeDecl), s.Grows grown ∧
    s.declare spec = { grown with types := grown.types.insert decl } ∧ decl.name = spec.name ∧
      decl.kind = spec.kind ∧ decl.denied = spec.denied ∧
        decl.constants = (if spec.kind == .ofEnum then spec.constants else []) ∧
        decl.fields.map (·.name) = spec.fields.map (·.name) ++ decl.constants ∧
          (∀ f ∈ decl.fields, f.declaring = decl.id) ∧ grown.InPlace decl := by
  refine ⟨_, _, (constantFields_spec _ _ _ s 0).1.trans (declareFields_spec _ _ _).1, rfl, rfl, rfl, rfl, rfl, ?_, ?_,
    ?_⟩
  · refine (declareFields_spec _ _ _).2.1.trans ?_
    rw [List.map_append, (constantFields_spec _ _ _ s 0).2.1]
  · intro f hf
    obtain ⟨field, -, hdeclared⟩ := (declareFields_spec _ _ _).2.2 f hf
    exact hdeclared.declaring
  · exact inPlace_of_declared rfl rfl rfl

/-- An enum that is declared has the constants asked for. They have names of their own if these are all different and
none of them is the name of a field that is asked for. -/
theorem declare_namesApart_iff (s : Store) (spec : TypeSpec) (hkind : spec.kind = .ofEnum) :
    ∃ d, (s.declare spec).types.find? (.ofName spec.name) = some d ∧ d.name = spec.name ∧ d.kind = .ofEnum ∧
      d.denied = spec.denied ∧ d.constants = spec.constants ∧
      (d.NamesApart ↔ spec.constants.Nodup ∧ ∀ f ∈ spec.fields, f.name ∉ spec.constants) := by
  obtain ⟨grown, decl, -, heq, hname, hdeclkind, hdenied, hconstants, hnames, -⟩ := s.declare_inPlace spec
  replace hconstants : decl.constants = spec.constants := by
    rw [hconstants, hkind]
    rfl
  refine ⟨decl, ?_, hname, hdeclkind.trans hkind, hdenied, hconstants, ?_⟩
  · have hid : TypeId.ofName spec.name = decl.id := congrArg TypeId.ofName hname.symm
    rw [heq, TypeTable.find?_insert, if_pos hid]
  · rw [TypeDecl.namesApart_iff hnames, hconstants, List.forall_mem_map]

/-! ## Reached stores -/

/-- Types are under their ids, declare the fields that they list, and have their constants in place. -/
structure Ordered (s : Store) : Prop where
  keyed : ∀ id d, s.types.find? id = some d → d.id = id
  owned : s.types.FieldsOwned
  inPlace : ∀ id d, s.types.find? id = some d → s.InPlace d

/-- The constants of the standard types are in place: there are none. -/
theorem ordered_standard (config : Config) (wrapPrimitives : Bool) : (standard config wrapPrimitives).Ordered where
  keyed := (regular_standard config wrapPrimitives).keyed
  owned := (regular_standard config wrapPrimitives).owned
  inPlace id d hd := by
    have hcheck := StandardType.forall_of_entries (p := fun _ d => d.fields.isEmpty && d.constants.isEmpty)
      (by decide +kernel) hd
    rw [Bool.and_eq_true, List.isEmpty_iff, List.isEmpty_iff] at hcheck
    refine ⟨0, by rw [hcheck.1, hcheck.2]; rfl, fun i name hname => ?_⟩
    rw [hcheck.2] at hname
    cases hname

/-- A new type has its constants in place, and no other type loses them. -/
theorem Ordered.declare (hs : s.Ordered) (spec : TypeSpec) : (s.declare spec).Ordered := by
  obtain ⟨grown, decl, hgrows, heq, -, -, -, -, -, howned, hinPlace⟩ := s.declare_inPlace spec
  have hfind : ∀ id d, (s.declare spec).types.find? id = some d →
      (id = decl.id ∧ d = decl) ∨ s.types.find? id = some d := by
    intro id d hd
    rw [heq, TypeTable.find?_insert, hgrows.types] at hd
    split at hd
    · next hsame => exact .inl ⟨hsame, (Option.some.inj hd).symm⟩
    · exact .inr hd
  refine ⟨fun id d hd => ?_, fun id d hd => ?_, fun id d hd => ?_⟩
  · rcases hfind id d hd with ⟨rfl, rfl⟩ | hold
    · rfl
    · exact hs.keyed id d hold
  · rcases hfind id d hd with ⟨rfl, rfl⟩ | hold
    · exact howned
    · exact hs.owned id d hold
  · rw [heq]
    rcases hfind id d hd with ⟨rfl, rfl⟩ | hold
    · exact hinPlace.mono (fun _ _ => rfl) fun _ _ _ _ _ _ => rfl
    · exact (hs.inPlace id d hold).mono (fun r hr => hgrows.native_eq hr) fun f _ _ r _ hr => hgrows.cell_eq hr

/-- What a type lists does not depend on whether the host denies it. -/
theorem Ordered.deny (hs : s.Ordered) (denied : TypeId) : Ordered { s with types := s.types.deny denied } := by
  have hfind : ∀ id d, (s.types.deny denied).find? id = some d → ∃ before, s.types.find? id = some before ∧
      d.name = before.name ∧ d.fields = before.fields ∧ d.constants = before.constants := by
    intro id d hd
    rw [TypeTable.find?_deny, Option.map_eq_some_iff] at hd
    obtain ⟨before, hbefore, rfl⟩ := hd
    refine ⟨before, hbefore, ?_⟩
    split
    · exact ⟨rfl, rfl, rfl⟩
    · exact ⟨rfl, rfl, rfl⟩
  refine ⟨fun id d hd => ?_, fun id d hd => ?_, fun id d hd => ?_⟩
  all_goals
    obtain ⟨before, hbefore, hname, hfields, hconstants⟩ := hfind id d hd
  · rw [TypeDecl.id, hname]
    exact hs.keyed id before hbefore
  · rw [hfields]
    exact hs.owned id before hbefore
  · have hinPlace : InPlace { s with types := s.types.deny denied } before :=
      (hs.inPlace id before hbefore).mono (fun _ _ => rfl) fun _ _ _ _ _ _ => rfl
    rwa [InPlace, hname, hfields, hconstants]

/-- Cells of final fields are not written to. -/
theorem Ordered.step (hs : s.Ordered) (hstep : s.Step s') : s'.Ordered := by
  obtain ⟨htypes, -⟩ := hstep.types_memberCache_eq
  refine ⟨htypes ▸ hs.keyed, htypes ▸ hs.owned, fun id d hd => ?_⟩
  rw [htypes] at hd
  refine (hs.inPlace id d hd).mono (fun r hr => hstep.native_eq hr) fun f hf hfinal r hr _ => ?_
  exact hstep.cell_eq fun hopen => hopen id d hd f hf hfinal hr

/-- Only types, objects and cells matter. -/
theorem Ordered.congr (hs : s.Ordered) (htypes : s'.types = s.types) (hnatives : s'.natives = s.natives)
    (hcells : s'.cells = s.cells) : s'.Ordered := by
  refine ⟨htypes ▸ hs.keyed, htypes ▸ hs.owned, fun id d hd => ?_⟩
  rw [htypes] at hd
  refine (hs.inPlace id d hd).mono (fun r _ => ?_) fun f _ _ r _ _ => ?_
  · rw [native, native, hnatives]
  · rw [cell, cell, hcells]

/-- **In a reached store all constants are in place.** -/
theorem Reached.ordered (h : s.Reached) : s.Ordered := by
  induction h with
  | standard config wrapPrimitives => exact ordered_standard config wrapPrimitives
  | bare config wrapPrimitives =>
    have hnone : ∀ id, (Store.bare config wrapPrimitives).types.find? id = none := fun _ => rfl
    refine ⟨fun id d hd => ?_, fun id d hd => ?_, fun id d hd => ?_⟩
    all_goals
      rw [hnone] at hd
      cases hd
  | declare _ spec ih => exact ih.declare spec
  | deny _ id ih => exact ih.deny id
  | step _ hstep _ ih => exact ih.step hstep
  | memberCache _ cache ih => exact ih.congr rfl rfl rfl
  | wrapPrimitives _ wrapPrimitives ih => exact ih.congr rfl rfl rfl

/-! ## The field of a constant -/

/-- The last fields have the names of the constants. -/
theorem InPlace.map_name {d : TypeDecl} (h : s.InPlace d) :
    ∃ others, (d.fields.drop others).map (·.name) = d.constants ∧ ∀ (i : Nat) name, d.constants[i]? = some name →
      ∃ f, (d.fields.drop others)[i]? = some f ∧ s.HoldsConstant d.name i name f := by
  obtain ⟨others, hlength, hplaces⟩ := h
  have hdrop : ∀ (i : Nat) name, d.constants[i]? = some name →
      ∃ f, (d.fields.drop others)[i]? = some f ∧ s.HoldsConstant d.name i name f := by
    intro i name hname
    rw [List.getElem?_drop]
    exact hplaces i name hname
  refine ⟨others, List.ext_getElem? fun i => ?_, hdrop⟩
  rw [List.getElem?_map]
  cases hname : d.constants[i]? with
  | none =>
    rw [List.getElem?_eq_none_iff] at hname
    have hpast : (d.fields.drop others)[i]? = none := by
      rw [List.getElem?_eq_none_iff, List.length_drop]
      omega
    rw [hpast]
    rfl
  | some name =>
    obtain ⟨f, hf, hholds⟩ := hdrop i name hname
    rw [hf, Option.map_some, hholds.named]

/-- **The field of a constant** is the only one of its name, if constants have names of their own. -/
theorem InPlace.exists_field {d : TypeDecl} (h : s.InPlace d) (hnames : d.NamesApart) {i : Nat}
    (hi : d.constants[i]? = some name) :
    ∃ f ∈ d.fields, s.HoldsConstant d.name i name f ∧ ∀ g ∈ d.fields, g.name = name → g = f := by
  obtain ⟨others, hmap, hplaces⟩ := h.map_name
  obtain ⟨f, hf, hholds⟩ := hplaces i name hi
  refine ⟨f, List.mem_of_mem_drop (List.mem_of_getElem? hf), hholds, fun g hg hname => ?_⟩
  -- the last fields are as many as the constants, so no other field has the name of one
  have hfirst : (d.fields.take others).countP (·.name ∈ d.constants) = 0 := by
    have hall : (d.fields.drop others).countP (·.name ∈ d.constants) = d.constants.length := by
      rw [List.countP_eq_length.mpr, ← List.length_map (·.name), hmap]
      intro g hg
      rw [decide_eq_true_eq, ← hmap]
      exact List.mem_map_of_mem hg
    have hcount := hnames.count
    rw [← List.take_append_drop others d.fields, List.countP_append, hall] at hcount
    omega
  have hlast : g ∈ d.fields.drop others := by
    rw [← List.take_append_drop others d.fields] at hg
    refine (List.mem_append.mp hg).resolve_left fun hg => ?_
    refine List.countP_eq_zero.mp hfirst g hg ?_
    rw [hname, decide_eq_true_eq]
    exact List.mem_of_getElem? hi
  obtain ⟨j, hj⟩ := List.getElem?_of_mem hlast
  have hsame : d.constants[j]? = some name := by
    rw [← hmap, List.getElem?_map, hj, Option.map_some, hname]
  obtain rfl : i = j := by
    obtain ⟨hi', hi⟩ := List.getElem?_eq_some_iff.mp hi
    obtain ⟨hj', hj⟩ := List.getElem?_eq_some_iff.mp hsame
    exact (List.Nodup.getElem_inj_iff hnames.nodup).mp (hi.trans hj.symm)
  exact Option.some.inj (hj.symm.trans hf)

end Store

end Interop
