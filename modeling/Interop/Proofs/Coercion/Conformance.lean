import Interop.Proofs.Coercion.Kinds

/-!
# Conversion gives what the type says

In a bridge the result of a conversion is of the declared type. Every conversion lands at the target of its type, and a
target that a descriptor names has the id of the descriptor.

* **`Descriptor.NativeIn`**, **`Store.HasType`**: the types that native code declares, and the values that are of them.
* **`Store.Regular.namedTarget_stands`**: the target that a named type is.
* **`convert_hasType`**: every conversion gives a value of the declared type.
-/

namespace Interop

section Conversion

-- ids are compared as they stand; unfolding one means computing a digest
attribute [local irreducible] TypeId.ofName

variable {t : TypeTable} {s : Store}

/-! ## Declared types -/

/-- The types that native code declares: named types, arrays and applied generic types, where enums and interfaces are
what the host says they are. -/
inductive Descriptor.NativeIn (t : TypeTable) : Descriptor → Prop where
  | plain (name : String) : NativeIn t (.plain name)
  | enumeration {name : String} {d : TypeDecl} (h : t.find? (.ofName name) = some d) (hkind : d.kind = .ofEnum) :
    NativeIn t (.enumeration name)
  | interface {name : String} {functional : Bool} {d : TypeDecl} (h : t.find? (.ofName name) = some d)
    (hkind : d.kind = .ofInterface) : NativeIn t (.interface name functional)
  | array {c : Descriptor} (h : NativeIn t c) : NativeIn t (.array c)
  | parameterized {raw : Descriptor} {args : List Descriptor} (hraw : NativeIn t raw)
    (hargs : ∀ arg ∈ args, NativeIn t arg) : NativeIn t (.parameterized raw args)

/-- A type that has no null: a primitive one. -/
def Descriptor.excludesNull : Descriptor → Bool
  | .array _ => false
  | d => d.typeId?.any TypeId.isPrimitive

/-- A native value is of the type with an id. Numbers and booleans are inline values of primitive types; everything is
of the root type; other values have the members of a subtype. -/
def Store.HasTypeId (s : Store) (id : TypeId) (n : Native) : Prop :=
  match PrimitiveKind.ofTypeId? id with
  | some (.numeric kind) => n.numericKind? = some kind
  | some .boolean => ∃ b, n = .boolean b
  | _ => id = Standard.object ∨ ∃ source, s.memberTypeOf? n = some source ∧ s.types.isSubtype source id = true

/-- A native value is of a declared type: an array of an assignable component, or a value of the erased type. -/
def Store.HasType (s : Store) : Descriptor → Native → Prop
  | .array c, n => ∃ a, s.array? n = some a ∧ s.types.isAssignable (.array c) (.array a.component) = true
  | d, n => ∃ id, d.typeId? = some id ∧ s.HasTypeId id n

/-- Every descriptor that conversion can land in has a type of its own. -/
theorem Descriptor.NativeIn.exists_typeId {d : Descriptor} (hd : d.NativeIn t) : ∃ id, d.typeId? = some id := by
  induction hd with
  | plain name => exact ⟨_, rfl⟩
  | enumeration => exact ⟨_, rfl⟩
  | interface => exact ⟨_, rfl⟩
  | array _ ih =>
    obtain ⟨id, hid⟩ := ih
    exact ⟨.ofArray id, by rw [typeId?, hid]; rfl⟩
  | parameterized _ _ ih _ =>
    obtain ⟨id, hid⟩ := ih
    exact ⟨id, hid⟩

/-- A native that is no primitive has a type where what it is declared as is a subtype of it. -/
theorem Store.hasTypeId_of_subtype {id : TypeId} {n : Native} (hkind : PrimitiveKind.ofTypeId? id = none)
    (h : ∃ source, s.memberTypeOf? n = some source ∧ s.types.isSubtype source id = true) : s.HasTypeId id n := by
  rw [HasTypeId, hkind]
  exact .inr h

/-- The target that a named type is: what lands there is of the type, and it takes null unless it is primitive. -/
structure Target.Stands (s : Store) (id : TypeId) (target : Target) : Prop where
  ne_any : target ≠ .any
  raw : ∀ raw element, target = .collection raw element →
    raw = Standard.list ∨ raw = Standard.set ∨ raw = Standard.collection
  hasTypeId : ∀ s' : Store, s'.types = s.types → ∀ n, target.Lands s.types s' n → s'.HasTypeId id n
  excludesNull : target.takesNull = true → id.isPrimitive = false

/-- A target that is known by its id. -/
theorem Target.stands_of_id {id : TypeId} (hkind : PrimitiveKind.ofTypeId? id = none) {target : Target}
    (hany : target ≠ .any) (hraw : ∀ raw element, target = .collection raw element →
      raw = Standard.list ∨ raw = Standard.set ∨ raw = Standard.collection)
    (hid : ∀ s' n, target.Lands s.types s' n → ∃ source, s'.memberTypeOf? n = some source ∧
      s.types.isSubtype source id = true) : target.Stands s id := by
  refine ⟨hany, hraw, fun s' htypes n hn => ?_, fun _ => ?_⟩
  · obtain ⟨source, hsource, hsub⟩ := hid s' n hn
    exact Store.hasTypeId_of_subtype hkind ⟨source, hsource, htypes ▸ hsub⟩
  · rw [TypeId.isPrimitive, hkind]
    rfl

/-- Which of two targets stands for a type follows the test between them. -/
theorem Target.Stands.ite {p : Prop} [Decidable p] {id : TypeId} {a b : Target} (ha : p → a.Stands s id)
    (hb : b.Stands s id) : (if p then a else b).Stands s id := by
  split
  · next hp => exact ha hp
  · exact hb

/-- **A named type is a target with its id.** -/
theorem Store.Regular.namedTarget_stands (hs : s.Regular) {d : Descriptor} {id : TypeId} (hid : d.typeId? = some id) :
    (s.types.namedTarget d).Stands s id := by
  unfold TypeTable.namedTarget
  rw [hid]
  dsimp only
  cases hkind : PrimitiveKind.ofTypeId? id with
  | some kind =>
    -- what a primitive type holds is what its target lands in
    cases kind with
    | void => exact ⟨nofun, nofun, fun _ _ _ => nofun, nofun⟩
    | boolean =>
      refine ⟨nofun, nofun, fun s' _ n hn => ?_, nofun⟩
      rw [HasTypeId, hkind]
      exact hn
    | numeric kind =>
      refine ⟨nofun, nofun, fun s' _ n hn => ?_, nofun⟩
      rw [HasTypeId, hkind]
      exact hn
  | none =>
    dsimp only
    -- no primitive: the tests of the definition in their order, each with the target that it ends in
    refine .ite (fun hobject => ?_) (.ite (fun hstring => ?_) (.ite (fun hsequence => ?_) (.ite (fun hnumber => ?_)
      (.ite (fun hclass => ?_) (.ite (fun hcollection => ?_) (.ite (fun hmap => ?_) (.ite (fun _ => ?_) ?_)))))))
    · refine ⟨nofun, nofun, fun s' _ n _ => ?_, fun _ => ?_⟩
      · rw [HasTypeId, hkind]
        exact .inl hobject
      · rw [TypeId.isPrimitive, hkind]
        rfl
    · exact Target.stands_of_id hkind nofun nofun fun s' n hn => hn id (congrArg some hstring.symm)
    · exact Target.stands_of_id hkind nofun nofun fun s' n hn => hn id (congrArg some hsequence.symm)
    · exact Target.stands_of_id hkind nofun nofun fun s' n hn => hn id (congrArg some hnumber.symm)
    · exact Target.stands_of_id hkind nofun nofun fun s' n hn => hn id (congrArg some hclass.symm)
    · refine Target.stands_of_id hkind nofun ?_ fun s' n hn => hn id rfl
      rintro _ _ ⟨⟩
      exact hcollection
    · exact Target.stands_of_id hkind nofun nofun fun s' n hn => hn id (congrArg some hmap.symm)
    · exact Target.stands_of_id hkind nofun nofun fun s' n hn => hn id (d.typeId?_erase.trans hid)
    · -- and what is left goes by its declaration: interface, enum or class
      cases hfind : s.types.find? id with
      | none => exact Target.stands_of_id hkind nofun nofun fun s' n hn => hn id rfl
      | some decl =>
        have hname : TypeId.ofName decl.name = id := hs.keyed id decl hfind
        dsimp only
        split
        · exact Target.stands_of_id hkind nofun nofun fun s' n hn => hn id (congrArg some hname)
        · next hdecl =>
          refine Target.stands_of_id hkind nofun nofun fun s' n hn => hn id ?_
          rw [Target.id?, TypeDecl.descriptor, hdecl]
          exact congrArg some hname
        · exact Target.stands_of_id hkind nofun nofun fun s' n hn => hn id rfl

/-- Conversions to types other than unions follow the target of the type. -/
theorem exists_convertBy {d : Descriptor} (h : ∀ members, d = .union members → False) (v : Script) :
    ∃ parts, convert d v = convertBy d parts v := by
  cases d with
  | union members => exact (h members rfl).elim
  | array component => exact ⟨_, by rw [convert]⟩
  | parameterized raw args => exact ⟨_, by rw [convert]⟩
  | objectShape fields => exact ⟨_, by rw [convert]⟩
  | _ =>
    refine ⟨⟨asIs, asIs, fun _ => pure []⟩, ?_⟩
    rw [convert]
    all_goals simp

/-- Conversion to anything but a union goes by the target of the descriptor, with converters for its parts. -/
theorem convert_eq_convertBy {d : Descriptor} (hd : d.NativeIn t) (v : Script) :
    ∃ parts, convert d v = convertBy d parts v := by
  refine exists_convertBy ?_ v
  rintro members rfl
  cases hd

/-- Conversion keeps the store fit to convert in. -/
theorem Store.Bridge.convert (hs : s.Bridge) (d : Descriptor) (v : Script) : ((convert d v).outcome s).2.Bridge :=
  (follows_convert (D := .bridge s.types) d (.inr fun _ => trivial) v s ⟨hs, rfl⟩).1.1

/-- **Conversion gives what the type says.** In a bridge, a script value that is converted to a native type becomes
null, which primitive types do not take, or a value of the type. -/
theorem convert_hasType (hs : s.Bridge) {d : Descriptor} (hd : d.NativeIn s.types) (v : Script) {n : Native}
    {s' : Store} (h : (convert d v).outcome s = (.ok n, s')) :
    (n = .null ∧ d.excludesNull = false) ∨ s'.HasType d n := by
  have htypes : s'.types = s.types :=
    ((follows_convert d (.inr fun _ => trivial) v).givesAt (D := .bridge s.types) ⟨hs, rfl⟩ n s' h).2
  obtain ⟨parts, hconvert⟩ := convert_eq_convertBy hd v
  rw [hconvert] at h
  -- a type that is no array is known by its id
  have hnamed : ∀ id target, d.typeId? = some id → s.types.targetOf d = .ok target → target.Stands s id →
      (n = .null ∧ id.isPrimitive = false) ∨ ∃ id, d.typeId? = some id ∧ s'.HasTypeId id n := by
    intro id target hid htarget hstands
    rcases givesAt_convertBy hs htarget hstands.ne_any hstands.raw parts v n s' h with ⟨hnull, htakes⟩ | hlands
    · exact .inl ⟨hnull, hstands.excludesNull htakes⟩
    · exact .inr ⟨id, hid, hstands.hasTypeId s' htypes n hlands⟩
  cases hd with
  | @array c hc =>
    have htarget : s.types.targetOf (.array c) = .ok (.array c) := rfl
    rcases givesAt_convertBy hs htarget nofun nofun parts v n s' h with ⟨hnull, -⟩ | hlands
    · exact .inl ⟨hnull, rfl⟩
    · obtain ⟨a, ha, hassignable⟩ := hlands
      exact .inr ⟨a, ha, htypes ▸ hassignable⟩
  | @enumeration name decl hfind _ =>
    have hprimitive := hs.regular.primitive _ decl hfind
    have hkind : PrimitiveKind.ofTypeId? (.ofName name) = none := by simpa [TypeId.isPrimitive] using hprimitive
    exact hnamed _ _ rfl rfl (Target.stands_of_id hkind nofun nofun fun s' n hn => hn _ rfl)
  | plain name => exact hnamed _ _ rfl rfl (hs.regular.namedTarget_stands rfl)
  | interface => exact hnamed _ _ rfl rfl (hs.regular.namedTarget_stands rfl)
  | parameterized hraw hargs =>
    obtain ⟨id, hid⟩ := hraw.exists_typeId
    rcases hnamed id _ hid rfl (hs.regular.namedTarget_stands hid) with ⟨hnull, hprimitive⟩ | hvalue
    · refine .inl ⟨hnull, ?_⟩
      simp [Descriptor.excludesNull, Descriptor.typeId?, hid, hprimitive]
    · exact .inr hvalue

end Conversion

/-! ## A bridge with an enum -/

def shapeSpec : TypeSpec where
  name := "demo.Shape"
  kind := .ofInterface

def colorSpec : TypeSpec where
  name := "demo.Color"
  kind := .ofEnum
  interfaces := [.interface "demo.Shape" false]
  constants := ["RED", "GREEN"]

def Store.colors : Store := ((Store.standard {} false).declare shapeSpec).declare colorSpec

/-- The registry of the example is one that conversion can run in. -/
theorem Store.bridge_colors : colors.Bridge := by
  refine .declare (.declare (.standard {} false) ⟨rfl, by decide +kernel, rfl, fun _ => List.forall_mem_nil _⟩ ?_
    fun _ => rfl) ⟨rfl, by decide +kernel, rfl, fun _ => List.forall_mem_nil _⟩ ?_ fun _ => rfl
  · exact TypeTable.acyclic_of_entries (by decide +kernel) (by decide +kernel)
  · exact TypeTable.acyclic_of_entries (by decide +kernel) (by decide +kernel)

/-- The text `green` becomes the constant of that name, in a store that knows its type. -/
theorem convert_hasType_green : ∃ s', (convert (.enumeration "demo.Color") (.string "green")).outcome .colors =
    (.ok (.object ⟨1⟩), s') ∧ s'.HasType (.enumeration "demo.Color") (.object ⟨1⟩) := by
  have hfound : ((convert (.enumeration "demo.Color") (.string "green")).outcome .colors).1.toOption =
      some (.object ⟨1⟩) := by decide +kernel
  have hrun : (convert (.enumeration "demo.Color") (.string "green")).outcome .colors =
      (.ok (.object ⟨1⟩), ((convert (.enumeration "demo.Color") (.string "green")).outcome .colors).2) := by
    refine Prod.ext ?_ rfl
    revert hfound
    cases ((convert (.enumeration "demo.Color") (.string "green")).outcome .colors).1 with
    | error stop => exact nofun
    | ok n =>
      rintro ⟨⟩
      rfl
  have hd : (Descriptor.enumeration "demo.Color").NativeIn Store.colors.types := .enumeration rfl rfl
  refine ⟨_, hrun, ?_⟩
  rcases convert_hasType Store.bridge_colors hd (.string "green") hrun with ⟨hnull, -⟩ | htype
  · cases hnull
  · exact htype

end Interop
