import Interop.Proofs.Coercion.Discipline
import Interop.Proofs.Store.Bridge

/-!
# Where conversions land

A target says where the results for it land: numbers are of its kind, arrays have an assignable component, and all other
values have the members of a subtype. Each of the ways in which results are made in a bridge lands there.

* **`Eval.GivesAt`**: what a computation gives, if it gives something.
* **`Target.Lands`**: what a result for a target is.
* **`lands_of_conforms`**, **`givesAt_constantObject`**, **`givesAt_adapterFor`**: wrapped values that come through,
  constants of enums, and adapters.
* **`lands_string`**, **`lands_number`**, **`givesAt_newList`**: values that are made anew.
-/

namespace Interop

-- ids are compared as they stand; unfolding one means computing a digest
attribute [local irreducible] TypeId.ofName

/-! ## What computations give -/

namespace Eval

/-- A value that a computation gives in a store, and the store that it leaves, have a property. -/
def GivesAt (x : Eval α) (s : Store) (P : α → Store → Prop) : Prop := ∀ a s', x.outcome s = (.ok a, s') → P a s'

namespace GivesAt

variable {P : α → Store → Prop} {s : Store}

/-- What is given without a step has the property in the store as it is. -/
theorem pure {a : α} (h : P a s) : (pure a : Eval α).GivesAt s P := by
  rintro _ _ ⟨⟩
  exact h

theorem fail (failure : Failure) : (Eval.fail failure : Eval α).GivesAt s P := nofun

/-- A property of the first half is what the second half starts from. -/
theorem bind {x : Eval β} {f : β → Eval α} {Q : β → Store → Prop} (hx : x.GivesAt s Q)
    (hf : ∀ b s₁, Q b s₁ → (f b).GivesAt s₁ P) : (x >>= f).GivesAt s P := by
  intro a s₂ h
  rcases outcome_bind_cases h with ⟨_, _, hstop⟩ | ⟨b, s₁, hb, ha⟩
  · cases hstop
  · exact hf b s₁ (hx b s₁ hb) a s₂ ha

/-- Where the first part does not matter. -/
theorem bind_any {x : Eval β} {f : β → Eval α} (hf : ∀ b s₁, (f b).GivesAt s₁ P) : (x >>= f).GivesAt s P :=
  bind (Q := fun _ _ => True) (fun _ _ _ => trivial) fun b s₁ _ => hf b s₁

/-- A failure that is caught gives no value of which anything is claimed. -/
theorem attempt {x : Eval α} (hx : x.GivesAt s P) :
    (Eval.attempt x).GivesAt s fun result s' => ∀ a, result = .ok a → P a s' := by
  rintro _ s' h a rfl
  rw [outcome_attempt] at h
  rcases hrun : x.outcome s with ⟨(failure | name | _) | a', s₁⟩ <;> rw [hrun] at h <;> cases h
  exact hx a s' hrun

theorem read {f : Store → Eval α} (h : (f s).GivesAt s P) : (get >>= f : Eval α).GivesAt s P := h

/-- A new native is stored under the reference that is given. -/
theorem newNative {o : NativeObject} {P : Native → Store → Prop}
    (h : ∀ r, (s.addNative o).2.native r = o → P (.object r) (s.addNative o).2) : (Eval.newNative o).GivesAt s P := by
  rintro _ _ ⟨⟩
  exact h _ (s.native_addNative o)

/-- The members that are found are those that the table presents for the type. -/
theorem membersOf {id : TypeId} {declared : Option TypeId} {includeProtected : Bool} (hs : s.Bridge) :
    (Eval.membersOf id declared includeProtected).GivesAt s fun m s' => s'.Bridge ∧ s'.types = s.types ∧
      s'.types.Presents id m.entry := by
  intro m s' h
  rw [outcome_membersOf] at h
  obtain ⟨hm, rfl⟩ := Prod.mk.inj h
  have hbridge := hs.lookedUp id declared (includeProtected || s.config.includeNonPublic)
  exact ⟨hbridge, rfl, hbridge.regular.presents (MemberCache.find?_lookup (Prod.ext hm rfl))⟩

end GivesAt

/-- A discipline says of the store that is left that it still holds. -/
theorem Follows.givesAt {D : Discipline} {x : Eval α} (hx : x.Follows D) {s : Store} (hs : D.holds s) :
    x.GivesAt s fun _ s' => D.holds s' := by
  intro a s' h
  have hs' := (hx s hs).1
  rwa [h] at hs'

end Eval

theorem givesAt_cannotConvert {v : Script} {d : Descriptor} {s : Store} {P : α → Store → Prop} :
    (cannotConvert v d : Eval α).GivesAt s P :=
  Eval.GivesAt.bind (Q := fun _ _ => True) (fun _ _ _ => trivial) fun _ _ _ => .fail _

/-! ## Where results land -/

namespace Target

/-- The type that the results for a target are subtypes of. -/
def id? : Target → Option TypeId
  | string => some Standard.string
  | charSequence => some Standard.charSequence
  | number => some Standard.number
  | classRef => some Standard.class_
  | enumeration name => some (.ofName name)
  | collection raw _ => some raw
  | map _ _ => some Standard.map
  | interface d => d.typeId?
  | named id => some id
  | _ => none

/-- What a result for a target is. Nothing is said of the root type, and of types that only script code writes. -/
def Lands (t : TypeTable) (s : Store) : Target → Native → Prop
  | void, _ => False
  | boolean, n => ∃ b, n = .boolean b
  | numeric kind, n => n.numericKind? = some kind
  | array c, n => ∃ a, s.array? n = some a ∧ t.isAssignable (.array c) (.array a.component) = true
  | target, n => ∀ id, target.id? = some id → ∃ source, s.memberTypeOf? n = some source ∧
      t.isSubtype source id = true

end Target

variable {t : TypeTable} {s : Store}

/-- A native that conforms to a target is declared as a subtype of it. -/
theorem lands_of_conforms (htypes : s.types = t) {n : Native} {target : Target} (h : s.conforms n target = true) :
    target.Lands t s n := by
  subst htypes
  unfold Store.conforms at h
  cases hsource : s.memberTypeOf? n with
  | none =>
    rw [hsource] at h
    cases h
  | some source =>
    rw [hsource] at h
    have hid : ∀ id, s.types.isSubtype source id = true → ∀ id', some id = some id' →
        ∃ source, s.memberTypeOf? n = some source ∧ s.types.isSubtype source id' = true := by
      rintro id hsub _ ⟨⟩
      exact ⟨source, hsource, hsub⟩
    have hsame : ∀ id, (source == id) = true → s.types.isSubtype source id = true := by
      intro id heq
      rw [beq_iff_eq.mp heq]
      exact s.types.isSubtype_refl id
    cases target with
    | string => exact hid _ (hsame _ h)
    | charSequence => exact hid _ h
    | number => exact hid _ h
    | classRef => exact hid _ (hsame _ h)
    | enumeration name => exact hid _ (hsame _ h)
    | named id => exact hid _ h
    | interface d =>
      intro id hd
      replace hd : d.typeId? = some id := hd
      dsimp only at h
      rw [hd] at h
      exact ⟨source, hsource, h⟩
    | array c =>
      dsimp only at h
      split at h
      · next a ha => exact ⟨a, ha, h⟩
      · cases h
    | collection raw element => exact hid _ (Bool.and_eq_true_iff.mp h).1
    | map key value => exact hid _ (Bool.and_eq_true_iff.mp h).1
    | void | boolean | numeric => cases h
    | any | object | stringLiteral | numberLiteral | booleanLiteral | union | objectShape | functionShape => exact nofun

/-! ## Constants -/

/-- **A constant is of its enum**, whether it is read from a field or made anew. -/
theorem givesAt_constantObject (hs : s.Bridge) {enumName constant : String}
    (hconstant : constant ∈ s.types.constantsOf enumName) (ordinal : Nat) :
    (constantObject enumName ordinal constant).GivesAt s fun n s' =>
      s'.memberTypeOf? n = some (.ofName enumName) := by
  have hnew : ∀ s, (Eval.newNative (.constant enumName ordinal constant)).GivesAt s fun n s' =>
      s'.memberTypeOf? n = some (.ofName enumName) := by
    refine fun s => Eval.GivesAt.newNative fun r hr => ?_
    rw [Store.memberTypeOf?, hr]
    rfl
  refine (Eval.GivesAt.membersOf hs).attempt.bind fun result s₁ hresult => ?_
  cases result with
  -- a type whose members cannot be found has its constants made anew, and so has one without such a field
  | error failure => exact hnew s₁
  | ok m =>
    obtain ⟨hs₁, htypes, hpresents⟩ := hresult m rfl
    dsimp only
    split
    · next f hf =>
      split
      · -- the field is the one that the enum declares, and that holds the constant
        rw [TypeTable.constantsOf, ← htypes] at hconstant
        cases hd : s₁.types.find? (.ofName enumName) with
        | none =>
          rw [hd] at hconstant
          cases hconstant
        | some d =>
          rw [hd] at hconstant
          obtain ⟨howns, hfields⟩ := hs₁.regular.constants _ d hd constant hconstant
          obtain ⟨own, hown, hname, hstorage⟩ := hpresents.shows d hd constant howns f hf
          obtain ⟨-, r, hr, n, place, text, hcell, hn⟩ := hfields own hown hname
          have hread : f.storage = .cell r := Option.some.inj (hstorage.symm.trans hr)
          rw [hread]
          refine Eval.GivesAt.read (Eval.GivesAt.pure ?_)
          rw [hcell, Store.memberTypeOf?, hn]
          exact congrArg some (hs₁.regular.keyed _ d hd)
      · exact hnew s₁
    · exact hnew s₁

theorem givesAt_constantByOrdinal (hs : s.Bridge) (enumName : String) (x : Double) :
    (constantByOrdinal enumName x).GivesAt s fun n s' => s'.memberTypeOf? n = some (.ofName enumName) := by
  refine Eval.GivesAt.read ?_
  dsimp only
  split
  · next i name hfound =>
    obtain ⟨j, -, hname⟩ := Option.bind_eq_some_iff.mp hfound
    obtain ⟨found, hget, heq⟩ := Option.map_eq_some_iff.mp hname
    cases heq
    exact givesAt_constantObject hs (List.mem_of_getElem? hget) _
  · exact .fail _

theorem givesAt_constantByName (hs : s.Bridge) (enumName text : String) :
    (constantByName enumName text).GivesAt s fun n s' => s'.memberTypeOf? n = some (.ofName enumName) := by
  refine Eval.GivesAt.read ?_
  dsimp only
  split
  · next name i hfound =>
    have hmem := List.mem_of_find?_eq_some hfound
    exact givesAt_constantObject hs (List.fst_mem_of_mem_zipIdx hmem) _
  · split
    · exact givesAt_constantByOrdinal hs enumName _
    · exact .fail _

/-! ## Adapters -/

/-- **An adapter is of its interface**, whether it was there before or is made anew. -/
theorem givesAt_adapterFor (hs : s.Bridge) (v : Script) (interface : Descriptor) :
    (adapterFor v interface).GivesAt s fun n s' => ∀ id, interface.typeId? = some id →
      s'.memberTypeOf? n = some id := by
  intro n s' h id hid
  have hs' : s'.Bridge := ((follows_adapterFor v interface).givesAt (D := .bridge s.types) ⟨hs, rfl⟩ n s' h).1
  obtain ⟨id', r, hid', rfl, hadapter⟩ := outcome_adapterFor h
  obtain rfl : id = id' := Option.some.inj (hid.symm.trans hid')
  rcases hadapter with ⟨identity, -, hkept⟩ | ⟨m, key, flag, hnew, hm⟩
  · -- one that is kept has the members of the interface that it is kept for
    obtain ⟨target, described, m, key, hadapter, hm⟩ := hs'.regular.adapters _ (mem_of_lookup hkept)
    rw [Store.memberTypeOf?, hadapter]
    exact congrArg some hm
  · rw [Store.memberTypeOf?, hnew]
    exact congrArg some (hs'.regular.presents hm).typeId

/-! ## Inline values -/

/-- A number that is narrowed is of the kind that it is narrowed to. -/
theorem NumericKind.numericKind?_ofDouble? {kind : NumericKind} {x : Double} {n : Native}
    (h : kind.ofDouble? x = some n) : n.numericKind? = some kind := by
  cases kind with
  | double =>
    cases h
    rfl
  | float =>
    rw [ofDouble?] at h
    split at h
    · cases h
    · cases h
      rfl
  | _ =>
    obtain ⟨whole, -, rfl⟩ := Option.map_eq_some_iff.mp h
    rfl

theorem NumericKind.numericKind?_parse {kind : NumericKind} {text : String} {n : Native}
    (h : kind.parse text = some n) : n.numericKind? = some kind := by
  rw [parse] at h
  split at h
  · cases h
  · exact numericKind?_ofDouble? h

theorem numericKind?_parseChar {text : String} {n : Native} (h : parseChar text = some n) :
    n.numericKind? = some .char := by
  rw [parseChar] at h
  split at h
  · cases h
    rfl
  · exact NumericKind.numericKind?_parse h

/-- Every value is an object of the root type. -/
theorem lands_object (t : TypeTable) (s : Store) (n : Native) : Target.object.Lands t s n := by
  rintro _ ⟨⟩

theorem lands_string (t : TypeTable) (s : Store) (text : String) : Target.string.Lands t s (.string text) := by
  rintro _ ⟨⟩
  exact ⟨Standard.string, rfl, t.isSubtype_refl _⟩

theorem lands_number (t : TypeTable) (s : Store) (x : Double) : Target.number.Lands t s (.double x) := by
  rintro _ ⟨⟩
  exact ⟨Standard.number, rfl, t.isSubtype_refl _⟩

/-- The supertypes of standard types are what they are among the standard types. -/
theorem Store.Regular.isSubtype_standard (hs : s.Regular) {id parent : TypeId} {d : TypeDecl}
    (hd : StandardType.table.find? id = some d) (hparent : parent ∈ d.supertypeIds) (hid : id.isPrimitive = false)
    (hprimitive : parent.isPrimitive = false) : s.types.isSubtype id parent = true := by
  refine (s.types.isSubtype_iff _ _).mpr (.inr ⟨hid, hprimitive, .inr ?_⟩)
  refine TypeTable.Reaches.head ?_ (.refl _ _)
  rw [TypeTable.parents, hs.standard _ _ hd]
  exact hparent

/-- The standard types are where they were declared: texts are character sequences. -/
theorem Store.Regular.isSubtype_charSequence (hs : s.Regular) :
    s.types.isSubtype Standard.string Standard.charSequence = true :=
  hs.isSubtype_standard StandardType.find?_string (List.mem_singleton_self _) (by decide +kernel) (by decide +kernel)

theorem Store.Regular.isSubtype_collection (hs : s.Regular) :
    s.types.isSubtype Standard.list Standard.collection = true :=
  hs.isSubtype_standard StandardType.find?_list (List.mem_singleton_self _) (by decide +kernel) (by decide +kernel)

/-! ## Containers -/

theorem NativeList.kind_of (kind : CollectionKind) (element : Descriptor) (elements : List Native) :
    (NativeList.of kind element elements).kind = kind := by
  refine List.foldlRecOn (motive := fun l : NativeList => l.kind = kind) _ _ rfl fun l hl v _ => ?_
  have hadd : (l.add v).2.kind = l.kind := by
    unfold add
    split <;> rfl
  exact hadd.trans hl

/-- The kind of collection that is made for a type is a subtype of it. -/
theorem isSubtype_kindFor {raw : TypeId} {otherwise : CollectionKind}
    (h : t.isSubtype otherwise.typeId raw = true) : t.isSubtype (kindFor raw otherwise).typeId raw = true := by
  unfold kindFor
  split
  · next hlist =>
    rw [hlist]
    exact t.isSubtype_refl _
  · split
    · next hset =>
      rw [hset]
      exact t.isSubtype_refl _
    · exact h

/-- A new list lands in every collection type above its kind. -/
theorem givesAt_newList {kind : CollectionKind} {raw : TypeId} (h : t.isSubtype kind.typeId raw = true)
    {element elementType : Descriptor} {elements : List Native} :
    (Eval.newNative (.list (.of kind elementType elements))).GivesAt s fun n s' =>
      (Target.collection raw element).Lands t s' n := by
  refine Eval.GivesAt.newNative fun r hr => ?_
  rintro _ ⟨⟩
  refine ⟨kind.typeId, ?_, h⟩
  rw [Store.memberTypeOf?, hr, NativeObject.typeId, NativeList.kind_of]

end Interop
