import Interop.Proofs.Coercion.Instances
import Interop.Proofs.Coercion.Narrowing
import Interop.Store.Declare

/-!
# Numbers that come back

A native number reaches script code as a double, bare or behind a proxy, and is narrowed to its kind on the way back.
Script code has no other numbers, so what is no double is lost on the way: the long numbers with more than 53
significant bits. All other numbers and characters come back as they were.

* **`Native.ComesBackAs`**: the same number, or one not-a-number for another.
* **`NumericKind.exists_ofDouble?`**, **`Native.fitsDouble_of_comesBack`**: a number that is a double comes back from
  it, and no other one does.
* **`outcome_convert_number`**, **`outcome_convert_boxed`**: what a bare and a boxed number are converted to.
* **`handBack_comesBack`**: the way there and back.
-/

namespace Interop

variable {s : Store} {v w : Native} {kind : NumericKind}

/-! ## Narrowing -/

/-- The number is a double: all are but for some long ones. -/
def Native.FitsDouble : Native → Prop
  | .long n => Interop.FitsDouble n.toInt
  | _ => True

/-- A number comes back as it was. One not-a-number may come back as another, which is equal to it. -/
def Native.ComesBackAs (v w : Native) : Prop :=
  w = v ∨ w.same v = true ∧ ∃ x : Single, v = .float x ∧ x.datum = .nan

/-- Every double is equivalent to itself, the one that is no number too. -/
theorem Double.equivalent_refl (x : Double) : x.equivalent x = true := by
  unfold equivalent sameValue
  cases x.isNaN <;> simp

theorem Native.same_refl (v : Native) : v.same v = true := by
  cases v <;> simp [Native.same, Single.equivalent, Double.equivalent_refl]

/-- What comes back is the same value as far as a container can tell. -/
theorem Native.ComesBackAs.same (h : v.ComesBackAs w) : w.same v = true := by
  rcases h with rfl | ⟨hsame, -⟩
  · exact w.same_refl
  · exact hsame

/-- A whole number in the range of a kind comes back, if it is a double. -/
theorem NumericKind.wholeInRange_ofInt {least greatest n : Int} (hrange : kind.range? = some (least, greatest))
    (hfits : FitsDouble n) (hleast : least ≤ n) (hgreatest : n ≤ greatest) :
    kind.wholeInRange (.ofInt n) = some n := by
  obtain ⟨hlow, hhigh⟩ := range?_bounds hrange
  have htruncate := Double.truncate?_ofInt hfits (by omega)
  exact (wholeInRange_eq_some_iff hrange).mpr ⟨Double.truncate?_eq_some_iff.mp htruncate, hleast, hgreatest⟩

/-- A whole number in the range is what truncation gives, between the bounds of the kind. -/
theorem NumericKind.of_wholeInRange {x : Double} {n : Int} (h : kind.wholeInRange x = some n) :
    x.truncate? = some n ∧ ∃ least greatest, kind.range? = some (least, greatest) ∧ least ≤ n ∧ n ≤ greatest := by
  cases hrange : kind.range? with
  | none => simp [wholeInRange, hrange] at h
  | some range =>
    obtain ⟨least, greatest⟩ := range
    obtain ⟨htruncates, hin⟩ := (wholeInRange_eq_some_iff hrange).mp h
    exact ⟨Double.truncate?_eq_some_iff.mpr htruncates, least, greatest, rfl, hin⟩

/-- A single comes back from the double that it is. -/
theorem Native.comesBackAs_float (x : Single) : (Native.float x).ComesBackAs (.float (.ofDouble x.toDouble)) := by
  obtain ⟨hnumber, hnan⟩ := x.ofDouble_toDouble
  by_cases hdatum : x.datum = .nan
  · refine .inr ⟨?_, x, rfl, hdatum⟩
    have hisNaN : ∀ y : Single, y.datum = .nan → y.toDouble.isNaN = true := fun y hy => by
      rw [Double.isNaN, Single.datum_toDouble_nan hy]
      rfl
    simp [Native.same, Single.equivalent, Double.equivalent, hisNaN x hdatum, hisNaN _ (hnan hdatum)]
  · rw [hnumber hdatum]
    exact .inl rfl

/-- **A number that is a double comes back from it.** -/
theorem NumericKind.exists_ofDouble? (hv : v.numericKind? = some kind) (hfits : v.FitsDouble) :
    ∃ x w, v.toDouble? = some x ∧ kind.ofDouble? x = some w ∧ v.ComesBackAs w := by
  cases v with
  | double x =>
    cases hv
    exact ⟨x, _, rfl, rfl, .inl rfl⟩
  | float x =>
    cases hv
    refine ⟨_, _, rfl, ?_, Native.comesBackAs_float x⟩
    rw [ofDouble?, x.exceedsSingle_toDouble, if_neg Bool.false_ne_true]
  -- each kind lies within its own range, and all but the long ones have few enough bits
  | long n =>
    cases hv
    have hlow := n.le_toInt
    have hhigh := n.toInt_lt
    refine ⟨_, .long n, rfl, ?_, .inl rfl⟩
    rw [ofDouble?, wholeInRange_ofInt rfl hfits (by omega) (by omega), Option.map_some, Int64.ofInt_toInt]
  | int n =>
    cases hv
    have hlow := n.le_toInt
    have hhigh := n.toInt_lt
    refine ⟨_, .int n, rfl, ?_, .inl rfl⟩
    rw [ofDouble?, wholeInRange_ofInt rfl (fitsDouble_of_lt (by omega)) (by omega) (by omega), Option.map_some,
      Int32.ofInt_toInt]
  | short n =>
    cases hv
    have hlow := n.le_toInt
    have hhigh := n.toInt_lt
    refine ⟨_, .short n, rfl, ?_, .inl rfl⟩
    rw [ofDouble?, wholeInRange_ofInt rfl (fitsDouble_of_lt (by omega)) (by omega) (by omega), Option.map_some,
      Int16.ofInt_toInt]
  | byte n =>
    cases hv
    have hlow := n.le_toInt
    have hhigh := n.toInt_lt
    refine ⟨_, .byte n, rfl, ?_, .inl rfl⟩
    rw [ofDouble?, wholeInRange_ofInt rfl (fitsDouble_of_lt (by omega)) (by omega) (by omega), Option.map_some,
      Int8.ofInt_toInt]
  | char u =>
    cases hv
    have hhigh := u.toNat_lt
    refine ⟨_, .char u, rfl, ?_, .inl rfl⟩
    rw [Double.ofNat_eq_ofInt, ofDouble?, wholeInRange_ofInt rfl (fitsDouble_of_lt (by omega)) (by omega) (by omega),
      Option.map_some, ofInt_toNat_unit]
  | _ => cases hv

/-- **No other number does.** -/
theorem Native.fitsDouble_of_comesBack (hv : v.numericKind? = some kind) {x : Double} (hx : v.toDouble? = some x)
    (hw : kind.ofDouble? x = some w) (hback : v.ComesBackAs w) : v.FitsDouble := by
  cases v with
  | long n =>
    cases hv
    cases hx
    obtain ⟨t, hwhole, rfl⟩ := Option.map_eq_some_iff.mp hw
    have hn : Int64.ofInt t = n := by
      rcases hback with hsame | ⟨-, _, hfloat, -⟩
      · exact Native.long.inj hsame
      · cases hfloat
    obtain ⟨htruncate, least, greatest, hrange, hleast, hgreatest⟩ := NumericKind.of_wholeInRange hwhole
    obtain ⟨hlow, hhigh⟩ := NumericKind.range?_bounds hrange
    rw [FitsDouble, ← hn, Int64.toInt_ofInt_of_le (by omega) (by omega)]
    exact Double.fitsDouble_of_truncate? htruncate
  | _ => trivial

/-! ## Conversion -/

section Targets

-- ids are compared as they stand; unfolding one means computing a digest
attribute [local irreducible] TypeId.ofName

/-- The name of a numeric kind is that of a primitive type. -/
theorem primitiveKind?_numeric (kind : NumericKind) :
    PrimitiveKind.ofTypeId? (.ofName kind.name) = some (.numeric kind) := by
  cases kind <;> decide +kernel

theorem targetOf_numeric (t : TypeTable) (kind : NumericKind) : t.targetOf (.numeric kind) = .ok (.numeric kind) := by
  show Except.ok (t.namedTarget (.plain kind.name)) = _
  rw [TypeTable.namedTarget]
  dsimp only [Descriptor.typeId?]
  rw [primitiveKind?_numeric]

theorem isPrimitive_numeric (kind : NumericKind) : (Descriptor.numeric kind).isPrimitive = true := by
  cases kind <;> decide +kernel

end Targets

/-- A script number is narrowed, or refused. -/
theorem outcome_convert_number (kind : NumericKind) (x : Double) (s : Store) :
    (convert (.numeric kind) (.number x)).outcome s
      = (((kind.ofDouble? x).map pure).getD (cannotConvert (.number x) (.numeric kind))).outcome s := by
  have hsome : (rankNumber (.numeric kind)).isNone = false := by cases kind <;> decide
  rw [(ByTables.number x).outcome_convert (targetOf_numeric s.types kind) hsome, convertNumber]

/-- The number behind a proxy is narrowed in the same way. -/
theorem outcome_convert_boxed {r : ObjectRef} {type : Descriptor} {members : Option Membership} {x : Double}
    (hproxy : s.object r = .proxy ⟨.ofInstance, v, type, members⟩) (hx : v.toDouble? = some x)
    (hw : kind.ofDouble? x = some w) : (convert (.numeric kind) (.object r)).outcome s = (.ok w, s) := by
  have hunwrap : s.unwrap? (.object r) = some v := by rw [Store.unwrap?, hproxy]; rfl
  have hconforms : s.conforms v (.numeric kind) = false := by
    unfold Store.conforms
    cases s.memberTypeOf? v <;> rfl
  -- a boxed number has the rank of a conversion, since no instance conforms to a primitive target
  have hrank : (rankTarget (.object r) (.numeric kind)).outcome s = (.ok (.converted (2 + kind.narrowness)), s) := by
    unfold rankTarget
    rw [Eval.outcome_get_bind, Store.kindOf_proxy hproxy, hunwrap]
    dsimp only [ProxyKind.kindOf]
    rw [Option.map_some, Option.getD_some, Store.rankWrapped, hconforms]
    rfl
  obtain ⟨parts, hconvert⟩ := exists_convertBy (d := .numeric kind) (fun _ h => by cases h) (.object r)
  have hsome : (Rank.converted (2 + kind.narrowness)).isNone = false := by cases kind <;> decide
  have hchanged : Rank.converted (2 + kind.narrowness) ≠ .nontrivial := by cases kind <;> decide
  have hany : Target.numeric kind ≠ .any := by rintro ⟨⟩
  rw [hconvert, outcome_convertBy rfl (targetOf_numeric _ kind) hany hrank hsome parts, hunwrap]
  dsimp only
  rw [convertWrapped, if_neg hchanged]
  dsimp only
  rw [hx]
  dsimp only
  rw [pure_bind, hw]
  rfl

/-! ## There and back -/

/-- A number reaches script code bare where its declared type is primitive. -/
theorem Store.wrap_numeric (s : Store) (hv : v.numericKind? = some kind) {x : Double} (hx : v.toDouble? = some x) :
    s.wrap v (.numeric kind) = (.number x, s) := by
  cases v <;> cases hv <;> cases hx <;> simp [wrap, Native.bare, isPrimitive_numeric, Native.toDouble?]

/-- Otherwise the store may ask for a proxy. -/
theorem Store.wrap_boxed (s : Store) (hv : v.numericKind? = some kind) (hwrap : s.wrapPrimitives = true)
    {type : Descriptor} (htype : type.isPrimitive = false) : s.wrap v type = s.addProxy .ofInstance v type := by
  cases v <;> cases hv <;> simp [wrap, hwrap, htype]

/-- What a native number comes back as that script code gets under a declared type and gives back for a kind. -/
def Store.handBack (s : Store) (v : Native) (type : Descriptor) (kind : NumericKind) : Except Stop Native × Store :=
  (convert (.numeric kind) (s.wrap v type).1).outcome (s.wrap v type).2

/-- **Native numbers come back from script code if they are doubles.** A number or character that is handed to script
code under its own primitive type and converted back comes back as it was exactly if it is a double, which all are but
the long numbers with more than 53 significant bits. Where primitives are handed out as proxies, such a number also
comes back from a proxy, whatever the declared type is. -/
theorem handBack_comesBack (s : Store) (hv : v.numericKind? = some kind) :
    ((∃ w s', s.handBack v (.numeric kind) kind = (.ok w, s') ∧ v.ComesBackAs w) ↔ v.FitsDouble) ∧
      (v.FitsDouble → s.wrapPrimitives = true → ∀ type : Descriptor, type.isPrimitive = false →
        ∃ w s', s.handBack v type kind = (.ok w, s') ∧ v.ComesBackAs w) := by
  obtain ⟨x, hx⟩ : ∃ x, v.toDouble? = some x := by cases v <;> cases hv <;> exact ⟨_, rfl⟩
  -- what comes back is the narrowing of the double that the number was turned into
  have hnarrows : v.FitsDouble → ∃ w, kind.ofDouble? x = some w ∧ v.ComesBackAs w := by
    intro hfits
    obtain ⟨x', w, hx', hw, hback⟩ := NumericKind.exists_ofDouble? hv hfits
    obtain rfl := Option.some.inj (hx.symm.trans hx')
    exact ⟨w, hw, hback⟩
  unfold Store.handBack
  rw [s.wrap_numeric hv hx]
  dsimp only
  rw [outcome_convert_number]
  refine ⟨⟨?_, fun hfits => ?_⟩, fun hfits hwrap type htype => ?_⟩
  · rintro ⟨w, s', hok, hback⟩
    cases hnarrow : kind.ofDouble? x with
    | none =>
      rw [hnarrow] at hok
      exact (givesAt_cannotConvert (P := fun _ _ => False) w s' hok).elim
    | some w' =>
      rw [hnarrow] at hok
      obtain rfl : w' = w := Except.ok.inj (congrArg Prod.fst hok)
      exact Native.fitsDouble_of_comesBack hv hx hnarrow hback
  · obtain ⟨w, hw, hback⟩ := hnarrows hfits
    rw [hw]
    exact ⟨w, s, rfl, hback⟩
  · obtain ⟨w, hw, hback⟩ := hnarrows hfits
    rw [s.wrap_boxed hv hwrap htype]
    exact ⟨w, _, outcome_convert_boxed (s.object_addProxy .ofInstance v type) hx hw, hback⟩

/-- The least long number has one significant bit. It comes back, bare and from a proxy. -/
theorem handBack_comesBack_leastLong :
    (∃ s', (Store.standard {} true).handBack (.long (-0x8000000000000000)) (.numeric .long) .long
        = (.ok (.long (-0x8000000000000000)), s')) ∧
      ∃ s', (Store.standard {} true).handBack (.long (-0x8000000000000000)) .object .long
        = (.ok (.long (-0x8000000000000000)), s') := by
  have hfits : (Native.long (-0x8000000000000000)).FitsDouble := ⟨1, 63, by decide, by decide⟩
  have hexact : ∀ w, (Native.long (-0x8000000000000000)).ComesBackAs w → w = .long (-0x8000000000000000) := by
    rintro w (rfl | ⟨-, _, hfloat, -⟩)
    · rfl
    · cases hfloat
  obtain ⟨hbare, hboxed⟩ := handBack_comesBack (v := .long (-0x8000000000000000)) (.standard {} true) rfl
  obtain ⟨w, s₁, hok, hback⟩ := hbare.mpr hfits
  obtain ⟨w', s₂, hok', hback'⟩ := hboxed hfits rfl .object (by decide +kernel)
  rw [hexact w hback] at hok
  rw [hexact w' hback'] at hok'
  exact ⟨⟨s₁, hok⟩, ⟨s₂, hok'⟩⟩

/-- The first whole number that is no double comes back as another one. -/
theorem handBack_firstLost :
    (Native.long 9007199254740993).numericKind? = some .long ∧
      ((Store.standard {} false).handBack (.long 9007199254740993) (.numeric .long) .long).1.toOption
        = some (.long 9007199254740992) ∧
      (Native.long 9007199254740992).same (.long 9007199254740993) = false := by
  refine ⟨rfl, ?_, by decide⟩
  decide +kernel

end Interop
