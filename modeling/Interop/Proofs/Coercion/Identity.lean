import Interop.Proofs.Coercion.Instances
import Interop.Proofs.Store.Reached

/-!
# Crossing the bridge preserves identity

A native object that script code got as a proxy, and a script value that native code got as a handle or an adapter, are
themselves again on the way back. A proxy leads to the value behind it. A script object or function that is no proxy
becomes something new, and of what it becomes only handles and adapters lead back to script code, to the value that was
converted.

* **`convert_of_unwrap?`**, **`Store.unwrap?_wrap`**: proxies, and the objects that get one.
* **`givesAt_adapterFor_adaptsOnly`**, **`givesAt_convert_adaptsOnly`**: an adapter that a conversion gives adapts the
  value that was converted.
* **`convert_preservesIdentity`**: both directions together.
-/

namespace Interop

section Crossing

-- ids are compared as they stand; unfolding one means computing a digest
attribute [local irreducible] TypeId.ofName

variable {s : Store} {v : Script}

/-! ## To native code and back -/

theorem targetOf_object (t : TypeTable) : t.targetOf .object = .ok .object := by
  have hkind : PrimitiveKind.ofTypeId? (.ofName Standard.objectName) = none := by decide +kernel
  show Except.ok (t.namedTarget (.plain Standard.objectName)) = _
  rw [TypeTable.namedTarget, Descriptor.typeId?]
  dsimp only
  rw [hkind]
  exact congrArg Except.ok (if_pos rfl)

/-- To the root type conversion goes by that target, with nothing to convert in the parts. -/
theorem convert_object (v : Script) : convert .object v = convertBy .object ⟨asIs, asIs, fun _ => pure []⟩ v := by
  rw [Descriptor.object, convert]
  all_goals simp

theorem convert_unspecified (v : Script) (s : Store) : (convert .unspecified v).outcome s = (asIs v).outcome s := by
  rw [convert]
  · rfl
  all_goals simp

/-- Every proxy of an object fits the root type: classes by their table, and all others as instances. -/
theorem rankTarget_object_of_unwrap? {r : NativeRef} (hv : s.unwrap? v = some (.object r)) :
    ∃ rank, (rankTarget v .object).outcome s = (.ok rank, s) ∧ rank.isNone = false := by
  obtain ⟨ref, p, rfl, hp, -⟩ := Store.exists_proxy_of_unwrap? hv
  have hinstance : ∀ isArray, s.rankWrapped (.object r) isArray .object = .nontrivial := fun _ => rfl
  unfold rankTarget
  rw [Eval.outcome_get_bind, Store.kindOf_proxy hp, hv]
  cases p.kind with
  | ofClass => exact ⟨_, rfl, rfl⟩
  | _ => exact ⟨_, rfl, by rw [Option.map_some, Option.getD_some, hinstance]; rfl⟩

/-- A proxy of an object becomes the object, for the root type and where no conversion is asked for. -/
theorem convert_of_unwrap? {r : NativeRef} (hv : s.unwrap? v = some (.object r)) :
    (convert .object v).outcome s = (.ok (.object r), s) ∧
      (convert .unspecified v).outcome s = (.ok (.object r), s) := by
  constructor
  · obtain ⟨rank, hrank, hsome⟩ := rankTarget_object_of_unwrap? hv
    rw [convert_object, outcome_convertBy (Store.isSome_identity?_of_unwrap? hv) (targetOf_object _) nofun hrank hsome,
      hv]
    dsimp only
    rw [convertWrapped]
    split <;> rfl
  · obtain ⟨ref, p, rfl, -, -⟩ := Store.exists_proxy_of_unwrap? hv
    rw [convert_unspecified, asIs, Eval.outcome_get_bind, hv]
    rfl

/-- Handles and adapters stand for script values. -/
def NativeObject.standsForScript : NativeObject → Bool
  | handle _ => true
  | adapter _ _ _ _ => true
  | _ => false

/-- Every other object gets a proxy. -/
theorem Store.unwrap?_wrap {r : NativeRef} (hr : (s.native r).standsForScript = false) (type : Descriptor) :
    (s.wrap (.object r) type).2.unwrap? (s.wrap (.object r) type).1 = some (.object r) := by
  have hproxy : ∀ kind type, (s.addProxy kind (.object r) type).2.unwrap? (s.addProxy kind (.object r) type).1 =
      some (.object r) := by
    intro kind type
    simp [addProxy, addObject, unwrap?, object, ScriptObject.native?]
  rw [wrap, wrapObject]
  cases hnative : s.native r with
  | handle value => rw [hnative] at hr; cases hr
  | adapter target interface m key => rw [hnative] at hr; cases hr
  | _ => exact hproxy _ _

/-! ## To script code and back -/

/-- Values with an identity are told apart by it: two of the same identity are one. -/
theorem Script.eq_of_identity? {v w : Script} {identity : Identity} (hv : v.identity? = some identity)
    (hw : w.identity? = some identity) : v = w := by
  cases v <;> cases hv <;> cases w <;> cases hw <;> rfl

/-- A script object or function becomes a handle where the root type is asked for. -/
theorem convert_object_of_identity (hidentity : v.identity?.isSome = true) (hv : s.unwrap? v = none) :
    (convert .object v).outcome s = (.ok (.object (s.addNative (.handle v)).1), (s.addNative (.handle v)).2) := by
  have hrank : (rankTarget v .object).outcome s = (.ok (.converted 3), s) := by
    unfold rankTarget
    rw [Eval.outcome_get_bind]
    cases v with
    | callable r => rfl
    | object r =>
      rw [Store.unwrap?] at hv
      rw [Store.kindOf]
      cases hobject : s.object r with
      | proxy p => rw [hobject] at hv; cases hv
      | _ => rfl
    | _ => cases hidentity
  have hany : Target.object ≠ .any := by simp
  rw [convert_object, outcome_convertBy hidentity (targetOf_object _) hany hrank rfl, hv]
  rfl

/-- The script value that an adapter adapts. -/
def NativeObject.adapted? : NativeObject → Option Script
  | adapter target _ _ _ => some target
  | _ => none

def Store.adapted? (s : Store) : Native → Option Script
  | .object r => (s.native r).adapted?
  | _ => none

/-- An adapter gives back the value that it was made for. -/
theorem Store.adapted?_adapter {r : NativeRef} {target : Script} {interface : Descriptor} {m : Membership}
    {key : Option AdapterKey} (h : s.native r = .adapter target interface m key) : s.adapted? (.object r) = some target := by
  rw [adapted?, h]
  rfl

/-- If a native value is an adapter, it adapts one script value. -/
def Store.AdaptsOnly (s : Store) (v : Script) (n : Native) : Prop := s.adapted? n = none ∨ s.adapted? n = some v

/-- A new native that is no adapter adapts no other value either. -/
theorem givesAt_newNative_adaptsOnly {o : NativeObject} (ho : o.adapted? = none) :
    (Eval.newNative o).GivesAt s fun n s' => s'.AdaptsOnly v n := by
  refine Eval.GivesAt.newNative fun r hr => .inl ?_
  rw [Store.adapted?, hr, ho]

/-- **An adapter that is given for a script value adapts it**, whether it was kept before or is made anew. -/
theorem givesAt_adapterFor_adaptsOnly (hs : s.Reached) (v : Script) (interface : Descriptor) :
    (adapterFor v interface).GivesAt s fun n s' => s'.AdaptsOnly v n := by
  intro n s' h
  have hs' : s'.Reached := (follows_adapterFor v interface).givesAt (D := .reached) hs n s' h
  obtain ⟨id, r, -, rfl, ⟨identity, hidentity, hkept⟩ | ⟨m, key, -, hnew, -⟩⟩ := outcome_adapterFor h
  · -- the one that is kept under the identity of the value adapts a value with this identity
    obtain ⟨target, described, m, key, hadapter, hnamed⟩ := hs'.adaptersNamed _ (mem_of_lookup hkept)
    obtain rfl := Script.eq_of_identity? hnamed hidentity
    exact .inr (Store.adapted?_adapter hadapter)
  · exact .inr (Store.adapted?_adapter hnew)

/-- Conversions of script objects and functions. -/
theorem givesAt_convertGeneric_adaptsOnly (hs : s.Reached) {target : Target} {failure : Eval Native}
    (hfailure : ∀ s P, failure.GivesAt s P) (parts : PartConverters) :
    (convertGeneric v target parts failure).GivesAt s fun n s' => s'.AdaptsOnly v n := by
  refine Eval.GivesAt.read ?_
  dsimp only
  -- an adapter is the only target that adapts; every other one makes a container, a text, a number or a box
  split
  · split
    · exact Eval.GivesAt.bind_any fun natives s₁ => givesAt_newNative_adaptsOnly rfl
    · exact hfailure _ _
  · split
    · exact Eval.GivesAt.bind_any fun natives s₁ => givesAt_newNative_adaptsOnly rfl
    · exact hfailure _ _
  · split
    · exact Eval.GivesAt.bind_any fun m s₁ => givesAt_newNative_adaptsOnly rfl
    · exact hfailure _ _
  · split
    · exact Eval.GivesAt.bind_any fun fields s₁ => givesAt_newNative_adaptsOnly rfl
    · exact hfailure _ _
  · exact givesAt_adapterFor_adaptsOnly hs v _
  · exact givesAt_newNative_adaptsOnly rfl
  · exact givesAt_newNative_adaptsOnly rfl
  · exact Eval.GivesAt.bind_any fun text s₁ => Eval.GivesAt.pure (.inl rfl)
  · exact Eval.GivesAt.bind_any fun x s₁ => Eval.GivesAt.pure (.inl rfl)
  · refine Eval.GivesAt.bind_any fun x s₁ => givesAt_getD hfailure fun n hn => ?_
    have hkind := NumericKind.numericKind?_ofDouble? hn
    cases n with
    | object r => cases hkind
    | _ => exact .inl rfl
  · exact hfailure _ _

/-- What is no proxy is passed as it is, or wrapped anew. -/
theorem givesAt_asIs_adaptsOnly (hv : s.unwrap? v = none) : (asIs v).GivesAt s fun n s' => s'.AdaptsOnly v n := by
  cases v with
  | object r =>
    refine Eval.GivesAt.read ?_
    rw [hv]
    exact givesAt_newNative_adaptsOnly rfl
  | callable r => exact givesAt_newNative_adaptsOnly rfl
  | _ => exact Eval.GivesAt.pure (.inl rfl)

/-- A registry that only settles stays reached: what was looked up and ranked is derived from the rest. -/
theorem Store.Reached.settles {s s' : Store} (hs : s.Reached) (h : s.Settles s') : s'.Reached := by
  obtain ⟨cache, rfl, -⟩ := h
  exact hs.memberCache cache

/-- Types other than unions. -/
theorem givesAt_convert_adaptsOnly_target (hs : s.Reached) (hidentity : v.identity?.isSome = true)
    (hv : s.unwrap? v = none) {d : Descriptor} (hd : ∀ members, d = .union members → False) :
    (convert d v).GivesAt s fun n s' => s'.AdaptsOnly v n := by
  obtain ⟨parts, hconvert⟩ := exists_convertBy hd v
  rw [hconvert]
  refine Eval.GivesAt.read ?_
  cases s.types.targetOf d with
  | error stop =>
    intro n s' h
    cases h
  -- ranking only settles the store, so the value is still no proxy after it
  | ok target =>
    have hranked : (rankTarget v target).GivesAt s fun _ s₁ => s.Settles s₁ :=
      fun _ _ hrun => (rankTarget_repeatable v target).settles hrun
    refine hranked.bind fun rank s₁ hsettles => ?_
    have hgeneric : (convertGeneric v target parts (cannotConvert v d)).GivesAt s₁ fun n s' => s'.AdaptsOnly v n :=
      givesAt_convertGeneric_adaptsOnly (hs.settles hsettles) (fun _ _ => givesAt_cannotConvert) parts
    dsimp only
    split
    · exact givesAt_cannotConvert
    · split
      · exact givesAt_asIs_adaptsOnly ((hsettles.unwrap?_eq v).trans hv)
      · cases v with
        | callable r => exact hgeneric
        | object r =>
          dsimp only
          rw [hv]
          exact hgeneric
        | _ => cases hidentity

mutual

/-- **An adapter that a conversion gives adapts the script value that was converted.** -/
theorem givesAt_convert_adaptsOnly (hidentity : v.identity?.isSome = true) : (d : Descriptor) → ∀ {s : Store},
    s.Reached → s.unwrap? v = none → (convert d v).GivesAt s fun n s' => s'.AdaptsOnly v n
  | .union members, s, hs, hv => by
    rw [convert]
    have hbest : (bestRank v members).GivesAt s fun _ s₁ => s.Settles s₁ :=
      fun _ _ hrun => (bestRank_repeatable v members).settles hrun
    refine hbest.bind fun rank s₁ hs₁ => ?_
    have hranks : (members.mapM (rankOf v)).GivesAt s₁ fun _ s₂ => s.Settles s₂ :=
      fun _ _ hrun => hs₁.trans ((Eval.Repeatable.mapM (rankOf_repeatable v) members).settles hrun)
    split
    · exact givesAt_cannotConvert
    · refine hranks.bind fun ranks s₂ hs₂ => ?_
      split
      · exact givesAt_convertAt_adaptsOnly hidentity members _ (hs.settles hs₂) ((hs₂.unwrap?_eq v).trans hv)
      · exact givesAt_cannotConvert
  | .unspecified, _, hs, hv | .plain _, _, hs, hv | .array _, _, hs, hv | .parameterized _ _, _, hs, hv
  | .enumeration _, _, hs, hv | .interface _ _, _, hs, hv | .typeVar _ _, _, hs, hv | .stringLiteral _, _, hs, hv
  | .numberLiteral _, _, hs, hv | .booleanLiteral _, _, hs, hv | .objectShape _, _, hs, hv
  | .functionShape _ _, _, hs, hv => givesAt_convert_adaptsOnly_target hs hidentity hv (by simp)

theorem givesAt_convertAt_adaptsOnly (hidentity : v.identity?.isSome = true) : (members : List Descriptor) →
    ∀ i {s : Store}, s.Reached → s.unwrap? v = none → (convertAt members i v).GivesAt s fun n s' => s'.AdaptsOnly v n
  | [], _, _, _, hv => by
    rw [convertAt]
    exact givesAt_asIs_adaptsOnly hv
  | d :: _, 0, _, hs, hv => by
    rw [convertAt]
    exact givesAt_convert_adaptsOnly hidentity d hs hv
  | _ :: members, i + 1, _, hs, hv => by
    rw [convertAt]
    exact givesAt_convertAt_adaptsOnly hidentity members i hs hv

end

/-! ## Both directions -/

/-- Conversions lead from reached stores to reached stores. -/
theorem Store.Reached.convert (hs : s.Reached) (d : Descriptor) (v : Script) : ((convert d v).outcome s).2.Reached :=
  (follows_convert (D := .reached) d (.inr fun _ => trivial) v s hs).1

/-- **Crossing the bridge preserves identity.** In every reached store,
* a value that is ranked as an instance of a type becomes what it wraps;
* an object that stands for no script value, once it is wrapped, becomes itself again, for the root type and where no
  conversion is asked for;
* a script object or function that is no proxy comes back as itself from the root type, and from every adapter that a
  conversion of it gives, under whatever type. -/
theorem convert_preservesIdentity (hs : s.Reached) :
    (∀ v d s₁, (rankOf v d).outcome s = (.ok .nontrivial, s₁) →
      s₁ = s ∧ ∃ n, s.unwrap? v = some n ∧ (convert d v).outcome s = (.ok n, s)) ∧
    (∀ r type v s', (s.native r).standsForScript = false → s.wrap (.object r) type = (v, s') →
      (convert .object v).outcome s' = (.ok (.object r), s') ∧
        (convert .unspecified v).outcome s' = (.ok (.object r), s')) ∧
    ∀ v, v.identity?.isSome = true → s.unwrap? v = none →
      (∃ r s', (convert .object v).outcome s = (.ok (.object r), s') ∧
        ∀ type, s'.wrap (.object r) type = (v, s')) ∧
      ∀ d r s' target interface m key, (convert d v).outcome s = (.ok (.object r), s') →
        s'.native r = .adapter target interface m key → ∀ type, s'.wrap (.object r) type = (v, s') := by
  refine ⟨fun v d s₁ h => convert_of_instance h, fun r type v s' hr hwrap => ?_, fun v hidentity hv => ⟨?_, ?_⟩⟩
  · have hunwrap := Store.unwrap?_wrap hr type
    rw [hwrap] at hunwrap
    exact convert_of_unwrap? hunwrap
  · refine ⟨_, _, convert_object_of_identity hidentity hv, fun type => ?_⟩
    rw [Store.wrap, Store.wrapObject, Store.native_addNative]
  · intro d r s' target interface m key h hadapter type
    have honly : s'.AdaptsOnly v (.object r) := givesAt_convert_adaptsOnly hidentity d hs hv _ s' h
    rw [Store.AdaptsOnly, Store.adapted?_adapter hadapter] at honly
    rcases honly with hnone | hsame
    · cases hnone
    · rw [Store.wrap, Store.wrapObject, hadapter, Option.some.inj hsame]

end Crossing

/-! ## A listener -/

def listenerSpec : TypeSpec where
  name := "demo.Listener"
  kind := .ofInterface
  functional := true
  methods := [{ name := "fire", params := [.object], flags := { isAbstract := true } }]

/-- A store with a function, and a list of texts that script code has a proxy of. -/
def Store.listening : Store :=
  let declared := (Store.standard {} false).declare listenerSpec
  let named := (declared.addFunction (.closure "onFire" (.argument 0))).2
  let filled := (named.addNative (.list (.of .list .string [.string "armed"]))).2
  (filled.addProxy (filled.proxyKind (.object ⟨0⟩)) (.object ⟨0⟩) .object).2

theorem Store.reached_listening : listening.Reached := by
  have hdeclared := (Reached.standard {} false).declare listenerSpec
  have hnamed := hdeclared.step (.addFunction _ (.closure "onFire" (.argument 0))) (.of_subset (List.Subset.refl _))
  have hfilled := hnamed.step (.addNative _ (.list (.of .list .string [.string "armed"])))
    (.of_subset (List.Subset.refl _))
  exact hfilled.step (.addProxy _ (.object ⟨0⟩) .object) (.of_subset (List.Subset.refl _))

/-- The store after the function has been passed as a listener. -/
def Store.adapted : Store := ((convert (.interface "demo.Listener" true) (.callable ⟨0⟩)).outcome .listening).2

theorem Store.reached_adapted : adapted.Reached := reached_listening.convert _ _

theorem convert_preservesIdentity_listening :
    (convert (.interface "demo.Listener" true) (.callable ⟨0⟩)).outcome .listening = (.ok (.object ⟨1⟩), .adapted) ∧
      (∀ type, Store.adapted.wrap (.object ⟨1⟩) type = (.callable ⟨0⟩, .adapted)) ∧
      (convert (.union [.string, .union [.plain "demo.Listener", .plain Standard.listName]]) (.object ⟨0⟩)).outcome
        .adapted = (.ok (.object ⟨0⟩), .adapted) := by
  obtain ⟨-, -, hscripts⟩ := convert_preservesIdentity Store.reached_listening
  obtain ⟨hinstances, -, -⟩ := convert_preservesIdentity Store.reached_adapted
  have hrun : (convert (.interface "demo.Listener" true) (.callable ⟨0⟩)).outcome .listening =
      (.ok (.object ⟨1⟩), .adapted) := by
    rw [Store.adapted]
    exact Eval.outcome_of_toOption (by decide +kernel)
  have hmem : ⟨1⟩ ∈ Store.adapted.adapters.map (·.2) := by decide +kernel
  obtain ⟨kept, hkept, hr⟩ := List.mem_map.mp hmem
  obtain ⟨target, interface, m, key, hadapter, -⟩ := Store.reached_adapted.adaptersNamed kept hkept
  rw [hr] at hadapter
  refine ⟨hrun, (hscripts (.callable ⟨0⟩) rfl rfl).2 _ _ _ target interface m key hrun hadapter, ?_⟩
  -- the list is an instance of the second member of the inner union
  obtain ⟨-, n, hn, hconvert⟩ := hinstances (.object ⟨0⟩)
    (.union [.string, .union [.plain "demo.Listener", .plain Standard.listName]]) _
    (Eval.outcome_of_toOption (by decide +kernel))
  obtain rfl : Native.object ⟨0⟩ = n := Option.some.inj hn
  exact hconvert

end Interop
