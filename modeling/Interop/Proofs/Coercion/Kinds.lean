import Interop.Proofs.Coercion.Landing
import Interop.Proofs.TypeTable.Assignability

/-!
# Conversion by kind of value

A script value is converted by its kind: there is one conversion for booleans, numbers and texts each, one for wrapped
values and one for the other objects. A value is ranked first, and its rank says that its kind can be converted to the
target; so whatever is given lands at the target.

* **`givesAt_convertBoolean`**, **`givesAt_convertNumber`**, **`givesAt_convertString`**: primitive script values.
* **`givesAt_convertWrapped`**, **`givesAt_convertGeneric`**: wrapped values and other objects.
* **`givesAt_rankTarget`**: what the rank of a value says.
* **`givesAt_convertBy`**: every conversion lands at its target.
-/

namespace Interop

-- ids are compared as they stand; unfolding one means computing a digest
attribute [local irreducible] TypeId.ofName

variable {t : TypeTable} {s : Store}

/-! ## Kinds of values -/

/-- How a wrapped value that is no class ranks: it is an instance, or becomes text, a number or another list. -/
theorem Store.rankWrapped_cases (s : Store) (native : Native) (isArray : Bool) (target : Target) :
    (s.rankWrapped native isArray target = .nontrivial ∧ s.conforms native target = true) ∨
      (s.rankWrapped native isArray target ≠ .nontrivial ∧
        ((s.rankWrapped native isArray target).isNone = true ∨ target = .string ∨ (∃ kind, target = .numeric kind) ∨
          ∃ raw element l, target = .collection raw element ∧ s.list? native = some l ∧
            s.types.isSubtype l.kind.typeId raw = true)) := by
  unfold rankWrapped
  split
  · next hconforms => exact .inl ⟨rfl, hconforms⟩
  · refine .inr ?_
    split
    · exact ⟨by decide, .inr (.inl rfl)⟩
    · next kind _ =>
      refine ⟨?_, .inr (.inr (.inl ⟨kind, rfl⟩))⟩
      cases isArray <;> cases kind <;> decide
    · next raw element _ =>
      split
      · next l hlist =>
        split
        · next hsub => exact ⟨by decide, .inr (.inr (.inr ⟨raw, element, l, rfl, hlist, hsub⟩))⟩
        · exact ⟨by decide, .inl rfl⟩
      · exact ⟨by decide, .inl rfl⟩
    · exact ⟨by decide, .inl rfl⟩

/-- A proxy of a class lands as the class, or as its text. -/
theorem givesAt_convertWrapped_class {target : Target} {failure : Eval Native} {v : Script} {n : NativeRef}
    {type : Descriptor} (hn : s.native n = .classRef type) (hrank : (rankClass target).isNone = false)
    (parts : PartConverters) :
    (convertWrapped v (.object n) (rankClass target) target parts failure).GivesAt s fun n s' =>
      target.Lands t s' n := by
  unfold convertWrapped
  have hne : rankClass target ≠ .nontrivial := by cases target <;> rintro ⟨⟩
  rw [if_neg hne]
  cases target with
  | classRef =>
    refine Eval.GivesAt.pure ?_
    rintro _ ⟨⟩
    refine ⟨Standard.class_, ?_, t.isSubtype_refl _⟩
    rw [Store.memberTypeOf?, hn]
    rfl
  | object => exact Eval.GivesAt.pure (lands_object _ s _)
  | string =>
    refine Eval.GivesAt.bind_any fun text s₁ => ?_
    exact Eval.GivesAt.pure (lands_string t s₁ text)
  | _ => cases hrank

section Kinds

variable {target : Target} {failure : Eval Native} (hfailure : ∀ s P, failure.GivesAt s P)
include hfailure

/-- An optional result lands where the one it may have does. -/
theorem givesAt_getD {result : Option Native} {P : Native → Store → Prop} (h : ∀ n, result = some n → P n s) :
    ((result.map pure).getD failure).GivesAt s P := by
  cases result with
  | none => exact hfailure s P
  | some n => exact Eval.GivesAt.pure (h n rfl)

theorem givesAt_convertBoolean {b : Bool} (hrank : (rankBoolean target).isNone = false) :
    (convertBoolean b target failure).GivesAt s fun n s' => target.Lands t s' n := by
  cases target with
  | boolean => exact Eval.GivesAt.pure ⟨b, rfl⟩
  | string => exact Eval.GivesAt.pure (lands_string t s _)
  | booleanLiteral expected =>
    rw [convertBoolean]
    split
    · exact Eval.GivesAt.pure (by rintro _ ⟨⟩)
    · exact hfailure _ _
  | object => exact Eval.GivesAt.pure (lands_object _ s _)
  | _ => cases hrank

/-- A number lands where its rank lets it: as a number, a text, a constant or a box. -/
theorem givesAt_convertNumber (hs : s.Bridge) {x : Double} (hrank : (rankNumber target).isNone = false) :
    (convertNumber x target failure).GivesAt s fun n s' => target.Lands s.types s' n := by
  cases target with
  | numeric kind => exact givesAt_getD hfailure fun n hn => NumericKind.numericKind?_ofDouble? hn
  | enumeration name =>
    intro n s' h id hid
    cases hid
    exact ⟨_, givesAt_constantByOrdinal hs name x n s' h, s.types.isSubtype_refl _⟩
  | string => exact Eval.GivesAt.pure (lands_string _ s _)
  | number => exact Eval.GivesAt.pure (lands_number _ s _)
  | numberLiteral expected =>
    rw [convertNumber]
    split
    · exact Eval.GivesAt.pure (by rintro _ ⟨⟩)
    · exact hfailure _ _
  | object => exact Eval.GivesAt.pure (lands_object _ s _)
  | _ => cases hrank

/-- A text lands where its rank lets it: as a text, a number, a character or a constant. -/
theorem givesAt_convertString (hs : s.Bridge) {text : String} (hrank : (rankString target).isNone = false) :
    (convertString text target failure).GivesAt s fun n s' => target.Lands s.types s' n := by
  cases target with
  | numeric kind =>
    cases kind with
    | char => exact givesAt_getD hfailure fun n hn => numericKind?_parseChar hn
    | _ => exact givesAt_getD hfailure fun n hn => NumericKind.numericKind?_parse hn
  | enumeration name =>
    intro n s' h id hid
    cases hid
    exact ⟨_, givesAt_constantByName hs name text n s' h, s.types.isSubtype_refl _⟩
  | string => exact Eval.GivesAt.pure (lands_string _ s _)
  | charSequence =>
    refine Eval.GivesAt.pure ?_
    rintro _ ⟨⟩
    exact ⟨Standard.string, rfl, hs.regular.isSubtype_charSequence⟩
  | stringLiteral expected =>
    rw [convertString]
    split
    · exact Eval.GivesAt.pure (by rintro _ ⟨⟩)
    · exact hfailure _ _
  | object => exact Eval.GivesAt.pure (lands_object _ s _)
  | _ => cases hrank

/-- A wrapped value that is no class: it comes through as it is if it is an instance. -/
theorem givesAt_convertWrapped {v : Script} {native : Native} {isArray : Bool}
    (hrank : (s.rankWrapped native isArray target).isNone = false) (parts : PartConverters) :
    (convertWrapped v native (s.rankWrapped native isArray target) target parts failure).GivesAt s fun n s' =>
      target.Lands s.types s' n := by
  unfold convertWrapped
  rcases s.rankWrapped_cases native isArray target with ⟨hnontrivial, hconforms⟩ | ⟨hchanged, hways⟩
  · rw [if_pos hnontrivial]
    exact Eval.GivesAt.pure (lands_of_conforms rfl hconforms)
  · rw [if_neg hchanged]
    -- what is no instance becomes text, a number, or a list of another kind
    rcases hways with hnone | rfl | ⟨kind, rfl⟩ | ⟨raw, element, l, rfl, hlist, hsub⟩
    · rw [hnone] at hrank
      cases hrank
    · refine Eval.GivesAt.bind_any fun text s₁ => ?_
      exact Eval.GivesAt.pure (lands_string s.types s₁ text)
    · have hnumber : ∀ (x : Double) (s₁ : Store),
          (((kind.ofDouble? x).map pure).getD failure).GivesAt s₁ fun n s' =>
            (Target.numeric kind).Lands s.types s' n :=
        fun x s₁ => givesAt_getD hfailure fun n hn => NumericKind.numericKind?_ofDouble? hn
      dsimp only
      split
      · exact hnumber _ s
      · exact Eval.GivesAt.bind_any fun x s₁ => hnumber x s₁
    · refine Eval.GivesAt.read ?_
      rw [hlist]
      refine Eval.GivesAt.bind_any fun elements s₁ => ?_
      exact givesAt_newList (isSubtype_kindFor hsub)

/-- A script object, array or function. -/
theorem givesAt_convertGeneric (hs : s.Bridge) (v : Script) (parts : PartConverters)
    (hraw : ∀ raw element, target = .collection raw element →
      raw = Standard.list ∨ raw = Standard.set ∨ raw = Standard.collection) :
    (convertGeneric v target parts failure).GivesAt s fun n s' => target.Lands s.types s' n := by
  refine Eval.GivesAt.read ?_
  dsimp only
  split
  · next component =>
    split
    · refine Eval.GivesAt.bind_any fun natives s₁ => ?_
      refine Eval.GivesAt.newNative fun r hr => ⟨⟨component, natives⟩, ?_, s.types.isAssignable_refl _⟩
      rw [Store.array?, hr]
    · exact hfailure _ _
  · next raw element =>
    split
    · refine Eval.GivesAt.bind_any fun natives s₁ => ?_
      refine givesAt_newList ?_
      -- each of the three types has a kind of collection that is made for it
      rcases hraw raw element rfl with rfl | rfl | rfl
      · exact isSubtype_kindFor (s.types.isSubtype_refl _)
      · rw [kindFor, if_neg (by decide +kernel), if_pos rfl]
        exact s.types.isSubtype_refl _
      · exact isSubtype_kindFor hs.regular.isSubtype_collection
    · exact hfailure _ _
  · split
    · refine Eval.GivesAt.bind_any fun m s₁ => ?_
      refine Eval.GivesAt.newNative fun r hr => ?_
      rintro _ ⟨⟩
      refine ⟨Standard.map, ?_, s.types.isSubtype_refl _⟩
      rw [Store.memberTypeOf?, hr]
      rfl
    · exact hfailure _ _
  · rintro _ _ _ _ ⟨⟩
  · next d =>
    intro n s' h id hid
    exact ⟨id, givesAt_adapterFor hs v d n s' h id hid, s.types.isSubtype_refl _⟩
  · rintro _ _ _ _ ⟨⟩
  · rintro _ _ _ _ ⟨⟩
  · refine Eval.GivesAt.bind_any fun text s₁ => ?_
    exact Eval.GivesAt.pure (lands_string _ s₁ text)
  · refine Eval.GivesAt.bind_any fun x s₁ => ?_
    exact Eval.GivesAt.pure (lands_number _ s₁ x)
  · refine Eval.GivesAt.bind_any fun x s₁ => ?_
    exact givesAt_getD hfailure fun n hn => NumericKind.numericKind?_ofDouble? hn
  · exact hfailure _ _

end Kinds

/-! ## All values -/

theorem Store.kindOf_proxy {r : ObjectRef} {p : Proxy} (hp : s.object r = .proxy p) :
    s.kindOf (.object r) = p.kind.kindOf := by
  rw [kindOf, hp]
  rfl

/-- Only a proxy can be unwrapped, and what comes out is what it wraps. -/
theorem Store.exists_proxy_of_unwrap? {v : Script} {n : Native} (hv : s.unwrap? v = some n) :
    ∃ r p, v = .object r ∧ s.object r = .proxy p ∧ p.value = n := by
  cases v with
  | object r =>
    rw [unwrap?] at hv
    cases hobject : s.object r with
    | proxy p =>
      rw [hobject] at hv
      exact ⟨r, p, rfl, hobject, Option.some.inj hv⟩
    | _ =>
      rw [hobject] at hv
      cases hv
  | _ => cases hv

/-- What the rank of a value against a target says; wrapped values are ranked without a look-up. -/
def RankedAs (s s₁ : Store) (target : Target) (rank : Rank) : Script → Prop
  | .undefined => rank.isNone = false → target = .string ∨ target = .object
  | .null => rank.isNone = false → target.takesNull = true
  | .boolean _ => rank = rankBoolean target
  | .number _ => rank = rankNumber target
  | .string _ => rank = rankString target
  | .callable _ => True
  | .object r => ∀ p, s.object r = .proxy p → s₁ = s ∧
      (p.kind = .ofClass ∧ rank = rankClass target ∨ ∃ isArray, rank = s.rankWrapped p.value isArray target)

/-- Ranking keeps the bridge, and what it says of a value is still so after it. -/
theorem givesAt_rankTarget (hs : s.Bridge) {target : Target} (hany : target ≠ .any) (v : Script) :
    (rankTarget v target).GivesAt s fun rank s₁ => s₁.Bridge ∧ s₁.types = s.types ∧
      RankedAs s s₁ target rank v := by
  have hranked : (rankTarget v target).GivesAt s fun rank s₁ => RankedAs s s₁ target rank v := by
    refine Eval.GivesAt.read ?_
    split
    · exact absurd rfl hany
    · cases v with
      | undefined =>
        dsimp only [Store.kindOf]
        split
        · exact Eval.GivesAt.pure fun _ => .inl rfl
        · exact Eval.GivesAt.pure fun _ => .inr rfl
        · exact Eval.GivesAt.pure nofun
      | null =>
        refine Eval.GivesAt.pure fun hrank => ?_
        by_contra hnull
        rw [if_neg hnull] at hrank
        cases hrank
      | boolean b => exact Eval.GivesAt.pure rfl
      | number x => exact Eval.GivesAt.pure rfl
      | string text => exact Eval.GivesAt.pure rfl
      | callable r => exact fun _ _ _ => trivial
      | object r =>
        intro rank s₁ hrun p hp
        have hvalue : s.unwrap? (.object r) = some p.value := by rw [Store.unwrap?, hp]; rfl
        rw [Store.kindOf_proxy hp, hvalue] at hrun
        -- instances, lists, maps, arrays and classes, in this order
        cases hproxy : p.kind <;> rw [hproxy] at hrun <;> cases hrun
        · exact ⟨rfl, .inr ⟨false, rfl⟩⟩
        · exact ⟨rfl, .inr ⟨false, rfl⟩⟩
        · exact ⟨rfl, .inr ⟨false, rfl⟩⟩
        · exact ⟨rfl, .inr ⟨true, rfl⟩⟩
        · exact ⟨rfl, .inl ⟨rfl, rfl⟩⟩
  intro rank s₁ hrun
  have hfollows : (rankTarget v target).Follows (Discipline.bridge s.types) := follows_rankTarget v target
  obtain ⟨hbridge, htypes⟩ := hfollows.givesAt ⟨hs, rfl⟩ rank s₁ hrun
  exact ⟨hbridge, htypes, hranked rank s₁ hrun⟩

/-- **Every conversion lands at its target**, or gives null where the target takes null. -/
theorem givesAt_convertBy (hs : s.Bridge) {d : Descriptor} {target : Target} (htarget : s.types.targetOf d = .ok target)
    (hany : target ≠ .any) (hraw : ∀ raw element, target = .collection raw element →
      raw = Standard.list ∨ raw = Standard.set ∨ raw = Standard.collection) (parts : PartConverters) (v : Script) :
    (convertBy d parts v).GivesAt s fun n s' =>
      (n = .null ∧ target.takesNull = true) ∨ target.Lands s.types s' n := by
  have hfailure : ∀ s P, (cannotConvert v d : Eval Native).GivesAt s P := fun _ _ => givesAt_cannotConvert
  refine Eval.GivesAt.read ?_
  rw [htarget]
  refine (givesAt_rankTarget hs hany v).bind fun rank s₁ ⟨hs₁, htypes, hranked⟩ => ?_
  -- ranking may have looked up members, but the types are still the same
  have hlands : ∀ {x : Eval Native}, (x.GivesAt s₁ fun n s' => target.Lands s₁.types s' n) →
      x.GivesAt s₁ fun n s' => (n = .null ∧ target.takesNull = true) ∨ target.Lands s.types s' n := by
    intro x hx n s' h
    rw [← htypes]
    exact .inr (hx n s' h)
  dsimp only
  split
  · exact hfailure _ _
  · next hrank =>
    replace hrank : rank.isNone = false := by simpa using hrank
    split
    · exact absurd rfl hany
    · cases v with
      | undefined =>
        refine hlands (Eval.GivesAt.pure ?_)
        rcases hranked hrank with rfl | rfl
        · exact lands_string _ s₁ _
        · exact nofun
      | null => exact Eval.GivesAt.pure (.inl ⟨rfl, hranked hrank⟩)
      | boolean b =>
        rw [hranked] at hrank
        exact hlands (givesAt_convertBoolean hfailure hrank)
      | number x =>
        rw [hranked] at hrank
        exact hlands (givesAt_convertNumber hfailure hs₁ hrank)
      | string text =>
        rw [hranked] at hrank
        exact hlands (givesAt_convertString hfailure hs₁ hrank)
      | callable r => exact hlands (givesAt_convertGeneric hfailure hs₁ _ parts hraw)
      | object r =>
        dsimp only
        split
        · next native hnative =>
          obtain ⟨_, p, hobject, hp, rfl⟩ := Store.exists_proxy_of_unwrap? hnative
          cases hobject
          -- a wrapped value was ranked in this very store, a class by a table of its own
          obtain ⟨rfl, ⟨hkind, rfl⟩ | ⟨isArray, rfl⟩⟩ := hranked p hp
          · obtain ⟨n, type, hvalue, hclass⟩ := hs.regular.proxies r p hp hkind
            rw [hvalue]
            exact hlands (givesAt_convertWrapped_class hclass hrank parts)
          · exact hlands (givesAt_convertWrapped hfailure hrank parts)
        · exact hlands (givesAt_convertGeneric hfailure hs₁ _ parts hraw)

end Interop
