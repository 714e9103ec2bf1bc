import Interop.Coercion.Ranking
import Interop.Proofs.Store.Settling
import Interop.Proofs.TypeTable.Assignability

/-!
# What a rank depends on

The rank of a value against a type depends on little. It can be asked for again at any later time, since the only
effect of ranking is to look up members of interfaces, and it is one and the same for types that are the same.

* **`rankOf_repeatable`**: ranking is repeatable.
* **`rankOf_canonical`**: a rank is a property of the canonical form of a type.
* **`Store.grade`**: the rank as a function, in a store that has settled what ranking asks for.
-/

namespace Interop

-- ids are compared as they stand; unfolding one means computing a digest
attribute [local irreducible] TypeId.ofName

/-! ## Ranking again

Ranking reads types, natives and script objects, none of which it changes. -/

/-- Asking again for an implementation gives the same answer. -/
theorem canImplement_repeatable (interface : Descriptor) (isFunction : Bool) :
    (canImplement interface isFunction).Repeatable := by
  rw [canImplement]
  cases interface.typeId? with
  | none => exact .pure false
  | some id =>
    refine (Eval.Repeatable.attempt (.membersOf id false)).bind fun result => ?_
    cases result with
    | error _ => exact .pure false
    | ok members => exact .pure _

theorem rankScript_repeatable (kind : ValueKind) (target : Target) : (rankScript kind target).Repeatable := by
  rw [rankScript.eq_def]
  split
  case h_6 d => exact (canImplement_repeatable d true).bind fun _ => .pure _
  case h_7 d => exact (canImplement_repeatable d false).bind fun _ => .pure _
  all_goals exact .pure _

/-- Ranking against a target can be repeated: the members it looks at are kept. -/
theorem rankTarget_repeatable (v : Script) (target : Target) : (rankTarget v target).Repeatable := by
  unfold rankTarget
  refine .get_bind (fun _ _ _ => rfl) fun s => ?_
  split
  · exact .pure _
  · split
    case h_9 => exact rankScript_repeatable _ _
    case h_1 => split <;> exact .pure _
    all_goals exact .pure _

/-- The rank against a type that is no union is the rank against its target. -/
theorem rankOf_eq {d : Descriptor} (h : ∀ members, d = .union members → False) (v : Script) :
    rankOf v d = get >>= fun s => Eval.ofResult (s.types.targetOf d) >>= rankTarget v := by
  rw [rankOf.eq_2 v d h]

mutual

/-- Ranking a value again gives the same rank and changes nothing. -/
theorem rankOf_repeatable (v : Script) : (d : Descriptor) → (rankOf v d).Repeatable
  | .union members => by
    rw [rankOf]
    exact bestRank_repeatable v members
  | .unspecified | .plain _ | .array _ | .parameterized _ _ | .enumeration _ | .interface _ _ | .typeVar _ _
  | .stringLiteral _ | .numberLiteral _ | .booleanLiteral _ | .objectShape _ | .functionShape _ _ => by
    rw [rankOf_eq (by simp)]
    exact .get_bind (fun _ _ _ => rfl) fun s => (Eval.Repeatable.ofResult _).bind fun _ => rankTarget_repeatable v _

theorem bestRank_repeatable (v : Script) : (members : List Descriptor) → (bestRank v members).Repeatable
  | [] => by
    rw [bestRank]
    exact .pure _
  | d :: ds => by
    rw [bestRank]
    exact (rankOf_repeatable v d).bind fun _ => (bestRank_repeatable v ds).bind fun _ => .pure _

end

/-! ## Ranks and sameness

A target holds descriptors: components, element types and interfaces. Ranking asks for their ids and for assignability
between them, both of which the canonical form of a descriptor decides. -/

namespace Descriptor

@[simp] theorem isInterface_canonical (d : Descriptor) : d.canonical.isInterface = d.isInterface := by
  rw [isInterface, isInterface, erase_canonical]
  cases d.erase <;> rfl

/-- Spelling out a list of types is spelling out each of them. -/
theorem canonicalAll_eq_map : (ds : List Descriptor) → canonicalAll ds = ds.map canonical
  | [] => rfl
  | d :: ds => by rw [canonicalAll, List.map_cons, canonicalAll_eq_map ds]

/-- The arguments of a type are spelled out with it. -/
theorem argument_canonical (i : Nat) (d : Descriptor) : d.canonical.argument i = (d.argument i).canonical := by
  cases d with
  | parameterized raw args =>
    rw [canonical, argument, argument, canonicalAll_eq_map, List.getD_eq_getElem?_getD, List.getD_eq_getElem?_getD,
      List.getElem?_map]
    cases args[i]? <;> rfl
  | _ => rfl

end Descriptor

/-- The target with the canonical forms of the descriptors in it. -/
def Target.canonical : Target → Target
  | .array component => .array component.canonical
  | .collection raw element => .collection raw element.canonical
  | .map key value => .map key.canonical value.canonical
  | .interface type => .interface type.canonical
  | .numberLiteral value => .numberLiteral value.canonical
  | .objectShape fields => .objectShape (Descriptor.canonicalFields fields)
  | .union members => .union (Descriptor.canonicalAll members)
  | target => target

/-- A choice of targets comes to the same where both ways do. -/
theorem Target.canonical_ite_congr {p : Prop} [Decidable p] {a a' b b' : Target} (ha : a.canonical = a'.canonical)
    (hb : b.canonical = b'.canonical) : (if p then a else b).canonical = (if p then a' else b').canonical := by
  split
  · exact ha
  · exact hb

/-- Same types are same targets. -/
theorem TypeTable.namedTarget_canonical (t : TypeTable) (d : Descriptor) :
    (t.namedTarget d.canonical).canonical = (t.namedTarget d).canonical := by
  rw [namedTarget, namedTarget, Descriptor.typeId?_canonical, Descriptor.argument_canonical,
    Descriptor.argument_canonical, Descriptor.isInterface_canonical, Descriptor.erase_canonical]
  cases d.typeId? with
  | none => rfl
  | some id =>
    dsimp only
    split <;> try rfl
    -- the two differ only where a descriptor is put into the target
    iterate 5 refine Target.canonical_ite_congr rfl ?_
    refine Target.canonical_ite_congr (congrArg (Target.collection id) (Descriptor.canonical_canonical _)) ?_
    refine Target.canonical_ite_congr ?_ (Target.canonical_ite_congr ?_ rfl)
    · simp only [Target.canonical, Descriptor.canonical_canonical]
    · exact congrArg Target.interface (Descriptor.canonical_canonical _)

/-- Two spellings of a type have the same target, up to the spelling of its parts. -/
theorem TypeTable.targetOf_canonical (t : TypeTable) (d : Descriptor) :
    (t.targetOf d.canonical).map Target.canonical = (t.targetOf d).map Target.canonical := by
  cases d with
  | plain _ | parameterized _ _ | interface _ _ =>
    exact congrArg Except.ok (t.namedTarget_canonical _)
  | unspecified | enumeration _ | stringLiteral _ | booleanLiteral _ | functionShape _ _ | typeVar _ _ => rfl
  | array c => exact congrArg (Except.ok ∘ Target.array) (Descriptor.canonical_canonical c)
  | numberLiteral x => exact congrArg (Except.ok ∘ Target.numberLiteral) (Double.canonical_canonical x)
  | union members => exact congrArg (Except.ok ∘ Target.union) (Descriptor.canonicalAll_canonicalAll members)
  | objectShape fields =>
    exact congrArg (Except.ok ∘ Target.objectShape) (Descriptor.canonicalFields_canonicalFields fields)

/-- Element types are compared by their ids, which spelling does not touch. -/
theorem elementsFit_canonical (wanted actual : Descriptor) :
    elementsFit wanted.canonical actual = elementsFit wanted actual := by
  rw [elementsFit, elementsFit, Descriptor.typeId?_canonical]

theorem Store.conforms_canonical (s : Store) (v : Native) (target : Target) :
    s.conforms v target.canonical = s.conforms v target := by
  rw [conforms.eq_def, conforms.eq_def]
  cases s.memberTypeOf? v with
  | none => rfl
  | some source =>
    cases target with
    | array component =>
      have hassign : ∀ a : Descriptor,
          s.types.isAssignable (.array component.canonical) a = s.types.isAssignable (.array component) a := by
        intro a
        exact s.types.isAssignable_congr (by simp [Descriptor.canonical]) rfl
      simp only [Target.canonical, hassign]
    | interface type => simp only [Target.canonical, Descriptor.typeId?_canonical]
    | collection raw element => simp only [Target.canonical, elementsFit_canonical]
    | map key value => simp only [Target.canonical, elementsFit_canonical]
    | _ => rfl

theorem canImplement_canonical (interface : Descriptor) (isFunction : Bool) :
    canImplement interface.canonical isFunction = canImplement interface isFunction := by
  rw [canImplement, canImplement, Descriptor.typeId?_canonical]

theorem rankTarget_canonical (v : Script) (target : Target) : rankTarget v target.canonical = rankTarget v target := by
  have hwrapped : ∀ (s : Store) (n : Native) (isArray : Bool),
      s.rankWrapped n isArray target.canonical = s.rankWrapped n isArray target := by
    intro s n isArray
    rw [Store.rankWrapped.eq_def, Store.rankWrapped.eq_def, s.conforms_canonical]
    cases target <;> rfl
  have hscript : ∀ kind, rankScript kind target.canonical = rankScript kind target := by
    intro kind
    cases target with
    | interface type => cases kind <;> simp [Target.canonical, rankScript, canImplement_canonical, rankGeneric]
    | _ => cases kind <;> rfl
  unfold rankTarget
  simp only [hwrapped, hscript]
  cases target <;> rfl

mutual

/-- A rank is the same for all types that are the same. -/
theorem rankOf_canonical (v : Script) : (d : Descriptor) → rankOf v d.canonical = rankOf v d
  | .union members => by
    rw [Descriptor.canonical, rankOf, rankOf]
    exact bestRank_canonical v members
  | .unspecified | .plain _ | .array _ | .parameterized _ _ | .enumeration _ | .interface _ _ | .typeVar _ _
  | .stringLiteral _ | .numberLiteral _ | .booleanLiteral _ | .objectShape _ | .functionShape _ _ => by
    -- the target may as well be taken in canonical form
    have hresult : ∀ result : Except Stop Target, (Eval.ofResult result >>= rankTarget v)
        = (Eval.ofResult (result.map Target.canonical) >>= rankTarget v) := by
      rintro (stop | target)
      · rfl
      · exact (rankTarget_canonical v target).symm
    rw [rankOf_eq (by simp [Descriptor.canonical]), rankOf_eq (by simp)]
    refine bind_congr fun s => ?_
    rw [hresult, TypeTable.targetOf_canonical, ← hresult]

theorem bestRank_canonical (v : Script) :
    (members : List Descriptor) → bestRank v (Descriptor.canonicalAll members) = bestRank v members
  | [] => rfl
  | d :: ds => by
    rw [Descriptor.canonicalAll, bestRank, bestRank, rankOf_canonical v d, bestRank_canonical v ds]

end

/-! ## Ranks as a function -/

/-- The rank of a value in a store where everything that ranking asks for is settled. -/
def Store.grade (s : Store) (v : Script) (d : Descriptor) : Rank := ((rankOf v d).outcome s).1.toOption.getD .none

theorem Store.grade_of_outcome {s s' : Store} {v : Script} {d : Descriptor} {rank : Rank}
    (h : (rankOf v d).outcome s = (.ok rank, s')) : s.grade v d = rank := by
  rw [grade, h]
  rfl

/-- Same types have the same grade. -/
theorem Store.grade_congr (s : Store) (v : Script) {d d' : Descriptor} (h : d.canonical = d'.canonical) :
    s.grade v d = s.grade v d' := by
  rw [grade, grade, ← rankOf_canonical v d, h, rankOf_canonical]

/-! ## Ranks and values

Of a script value ranking sees the kind, and of the native value behind a proxy the type and the element types of a
container. An element type without an id ranks as the root type does; not so the component of an array. -/

structure Sight where
  type : Option TypeId
  component : Option Descriptor
  elements : Option (TypeId × TypeId)
  entries : Option (TypeId × TypeId)

/-- What ranking sees of a native value. -/
def Store.sight (s : Store) (v : Native) : Sight where
  type := s.memberTypeOf? v
  component := (s.array? v).map fun a => a.component.erase.canonical
  elements := (s.list? v).map fun l => (l.kind.typeId, l.elementType.typeId?.getD Standard.object)
  entries := (s.map? v).map fun m =>
    (m.keyType.typeId?.getD Standard.object, m.valueType.typeId?.getD Standard.object)

/-- The element test reads no more than the ids, the one without counting as the root type. -/
theorem elementsFit_eq (wanted actual : Descriptor) :
    elementsFit wanted actual
      = wanted.typeId?.all fun id => id == Standard.object || actual.typeId?.getD Standard.object == id := by
  unfold elementsFit
  cases wanted.typeId? with
  | none => rfl
  | some id =>
    cases actual.typeId? with
    | none =>
      show (id == Standard.object || false) = (id == Standard.object || Standard.object == id)
      rw [BEq.comm (a := Standard.object), Bool.or_false, Bool.or_self]
    | some actualId => simp

/-- Optional values that look the same are both missing, or both there. -/
theorem cases_of_map_eq {f : α → γ} {g : β → γ} {x : Option α} {y : Option β} (h : x.map f = y.map g) :
    (x = none ∧ y = none) ∨ ∃ a b, x = some a ∧ y = some b ∧ f a = g b := by
  cases x with
  | none => exact .inl ⟨rfl, Option.map_eq_none_iff.mp h.symm⟩
  | some a =>
    obtain ⟨b, hb, hfb⟩ := Option.map_eq_some_iff.mp h.symm
    exact .inr ⟨a, b, rfl, hb, hfb.symm⟩

/-! ### Two stores

The same bridge may stand between other values, or between the same values with other content. Ranking needs the types
and the collected members of the bridge and what it sees of the value, so these two have to agree and nothing else. -/

/-- Two stores over the same types and switches, where the same members have been collected. -/
structure Store.SameBridge (s s' : Store) : Prop where
  types : s'.types = s.types
  config : s'.config = s.config
  memberCache : s'.memberCache = s.memberCache

theorem Store.SameBridge.refl (s : Store) : s.SameBridge s := ⟨rfl, rfl, rfl⟩

/-- A value of one store and a value of another that ranking does not tell apart. -/
structure Store.LooksLike (s : Store) (u : Script) (s' : Store) (v : Script) : Prop where
  kind : s.kindOf u = s'.kindOf v
  sight : (s.unwrap? u).map s.sight = (s'.unwrap? v).map s'.sight

/-- What looks alike keeps looking alike while both stores only settle. -/
theorem Store.LooksLike.settles {s s₁ s' s₁' : Store} {u v : Script} (h : s.LooksLike u s' v) (hs : s.Settles s₁)
    (hs' : s'.Settles s₁') : s₁.LooksLike u s₁' v := by
  obtain ⟨r, rfl, -⟩ := hs
  obtain ⟨r', rfl, -⟩ := hs'
  exact ⟨h.kind, h.sight⟩

/-- Whether a native conforms to a target is decided by what can be seen of it. -/
theorem Store.conforms_of_sight {s s' : Store} (htypes : s'.types = s.types) {u v : Native}
    (h : s.sight u = s'.sight v) (target : Target) : s.conforms u target = s'.conforms v target := by
  simp only [sight, Sight.mk.injEq] at h
  obtain ⟨htype, harray, hlist, hmap⟩ := h
  unfold conforms
  rw [htype, htypes]
  cases s'.memberTypeOf? v with
  | none => rfl
  | some source =>
    -- a target that looks into a container looks at the part of the sight for such containers
    cases target with
    | array component =>
      dsimp only
      obtain ⟨hu, hv⟩ | ⟨a, b, hu, hv, hcomponent⟩ := cases_of_map_eq harray <;> rw [hu, hv]
      dsimp only
      rw [TypeTable.isAssignable_arrays, TypeTable.isAssignable_arrays, ← TypeTable.isAssignableErased_canonical,
        ← TypeTable.isAssignableErased_canonical _ _ (Descriptor.array _)]
      simp only [Descriptor.canonical, hcomponent]
    | collection raw element =>
      dsimp only
      obtain ⟨hu, hv⟩ | ⟨l, l', hu, hv, heq⟩ := cases_of_map_eq hlist <;> rw [hu, hv]
      obtain ⟨-, helement⟩ := Prod.mk.inj heq
      simp only [elementsFit_eq, helement]
    | map key value =>
      dsimp only
      obtain ⟨hu, hv⟩ | ⟨m, m', hu, hv, heq⟩ := cases_of_map_eq hmap <;> rw [hu, hv]
      obtain ⟨hkey, hvalue⟩ := Prod.mk.inj heq
      simp only [elementsFit_eq, hkey, hvalue]
    | _ => rfl

theorem Store.rankWrapped_of_sight {s s' : Store} (htypes : s'.types = s.types) {u v : Native}
    (h : s.sight u = s'.sight v) (isArray : Bool) (target : Target) :
    s.rankWrapped u isArray target = s'.rankWrapped v isArray target := by
  unfold rankWrapped
  rw [conforms_of_sight htypes h]
  cases target with
  | collection raw element =>
    obtain ⟨hu, hv⟩ | ⟨l, l', hu, hv, heq⟩ := cases_of_map_eq (congrArg Sight.elements h) <;> rw [hu, hv]
    obtain ⟨hkind, -⟩ := Prod.mk.inj heq
    simp only [hkind, htypes]
  | _ => rfl

namespace Eval

/-- Two computations in two stores end with the same result, and leave the same bridge. -/
structure EndAlike (x : Eval α) (s : Store) (y : Eval α) (s' : Store) : Prop where
  result : (x.outcome s).1 = (y.outcome s').1
  bridge : (x.outcome s).2.SameBridge (y.outcome s').2

namespace EndAlike

variable {s s' : Store}

theorem pure (h : s.SameBridge s') (a : α) : EndAlike (pure a : Eval α) s (pure a) s' := ⟨rfl, h⟩

theorem ofResult (h : s.SameBridge s') (result : Except Stop α) :
    EndAlike (Eval.ofResult result) s (Eval.ofResult result) s' := by
  constructor <;> rw [outcome_ofResult, outcome_ofResult]
  exact h

/-- What is read from the two stores may differ as long as what follows ends alike. -/
theorem get_bind {f g : Store → Eval α} (h : EndAlike (f s) s (g s') s') :
    EndAlike (get >>= f : Eval α) s (get >>= g) s' := ⟨h.result, h.bridge⟩

/-- The two halves of a computation may be compared one by one. -/
theorem bind {x y : Eval α} {f g : α → Eval β} (h : EndAlike x s y s')
    (hfg : ∀ a s₁ s₁', x.outcome s = (.ok a, s₁) → y.outcome s' = (.ok a, s₁') → s₁.SameBridge s₁' →
      EndAlike (f a) s₁ (g a) s₁') : EndAlike (x >>= f) s (y >>= g) s' := by
  obtain ⟨hresult, hbridge⟩ := h
  rcases hx : x.outcome s with ⟨stop | a, s₁⟩ <;> rcases hy : y.outcome s' with ⟨stop' | b, s₁'⟩ <;>
    rw [hx, hy] at hresult hbridge <;> cases hresult
  · exact ⟨by rw [outcome_bind_of_error hx, outcome_bind_of_error hy],
      by rw [outcome_bind_of_error hx, outcome_bind_of_error hy]; exact hbridge⟩
  · have hrest := hfg a s₁ s₁' hx hy hbridge
    exact ⟨by rw [outcome_bind_of_ok hx, outcome_bind_of_ok hy]; exact hrest.result,
      by rw [outcome_bind_of_ok hx, outcome_bind_of_ok hy]; exact hrest.bridge⟩

theorem attempt {x y : Eval α} (h : EndAlike x s y s') : EndAlike (Eval.attempt x) s (Eval.attempt y) s' := by
  obtain ⟨hresult, hbridge⟩ := h
  constructor <;> rw [outcome_attempt, outcome_attempt] <;>
    rcases hx : x.outcome s with ⟨(failure | name | _) | a, s₁⟩ <;> rcases hy : y.outcome s' with ⟨stop | b, s₁'⟩ <;>
    rw [hx, hy] at hresult hbridge <;> cases hresult <;> first | rfl | exact hbridge

/-- The members of a type are found alike in two stores of one bridge. -/
theorem membersOf (h : s.SameBridge s') (id : TypeId) (declared : Option TypeId) (includeProtected : Bool) :
    EndAlike (Eval.membersOf id declared includeProtected) s (Eval.membersOf id declared includeProtected) s' := by
  constructor <;> rw [outcome_membersOf, outcome_membersOf]
  · rw [h.types, h.config, h.memberCache]
  · exact ⟨h.types, h.config, by dsimp only; rw [h.types, h.config, h.memberCache]⟩

end EndAlike

end Eval

theorem canImplement_endAlike {s s' : Store} (h : s.SameBridge s') (interface : Descriptor) (isFunction : Bool) :
    Eval.EndAlike (canImplement interface isFunction) s (canImplement interface isFunction) s' := by
  unfold canImplement
  cases interface.typeId? with
  | none => exact .pure h false
  | some id =>
    refine (Eval.EndAlike.membersOf h id none false).attempt.bind fun members s₁ s₁' _ _ h₁ => ?_
    cases members with
    | error _ => exact .pure h₁ false
    | ok m => exact .pure h₁ _

theorem rankScript_endAlike {s s' : Store} (h : s.SameBridge s') (kind : ValueKind) (target : Target) :
    Eval.EndAlike (rankScript kind target) s (rankScript kind target) s' := by
  rw [rankScript.eq_def]
  split
  case h_6 d => exact (canImplement_endAlike h d true).bind fun _ _ _ _ _ h₁ => .pure h₁ _
  case h_7 d => exact (canImplement_endAlike h d false).bind fun _ _ _ _ _ h₁ => .pure h₁ _
  all_goals exact .pure h _

/-- Values that look alike are ranked alike, also in two stores of one bridge. -/
theorem rankTarget_endAlike {s s' : Store} (hbridge : s.SameBridge s') {u v : Script} (h : s.LooksLike u s' v)
    (target : Target) : Eval.EndAlike (rankTarget u target) s (rankTarget v target) s' := by
  have hwrapped : ∀ isArray, ((s.unwrap? u).map fun n => s.rankWrapped n isArray target)
      = (s'.unwrap? v).map fun n => s'.rankWrapped n isArray target := by
    intro isArray
    obtain ⟨hu, hv⟩ | ⟨n, n', hu, hv, hsight⟩ := cases_of_map_eq h.sight <;> rw [hu, hv]
    · rfl
    · exact congrArg some (Store.rankWrapped_of_sight hbridge.types hsight isArray target)
  unfold rankTarget
  refine .get_bind ?_
  rw [h.kind, hwrapped, hwrapped]
  split
  · exact .pure hbridge _
  · split
    case h_9 => exact rankScript_endAlike hbridge _ target
    case h_1 => split <;> exact .pure hbridge _
    all_goals exact .pure hbridge _

mutual

/-- **Ranking sees of a value no more than its kind, its class and the element types of a container**, in whatever
store it is. -/
theorem rankOf_endAlike {u v : Script} : (d : Descriptor) → ∀ {s s' : Store}, s.SameBridge s' → s.LooksLike u s' v →
    Eval.EndAlike (rankOf u d) s (rankOf v d) s'
  | .union members, _, _, hbridge, h => by
    rw [rankOf, rankOf]
    exact bestRank_endAlike members hbridge h
  | .unspecified, _, _, hbridge, h | .plain _, _, _, hbridge, h | .array _, _, _, hbridge, h
  | .parameterized _ _, _, _, hbridge, h | .enumeration _, _, _, hbridge, h | .interface _ _, _, _, hbridge, h
  | .typeVar _ _, _, _, hbridge, h | .stringLiteral _, _, _, hbridge, h | .numberLiteral _, _, _, hbridge, h
  | .booleanLiteral _, _, _, hbridge, h | .objectShape _, _, _, hbridge, h | .functionShape _ _, _, _, hbridge, h => by
    rw [rankOf_eq (by simp), rankOf_eq (by simp)]
    refine .get_bind ?_
    rw [hbridge.types]
    exact (Eval.EndAlike.ofResult hbridge _).bind fun target s₁ s₁' hs hs' hbridge₁ => by
      rw [Eval.outcome_ofResult] at hs hs'
      obtain ⟨-, rfl⟩ := Prod.mk.inj hs
      obtain ⟨-, rfl⟩ := Prod.mk.inj hs'
      exact rankTarget_endAlike hbridge h target

theorem bestRank_endAlike {u v : Script} : (members : List Descriptor) → ∀ {s s' : Store}, s.SameBridge s' →
    s.LooksLike u s' v → Eval.EndAlike (bestRank u members) s (bestRank v members) s'
  | [], _, _, hbridge, _ => .pure hbridge _
  | d :: ds, _, _, hbridge, h => by
    rw [bestRank, bestRank]
    refine (rankOf_endAlike d hbridge h).bind fun first s₁ s₁' hs hs' hbridge₁ => ?_
    -- what has been looked up for the first member leaves both values as they were
    have h₁ := h.settles ((rankOf_repeatable u d).settles hs) ((rankOf_repeatable v d).settles hs')
    exact (bestRank_endAlike ds hbridge₁ h₁).bind fun others _ _ _ _ hbridge₂ => .pure hbridge₂ _

end

end Interop
