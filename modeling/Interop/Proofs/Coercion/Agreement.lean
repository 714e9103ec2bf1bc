import Interop.Proofs.Coercion.Content
import Interop.Proofs.Coercion.Instances

/-!
# Where ranks decide conversions

Ranks and conversions are two walks over the kinds of values and the kinds of targets. For a target without a range,
constants, elements or abstract methods of its own there is nothing in a value that conversion could still object to, so
a value of a rank is converted; and whatever the target, a value without a rank is refused with the type that was asked
for. Texts and numbers of values are made on the way, so these must exist (`Store.Legible`): the text of a container
that contains itself has no end.

* **`TypeTable.Indifferent`**: the types for which content cannot matter.
* **`convert_of_ranked`**: a value of a rank is converted to such a type.
* **`convert_of_unranked`**: a value without a rank is refused, whatever the type.
* **`convert_agreesWithRank`**: both directions.
-/

namespace Interop

variable {s s₁ : Store} {v : Script} {target : Target}

/-! ## Success and refusal -/

/-- In one store, a computation gives a value. -/
def Eval.SucceedsAt (x : Eval α) (s : Store) : Prop := ∃ a s', x.outcome s = (.ok a, s')

/-- In one store, a computation refuses to convert something to a type. -/
def Eval.RefusesAt (x : Eval α) (d : Descriptor) (s : Store) : Prop :=
  ∃ value s', x.outcome s = (.error (.failed (.conversion value d.signature)), s')

namespace Eval.SucceedsAt

theorem pure (a : α) : (pure a : Eval α).SucceedsAt s := ⟨a, s, rfl⟩

theorem bind_pure {x : Eval α} (h : x.SucceedsAt s) (f : α → β) :
    (x >>= fun a => Pure.pure (f a) : Eval β).SucceedsAt s := by
  obtain ⟨a, s', hx⟩ := h
  exact ⟨f a, s', Eval.outcome_bind_of_ok hx⟩

theorem of_toOption {x : Eval α} {a : α} (h : (x.outcome s).1.toOption = some a) : x.SucceedsAt s :=
  ⟨a, _, Eval.outcome_of_toOption h⟩

end Eval.SucceedsAt

theorem Eval.RefusesAt.not_succeedsAt {x : Eval α} {d : Descriptor} (h : x.RefusesAt d s) : ¬ x.SucceedsAt s := by
  obtain ⟨value, s', hx⟩ := h
  rintro ⟨a, s'', hok⟩
  rw [hx] at hok
  cases hok

/-- The forms of a value that conversion may need can be worked out: its text, its number, and the text of the native
value behind it. -/
structure Store.Legible (s : Store) (v : Script) : Prop where
  text : (displayScript v).SucceedsAt s
  number : (toNumber v).SucceedsAt s
  wrapped : ∀ n, s.unwrap? v = some n → (displayNative n).SucceedsAt s

/-! ## Indifferent types -/

section Types

-- ids are compared as they stand; unfolding one means computing a digest
attribute [local irreducible] TypeId.ofName

/-- The types for which content cannot matter: no type at all, function shapes, the primitives that hold no numbers,
the standard types that are no containers, and all other named types but those with constants or abstract methods. -/
inductive TypeTable.Indifferent (t : TypeTable) : Descriptor → Prop where
  | unspecified : Indifferent t .unspecified
  | functionShape (params : List Descriptor) (result : Descriptor) : Indifferent t (.functionShape params result)
  | standard {name : String} (h : TypeId.ofName name ∈ [PrimitiveKind.boolean.typeId, PrimitiveKind.void.typeId,
      Standard.string, Standard.charSequence, Standard.number, Standard.class_, Standard.object]) :
    Indifferent t (.plain name)
  | plain {name : String} (hnumeric : ∀ kind : NumericKind, TypeId.ofName name ≠ kind.typeId)
    (hcontainer : TypeId.ofName name ∉ [Standard.list, Standard.set, Standard.collection, Standard.map])
    (hdeclared : ∀ decl, t.find? (.ofName name) = some decl → decl.kind = .ofClass) : Indifferent t (.plain name)

/-- What these types are to conversion. -/
def Target.isIndifferent : Target → Bool
  | any | void | boolean | string | charSequence | number | classRef | object | named _ | functionShape => true
  | _ => false

/-- The type of a primitive kind is its own: two kinds never share one. -/
theorem PrimitiveKind.typeId_of_ofTypeId? {id : TypeId} {kind : PrimitiveKind} (h : ofTypeId? id = some kind) :
    id = kind.typeId := by
  have hmem := mem_of_lookup h
  obtain ⟨found, -, heq⟩ := List.mem_map.mp hmem
  obtain ⟨rfl, rfl⟩ := Prod.mk.inj heq
  rfl

/-- What a type that is neither numeric nor a container is by its id, or else by its declaration as a class. -/
theorem TypeTable.isIndifferent_namedTarget (t : TypeTable) {name : String}
    (hnumeric : ∀ kind, PrimitiveKind.ofTypeId? (.ofName name) ≠ some (.numeric kind))
    (hcontainer : TypeId.ofName name ∉ [Standard.list, Standard.set, Standard.collection, Standard.map])
    (hdeclared : PrimitiveKind.ofTypeId? (.ofName name) = none →
      TypeId.ofName name ∉ [Standard.string, Standard.charSequence, Standard.number, Standard.class_, Standard.object] →
      ∀ decl, t.find? (.ofName name) = some decl → decl.kind = .ofClass) :
    (t.namedTarget (.plain name)).isIndifferent = true := by
  simp only [List.mem_cons, List.not_mem_nil, or_false, not_or] at hcontainer hdeclared
  obtain ⟨hlist, hset, hcollection, hmap⟩ := hcontainer
  rw [namedTarget]
  dsimp only [Descriptor.typeId?]
  cases hkind : PrimitiveKind.ofTypeId? (.ofName name) with
  | some kind =>
    cases kind with
    | numeric kind => exact absurd hkind (hnumeric kind)
    | _ => rfl
  | none =>
    -- the tests of the definition in their order; each that holds ends in an indifferent target
    dsimp only
    split
    · rfl
    · next hobject =>
      split
      · rfl
      · next hstring =>
        split
        · rfl
        · next hcharSequence =>
          split
          · rfl
          · next hnumber =>
            split
            · rfl
            · next hclass =>
              have hclassOnly := hdeclared hkind ⟨hstring, hcharSequence, hnumber, hclass, hobject⟩
              simp only [hlist, hset, hcollection, or_self, if_false]
              rw [if_neg (show ¬ (Descriptor.plain name).isInterface = true from Bool.false_ne_true)]
              cases hdecl : t.find? (.ofName name) with
              | none => rfl
              | some decl =>
                dsimp only
                rw [hclassOnly decl hdecl]
                rfl

theorem TypeTable.Indifferent.ne_union {t : TypeTable} {d : Descriptor} (h : t.Indifferent d) :
    ∀ members, d = .union members → False := by
  rintro members rfl
  cases h

/-- An indifferent type is an indifferent target. -/
theorem TypeTable.Indifferent.exists_target {t : TypeTable} {d : Descriptor} (h : t.Indifferent d) :
    ∃ target, t.targetOf d = .ok target ∧ target.isIndifferent = true := by
  cases h with
  | unspecified => exact ⟨.any, rfl, rfl⟩
  | functionShape params result => exact ⟨.functionShape, rfl, rfl⟩
  | @standard name h =>
    refine ⟨_, rfl, t.isIndifferent_namedTarget ?_ ?_ fun hkind hother => ?_⟩
    · have hkinds : ∀ kind, PrimitiveKind.ofTypeId? (.ofName name) = some kind → kind = .boolean ∨ kind = .void := by
        simp only [List.mem_cons, List.not_mem_nil, or_false] at h
        rcases h with h | h | h | h | h | h | h <;> rw [h] <;> decide +kernel
      intro kind hkind
      rcases hkinds _ hkind with hsame | hsame <;> cases hsame
    · simp only [List.mem_cons, List.not_mem_nil, or_false] at h
      rcases h with h | h | h | h | h | h | h <;> rw [h] <;> decide +kernel
    · -- what is not told by its id is one of the two primitives, and these are no named types
      have hprimitive : TypeId.ofName name = PrimitiveKind.boolean.typeId ∨
          TypeId.ofName name = PrimitiveKind.void.typeId := by
        rw [List.mem_cons, List.mem_cons] at h
        rcases h with h | h | h
        · exact .inl h
        · exact .inr h
        · exact absurd h hother
      rcases hprimitive with h | h <;> rw [h] at hkind <;> exact absurd hkind (by decide +kernel)
  | plain hnumeric hcontainer hdeclared =>
    refine ⟨_, rfl, t.isIndifferent_namedTarget (fun kind hkind => ?_) hcontainer fun _ _ => hdeclared⟩
    exact hnumeric kind (PrimitiveKind.typeId_of_ofTypeId? hkind)

end Types

/-! ## Ranks of indifferent targets -/

/-- Ranking for an indifferent target always ends, and looks nothing up. -/
theorem exists_rank_of_indifferent (h : target.isIndifferent = true) (v : Script) (s : Store) :
    ∃ rank, (rankTarget v target).outcome s = (.ok rank, s) := by
  have hscript : ∀ kind, ∃ rank, (rankScript kind target).outcome s = (.ok rank, s) := by
    intro kind
    cases target with
    | interface d => cases h
    | _ => cases kind <;> exact ⟨_, rfl⟩
  unfold rankTarget
  rw [Eval.outcome_get_bind]
  split
  · exact ⟨_, rfl⟩
  · split
    · split <;> exact ⟨_, rfl⟩
    case h_9 => exact hscript _
    all_goals exact ⟨_, rfl⟩

/-! ## Values with a rank -/

/-- A native that is passed on as it is always arrives. -/
theorem asIs_succeeds (v : Script) (s : Store) : (asIs v).SucceedsAt s := by
  cases v with
  | object r =>
    unfold asIs
    rw [Eval.SucceedsAt, Eval.outcome_get_bind]
    split <;> exact ⟨_, _, rfl⟩
  | _ => exact ⟨_, _, rfl⟩

/-- A proxy that its rank lets through converts: as the native it wraps, or as the text of it, which is computable. -/
theorem convertWrapped_succeeds {n : Native} (hv : s.Legible v) (hn : s.unwrap? v = some n) {rank : Rank}
    (hrank : rank = .nontrivial ∨ target = .classRef ∨ target = .object ∨ target = .string) (parts : PartConverters)
    (failure : Eval Native) : (convertWrapped v n rank target parts failure).SucceedsAt s := by
  unfold convertWrapped
  split
  · exact .pure n
  · next hchanged =>
    rcases hrank with hsame | rfl | rfl | rfl
    · exact absurd hsame hchanged
    · exact .pure n
    · exact .pure n
    · exact (hv.wrapped n hn).bind_pure _

/-- What a rank says of a proxy: it wraps an instance, or the target takes what every proxy can give. -/
theorem wrapped_ways {n : Native} (h : target.isIndifferent = true) (hv : s.unwrap? v = some n) (hany : target ≠ .any)
    {rank : Rank} (hrank : (rankTarget v target).outcome s = (.ok rank, s)) (hsome : rank.isNone = false) :
    rank = .nontrivial ∨ target = .classRef ∨ target = .object ∨ target = .string := by
  rcases rankTarget_of_unwrap? hv hany with hclass | ⟨isArray, hwrapped⟩
  · rw [hclass] at hrank
    cases hrank
    cases target with
    | classRef | object | string => simp
    | _ => cases hsome
  · rw [hwrapped] at hrank
    cases hrank
    rcases s.rankWrapped_cases n isArray target with ⟨hsame, -⟩ | ⟨-, hnone | hstring | ⟨kind, rfl⟩ | ⟨_, _, _, rfl, -⟩⟩
    · exact .inl hsame
    · rw [hnone] at hsome
      cases hsome
    · exact .inr (.inr (.inr hstring))
    · cases h
    · cases h

/-- The targets for any object take it as it is, by its text or by its number, all of which are computable. -/
theorem convertGeneric_succeeds (hv : s.Legible v)
    (htarget : target = .functionShape ∨ target = .object ∨ target = .string ∨ target = .number)
    (parts : PartConverters) (failure : Eval Native) : (convertGeneric v target parts failure).SucceedsAt s := by
  unfold convertGeneric
  rw [Eval.SucceedsAt, Eval.outcome_get_bind]
  rcases htarget with rfl | rfl | rfl | rfl
  · exact ⟨_, _, rfl⟩
  · exact ⟨_, _, rfl⟩
  · exact hv.text.bind_pure _
  · exact hv.number.bind_pure _

/-- What a rank says of any other object or function. -/
theorem generic_ways (h : target.isIndifferent = true) (hidentity : v.identity?.isSome = true)
    (hv : s.unwrap? v = none) (hany : target ≠ .any) {rank : Rank}
    (hrank : (rankTarget v target).outcome s = (.ok rank, s)) (hsome : rank.isNone = false) :
    target = .functionShape ∨ target = .object ∨ target = .string ∨ target = .number := by
  rw [rankTarget_of_generic hidentity hv hany] at hrank
  cases target with
  | functionShape | object | string | number => simp
  | any => exact absurd rfl hany
  | void | boolean | charSequence | classRef | named =>
    cases hkind : s.kindOf v <;> rw [hkind] at hrank <;> cases hrank <;> cases hsome
  | _ => cases h

/-- The tables for booleans, numbers and texts never refuse a value under an indifferent target. -/
theorem convertTables_succeed (h : target.isIndifferent = true) (failure : Eval Native) (s : Store) :
    (∀ b, (convertBoolean b target failure).SucceedsAt s) ∧ (∀ x, (convertNumber x target failure).SucceedsAt s) ∧
      ∀ text, (convertString text target failure).SucceedsAt s := by
  cases target with
  | any | void | boolean | string | charSequence | number | classRef | object | named | functionShape =>
    exact ⟨fun _ => .pure _, fun _ => .pure _, fun _ => .pure _⟩
  | _ => cases h

/-- Once a value that is neither an object nor a function has been ranked, it is converted. -/
theorem convertBy_bare_succeeds (hidentity : v.identity? = none) {d : Descriptor}
    (htarget : s.types.targetOf d = .ok target) (h : target.isIndifferent = true) {rank : Rank}
    (hrank : (rankTarget v target).outcome s = (.ok rank, s)) (hsome : rank.isNone = false) (parts : PartConverters) :
    (convertBy d parts v).SucceedsAt s := by
  obtain ⟨hboolean, hnumber, hstring⟩ := convertTables_succeed h (cannotConvert v d) s
  rw [Eval.SucceedsAt, convertBy, Eval.outcome_get_bind, htarget, Eval.outcome_bind_of_ok (Eval.outcome_ofResult _ _),
    Eval.outcome_bind_of_ok hrank]
  dsimp only
  rw [hsome, if_neg Bool.false_ne_true]
  split
  · exact asIs_succeeds v s
  · cases v with
    | undefined => exact ⟨_, _, rfl⟩
    | null => exact ⟨_, _, rfl⟩
    | boolean b => exact hboolean b
    | number x => exact hnumber x
    | string text => exact hstring text
    | object r => cases hidentity
    | callable r => cases hidentity

/-- **A value of a rank is converted**, where the target is indifferent. -/
theorem convert_of_ranked (hv : s.Legible v) {d : Descriptor} (hd : ∀ members, d = .union members → False)
    (htarget : s.types.targetOf d = .ok target) (h : target.isIndifferent = true) {rank : Rank}
    (hrank : (rankTarget v target).outcome s = (.ok rank, s)) (hsome : rank.isNone = false) :
    (convert d v).SucceedsAt s := by
  obtain ⟨parts, hconvert⟩ := exists_convertBy hd v
  rw [hconvert]
  cases hidentity : v.identity? with
  | none => exact convertBy_bare_succeeds hidentity htarget h hrank hsome parts
  | some identity =>
    have hreference : v.identity?.isSome = true := by rw [hidentity]; rfl
    by_cases hany : target = .any
    · subst hany
      rw [Eval.SucceedsAt, convertBy, Eval.outcome_get_bind, htarget,
        Eval.outcome_bind_of_ok (Eval.outcome_ofResult _ _), Eval.outcome_bind_of_ok hrank]
      dsimp only
      rw [hsome, if_neg Bool.false_ne_true]
      exact asIs_succeeds v s
    · rw [Eval.SucceedsAt, outcome_convertBy hreference htarget hany hrank hsome parts]
      cases hn : s.unwrap? v with
      | some n => exact convertWrapped_succeeds hv hn (wrapped_ways h hn hany hrank hsome) parts _
      | none => exact convertGeneric_succeeds hv (generic_ways h hreference hn hany hrank hsome) parts _

/-! ## Values without a rank -/

/-- What is no proxy can always be described. -/
theorem describe_succeeds (hv : s.unwrap? v = none) : (describe v).SucceedsAt s := by
  cases v with
  | string text => exact .pure _
  | object r =>
    rw [Store.unwrap?] at hv
    rw [describe, Eval.SucceedsAt, Eval.outcome_get_bind]
    cases hobject : s.object r with
    | proxy p => rw [hobject] at hv; cases hv
    | _ => exact ⟨_, _, rfl⟩
  | _ =>
    show (displayScript _).SucceedsAt s
    rw [displayScript, Eval.SucceedsAt, Eval.outcome_get_bind, displayScriptWithin]
    exact ⟨_, _, rfl⟩

/-- A legible value has a description, since the text it shows is computable. -/
theorem describe_succeeds_of_legible {n : Native} (hv : s.Legible v) (hn : s.unwrap? v = some n) :
    (describe v).SucceedsAt s := by
  obtain ⟨r, p, rfl, hp, rfl⟩ := Store.exists_proxy_of_unwrap? hn
  rw [describe, Eval.SucceedsAt, Eval.outcome_get_bind, hp]
  exact (hv.wrapped p.value hn).bind_pure _

/-- A value that can be described is refused under its description. -/
theorem cannotConvert_refuses {d : Descriptor} (h : (describe v).SucceedsAt s) :
    (cannotConvert v d : Eval Native).RefusesAt d s := by
  obtain ⟨text, s', hrun⟩ := h
  exact ⟨text, s', Eval.outcome_bind_of_ok hrun⟩

/-- Conversion starts with the rank, also where the type is a union. -/
theorem outcome_convert_of_unranked {d : Descriptor} (h : (rankOf v d).outcome s = (.ok .none, s₁)) :
    (convert d v).outcome s = (cannotConvert v d : Eval Native).outcome s₁ := by
  by_cases hd : ∃ members, d = .union members
  · obtain ⟨members, rfl⟩ := hd
    rw [rankOf] at h
    rw [convert, Eval.outcome_bind_of_ok h, if_pos (by decide)]
  · have hother : ∀ members, d = .union members → False := fun members heq => hd ⟨members, heq⟩
    obtain ⟨target, htarget, hrank⟩ := exists_target_of_rankOf hother h
    obtain ⟨parts, hconvert⟩ := exists_convertBy hother v
    rw [hconvert, outcome_convertBy_unranked htarget hrank rfl parts]

/-- **A value without a rank is refused**, with the type that was asked for. -/
theorem convert_of_unranked (hv : s.Legible v) {d : Descriptor} (h : (rankOf v d).outcome s = (.ok .none, s₁)) :
    (convert d v).RefusesAt d s := by
  rw [Eval.RefusesAt, outcome_convert_of_unranked h]
  apply cannotConvert_refuses
  cases hn : s.unwrap? v with
  | none =>
    -- what has been looked up for the rank does not make a proxy of the value
    have hsettles := (rankOf_repeatable v d).settles h
    exact describe_succeeds ((hsettles.unwrap?_eq v).trans hn)
  | some n =>
    have hsame : s₁ = s := by
      have hstays := rankOf_staysAt hn d
      rwa [Eval.StaysAt, h] at hstays
    rw [hsame]
    exact describe_succeeds_of_legible hv hn

/-! ## Both directions -/

/-- **Ranks decide conversions where content cannot matter.** In every store and for every value whose text and number
can be worked out, the conversion to an indifferent type succeeds if and only if the value has a rank for it; and
whatever the type, a value without a rank is refused with a conversion failure that names the type. -/
theorem convert_agreesWithRank (hv : s.Legible v) :
    (∀ d, s.types.Indifferent d → ∃ rank, (rankOf v d).outcome s = (.ok rank, s) ∧
      ((convert d v).SucceedsAt s ↔ rank ≠ .none)) ∧
    ∀ d s₁, (rankOf v d).outcome s = (.ok .none, s₁) → (convert d v).RefusesAt d s := by
  refine ⟨fun d hd => ?_, fun d s₁ h => convert_of_unranked hv h⟩
  obtain ⟨target, htarget, hindifferent⟩ := hd.exists_target
  obtain ⟨rank, hrank⟩ := exists_rank_of_indifferent hindifferent v s
  have hranked : (rankOf v d).outcome s = (.ok rank, s) := by
    rw [rankOf_eq hd.ne_union, Eval.outcome_get_bind, htarget, Eval.outcome_bind_of_ok (Eval.outcome_ofResult _ _),
      hrank]
  refine ⟨rank, hranked, fun hsucceeds hnone => ?_, fun hsome => ?_⟩
  · rw [hnone] at hranked
    exact (convert_of_unranked hv hranked).not_succeedsAt hsucceeds
  · have hisSome : rank.isNone = false := by
      rw [Rank.isNone, beq_eq_false_iff_ne]
      exact hsome
    exact convert_of_ranked hv hd.ne_union htarget hindifferent hrank hisSome

/-- A list of titles has a text and, not being a number, a number; it becomes the text, and it is neither a boolean nor
an array of truth values. -/
theorem convert_agreesWithRank_shelf :
    (convert .string (.object ⟨0⟩)).SucceedsAt (.shelf [.string "Emma"] []) ∧
      ¬ (convert .boolean (.object ⟨0⟩)).SucceedsAt (.shelf [.string "Emma"] []) ∧
      (convert (.union [.boolean, .array .boolean]) (.object ⟨0⟩)).RefusesAt (.union [.boolean, .array .boolean])
        (.shelf [.string "Emma"] []) := by
  have hlegible : (Store.shelf [.string "Emma"] []).Legible (.object ⟨0⟩) := by
    refine ⟨.of_toOption (a := "[Emma]") (by decide +kernel), .of_toOption (a := .nan) (by decide +kernel), ?_⟩
    intro n hn
    obtain rfl : Native.object ⟨0⟩ = n := Option.some.inj hn
    exact .of_toOption (a := "[Emma]") (by decide +kernel)
  obtain ⟨hdecides, hrefuses⟩ := convert_agreesWithRank hlegible
  obtain ⟨rank, hrank, hstring⟩ := hdecides .string (.standard (by decide +kernel))
  obtain ⟨rank', hrank', hboolean⟩ := hdecides .boolean (.standard (by decide +kernel))
  have hsome : (((rankOf (.object ⟨0⟩) .string).outcome (.shelf [.string "Emma"] [])).1.toOption ≠ some .none) := by
    decide +kernel
  have hnone : (((rankOf (.object ⟨0⟩) .boolean).outcome (.shelf [.string "Emma"] [])).1.toOption = some .none) := by
    decide +kernel
  rw [hrank] at hsome
  rw [hrank'] at hnone
  refine ⟨hstring.mpr fun heq => hsome (congrArg some heq), fun hok => ?_, ?_⟩
  · exact hboolean.mp hok (Option.some.inj hnone)
  · exact hrefuses _ _ (Eval.outcome_of_toOption (by decide +kernel))

end Interop
