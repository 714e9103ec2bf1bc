import Interop.Proofs.Call.Arguments

/-!
# Variadic candidates

A variadic candidate takes the arguments beyond its fixed parameters against the component of its last parameter. One
single such argument that is null or an array is not packed: it stands for the array itself, by its kind alone. Null and
script arrays become every array, but a native array has to be one already, also where it could be packed as an element.

* **`rankOf_standsForArray`**: what can stand for an array becomes one, unless it is a native array of another type.
* **`rankAll_append`**: arguments are ranked in order.
* **`rankCandidate_packable`**: a variadic candidate takes all arguments that can be packed, but for such an array.
-/

namespace Interop

variable {s s' : Store} {v : Script} {component : Descriptor}

/-! ## What stands for an array -/

/-- The value is a native array, and not one of the component type that is asked for. -/
def Store.WrapsOtherArray (s : Store) (v : Script) (component : Descriptor) : Prop :=
  s.kindOf v = .nativeArray ∧ ∀ n a, s.unwrap? v = some n → s.array? n = some a →
    s.types.isAssignable (.array component) (.array a.component) = false

/-- Whether another array is wrapped is a fact about the value, which settling does not touch. -/
theorem Store.Settles.wrapsOtherArray_iff (h : s.Settles s') :
    s'.WrapsOtherArray v component ↔ s.WrapsOtherArray v component := by
  obtain ⟨r, rfl, -⟩ := h
  exact Iff.rfl

/-- A native value conforms to an array type if it is an array of an assignable type. -/
theorem Store.conforms_array_iff {n : Native} : s.conforms n (.array component) = true ↔
    ∃ a, s.array? n = some a ∧ s.types.isAssignable (.array component) (.array a.component) = true := by
  cases n with
  | object r =>
    have hconforms : s.conforms (.object r) (.array component) = (s.array? (.object r)).any
        fun a => s.types.isAssignable (.array component) (.array a.component) := by
      simp only [conforms, memberTypeOf?]
      cases s.array? (.object r) <;> rfl
    rw [hconforms, Option.any_eq_true]
  | _ => simp [conforms, array?, memberTypeOf?]

/-- A native value has no rank for an array type unless it is an array of an assignable type. -/
theorem Store.isNone_rankWrapped_array_iff {n : Native} {isArray : Bool} :
    (s.rankWrapped n isArray (.array component)).isNone = true ↔
      ∀ a, s.array? n = some a → s.types.isAssignable (.array component) (.array a.component) = false := by
  unfold rankWrapped
  by_cases hconforms : s.conforms n (.array component) = true
  · rw [if_pos hconforms]
    obtain ⟨a, ha, hassignable⟩ := conforms_array_iff.mp hconforms
    exact ⟨nofun, fun hother => absurd (hother a ha) (by rw [hassignable]; decide)⟩
  · rw [if_neg hconforms]
    refine ⟨fun _ a ha => ?_, fun _ => rfl⟩
    exact Bool.eq_false_iff.mpr fun hassignable => hconforms (conforms_array_iff.mpr ⟨a, ha, hassignable⟩)

/-- **What can stand for an array becomes one, unless it is a native array of another type.** -/
theorem rankOf_standsForArray (h : (s.kindOf v).standsForArray = true) (component : Descriptor) :
    ∃ rank, (rankOf v (.array component)).outcome s = (.ok rank, s) ∧
      (rank.isNone = true ↔ s.WrapsOtherArray v component) := by
  have hrank : (rankOf v (.array component)).outcome s = (rankTarget v (.array component)).outcome s := by
    rw [rankOf_eq (by simp), Eval.outcome_get_bind]
    exact Eval.outcome_bind_of_ok (Eval.outcome_ofResult _ s)
  rw [hrank, Store.WrapsOtherArray]
  unfold rankTarget
  rw [Eval.outcome_get_bind]
  dsimp only
  cases hkind : s.kindOf v with
  | null => exact ⟨.exact, rfl, nofun, nofun⟩
  | scriptArray => exact ⟨.converted 2, rfl, nofun, nofun⟩
  | nativeArray =>
    refine ⟨_, rfl, ?_⟩
    cases hv : s.unwrap? v with
    | none => exact ⟨fun _ => ⟨rfl, nofun⟩, fun _ => rfl⟩
    | some n =>
      rw [Option.map_some, Option.getD_some, Store.isNone_rankWrapped_array_iff]
      exact ⟨fun hother => ⟨rfl, fun _ a hn => Option.some.inj hn ▸ hother a⟩, fun hother a => hother.2 n a rfl⟩
  | _ =>
    rw [hkind] at h
    cases h

/-! ## Ranking in order -/

/-- Ranking leading and trailing arguments together is ranking the one after the other. -/
theorem rankAll_append (trailing : List Script) (types : List Descriptor) :
    ∀ {leading : List Script} {fixed : List Descriptor}, leading.length = fixed.length →
      rankAll (leading ++ trailing) (fixed ++ types) = (do
        let ranks ← rankAll leading fixed
        let others ← rankAll trailing types
        pure (ranks ++ others))
  | [], [], _ => (bind_pure (rankAll trailing types)).symm
  | v :: leading, d :: fixed, h => by
    rw [List.cons_append, List.cons_append, rankAll, rankAll, rankAll_append trailing types (Nat.succ.inj h)]
    simp only [bind_assoc, pure_bind, List.cons_append]

/-- Arguments that have been ranked together have been ranked one part after the other. -/
theorem outcome_rankAll_append {leading trailing : List Script} {fixed types : List Descriptor} {ranks : List Rank}
    (hlength : leading.length = fixed.length)
    (h : (rankAll (leading ++ trailing) (fixed ++ types)).outcome s = (.ok ranks, s')) :
    ∃ first others s₁, ranks = first ++ others ∧ (rankAll leading fixed).outcome s = (.ok first, s₁) ∧
      (rankAll trailing types).outcome s₁ = (.ok others, s') := by
  rw [rankAll_append trailing types hlength] at h
  obtain ⟨_, _, hstop⟩ | ⟨first, s₁, hfirst, hrest⟩ := Eval.outcome_bind_cases h
  · cases hstop
  obtain ⟨_, _, hstop⟩ | ⟨others, s₂, hothers, hpure⟩ := Eval.outcome_bind_cases hrest
  · cases hstop
  cases hpure
  exact ⟨first, others, s₁, rfl, hfirst, hothers⟩

/-! ## Variadic candidates -/

/-- A candidate is ranked by the ranks of the arguments against its expanded parameters. -/
theorem outcome_rankCandidate {c : Callable} {args : List Script} {params : List Descriptor} {ranks : List Rank}
    (hparams : c.paramsFor? (args.map s.kindOf) = some params)
    (hranks : (rankAll args params).outcome s = (.ok ranks, s')) (index : Nat) :
    (rankCandidate index c args).outcome s
      = (.ok (if ranks.any Rank.isNone then none else some ⟨index, c, params, ranks⟩), s') := by
  rw [rankCandidate, Eval.outcome_get_bind, hparams]
  exact Eval.outcome_bind_of_ok hranks

/-- Ranks none of which is the bad one pass the test for it. -/
theorem any_isNone_eq_false {ranks : List Rank} (h : ∀ rank ∈ ranks, rank ≠ .none) : ranks.any Rank.isNone = false :=
  List.any_eq_false.mpr fun rank hrank => by
    rw [Bool.not_eq_true]
    exact beq_eq_false_iff_ne.mpr (h rank hrank)

section

variable {c : Callable} {fixed : List Descriptor} {leading trailing : List Script} {ranks : List Rank}
  (hvariadic : c.isVariadic = true) (hparams : c.params = fixed ++ [.array component])
  (hleading : leading.length = fixed.length)
include hvariadic hparams hleading

/-- Other arguments than a single one that stands for the array are packed. -/
theorem outcome_rankCandidate_packs (hpacks : ¬ ∃ v, trailing = [v] ∧ (s.kindOf v).standsForArray = true)
    (hranks : (rankAll (leading ++ trailing) (fixed ++ List.replicate trailing.length component)).outcome s
      = (.ok ranks, s')) (hsome : ∀ rank ∈ ranks, rank ≠ .none) (index : Nat) :
    (rankCandidate index c (leading ++ trailing)).outcome s
      = (.ok (some ⟨index, c, fixed ++ List.replicate trailing.length component, ranks⟩), s') := by
  have hkinds : (leading.map s.kindOf).length = fixed.length := by rw [List.length_map, hleading]
  have hexpanded : c.paramsFor? ((leading ++ trailing).map s.kindOf)
      = some (fixed ++ List.replicate trailing.length component) := by
    rw [List.map_append, (Callable.paramsFor?_variadic hparams hvariadic _ _ hkinds).2, List.length_map]
    rw [Callable.passesArray_append_iff hparams hkinds]
    rintro ⟨kind, hone, hkind⟩
    obtain ⟨v, rfl, rfl⟩ := List.map_eq_singleton_iff.mp hone
    exact hpacks ⟨v, rfl, hkind⟩
  rw [outcome_rankCandidate hexpanded hranks index, any_isNone_eq_false hsome, if_neg Bool.false_ne_true]

/-- A single one that does is ranked for the array type, after the others have been ranked as before. -/
theorem outcome_rankCandidate_passes (hstands : (s.kindOf v).standsForArray = true)
    (hranks : (rankAll leading fixed).outcome s = (.ok ranks, s')) (hsome : ∀ rank ∈ ranks, rank ≠ .none)
    (index : Nat) :
    ∃ candidate, (rankCandidate index c (leading ++ [v])).outcome s = (.ok candidate, s') ∧
      (candidate = none ↔ s.WrapsOtherArray v component) := by
  have hkinds : (leading.map s.kindOf).length = fixed.length := by rw [List.length_map, hleading]
  have hexpanded : c.paramsFor? ((leading ++ [v]).map s.kindOf) = some (fixed ++ [.array component]) := by
    rw [List.map_append, (Callable.paramsFor?_variadic hparams hvariadic _ _ hkinds).1]
    exact (Callable.passesArray_append_iff hparams hkinds).mpr ⟨_, rfl, hstands⟩
  have hsettles := (rankAll_repeatable leading fixed).settles hranks
  have hkind : s'.kindOf v = s.kindOf v := by
    obtain ⟨r, rfl, -⟩ := hsettles
    rfl
  obtain ⟨rank, hrank, hnone⟩ := rankOf_standsForArray (s := s') (by rw [hkind, hstands]) component
  have hlast : (rankAll [v] [.array component]).outcome s' = (.ok [rank], s') := by
    rw [rankAll, Eval.outcome_bind_of_ok hrank]
    rfl
  have hall : (rankAll (leading ++ [v]) (fixed ++ [.array component])).outcome s = (.ok (ranks ++ [rank]), s') := by
    rw [rankAll_append [v] _ hleading, Eval.outcome_bind_of_ok hranks, Eval.outcome_bind_of_ok hlast]
    rfl
  refine ⟨_, outcome_rankCandidate hexpanded hall index, ?_⟩
  rw [List.any_append, any_isNone_eq_false hsome, Bool.false_or, List.any_cons, List.any_nil, Bool.or_false,
    ← hsettles.wrapsOtherArray_iff, ← hnone]
  cases rank.isNone <;> simp

/-- **A variadic candidate takes arguments that can be packed, but for an array of another type.** Let each argument up
to the fixed parameters have a rank for its parameter, and each of the others one for the component type of the last
parameter. The candidate takes the arguments, unless there is exactly one other argument and it is a native array that
is not assignable to an array of the component type: it stands for the array, and the candidate drops out. -/
theorem rankCandidate_packable
    (hranks : (rankAll (leading ++ trailing) (fixed ++ List.replicate trailing.length component)).outcome s
      = (.ok ranks, s')) (hsome : ∀ rank ∈ ranks, rank ≠ .none) (index : Nat) :
    ∃ candidate s₁, (rankCandidate index c (leading ++ trailing)).outcome s = (.ok candidate, s₁) ∧
      (candidate = none ↔ ∃ v, trailing = [v] ∧ s.WrapsOtherArray v component) := by
  by_cases hstands : ∃ v, trailing = [v] ∧ (s.kindOf v).standsForArray = true
  · obtain ⟨v, rfl, hv⟩ := hstands
    obtain ⟨first, others, s₁, rfl, hfirst, -⟩ := outcome_rankAll_append hleading hranks
    obtain ⟨candidate, hrun, hnone⟩ := outcome_rankCandidate_passes hvariadic hparams hleading hv hfirst
      (fun rank hrank => hsome rank (List.mem_append_left _ hrank)) index
    refine ⟨candidate, s₁, hrun, hnone.trans ⟨fun hother => ⟨v, rfl, hother⟩, ?_⟩⟩
    rintro ⟨_, ⟨⟩, hother⟩
    exact hother
  · refine ⟨_, s', outcome_rankCandidate_packs hvariadic hparams hleading hstands hranks hsome index, nofun, ?_⟩
    rintro ⟨v, htrailing, hkind, -⟩
    exact absurd ⟨v, htrailing, by rw [hkind]; rfl⟩ hstands

end

/-- An array of numbers and an array of texts, beside the standard types. -/
def Store.withArrays : Store :=
  { Store.standard {} false with
    natives := #[.array ⟨.numeric .int, []⟩, .array ⟨.string, [.string "a"]⟩]
    objects := #[.proxy ⟨.ofArray, .object ⟨0⟩, .numeric .int, none⟩, .proxy ⟨.ofArray, .object ⟨1⟩, .string, none⟩] }

/-- Any number of objects. -/
def printing : Callable :=
  { name := "print", declaring := .ofName "demo.Text", params := [.array .object], returnType := .void,
    flags := { isPublic := true, isStatic := true, isVariadic := true }, invoker := .host "print" (.constant .void) }

/-- The array of numbers is wrapped as one of another component type. -/
theorem wrapsOtherArray_numbers : Store.withArrays.WrapsOtherArray (.object ⟨0⟩) .object := by
  refine ⟨rfl, ?_⟩
  rintro _ _ ⟨⟩ ⟨⟩
  decide +kernel

theorem not_wrapsOtherArray_texts : ¬ Store.withArrays.WrapsOtherArray (.object ⟨1⟩) .object := by
  rintro ⟨-, hother⟩
  exact absurd (hother _ _ rfl rfl) (by decide +kernel)

/-- An array of numbers is an object, but no array of objects: alone it stands for the array, and is not taken; beside
another argument both are packed. An array of texts is an array of objects. -/
theorem rankCandidate_packable_arrays :
    (∃ s₁, (rankCandidate 0 printing [.object ⟨0⟩]).outcome .withArrays = (.ok none, s₁)) ∧
    (∃ w s₁, (rankCandidate 0 printing [.object ⟨0⟩, .null]).outcome .withArrays = (.ok (some w), s₁)) ∧
    ∃ w s₁, (rankCandidate 0 printing [.object ⟨1⟩]).outcome .withArrays = (.ok (some w), s₁) := by
  have hparams : printing.params = [] ++ [.array .object] := rfl
  have htakes : ∀ (trailing : List Script) (ranks : List Rank) (s' : Store),
      (rankAll ([] ++ trailing) ([] ++ List.replicate trailing.length .object)).outcome .withArrays = (.ok ranks, s') →
      (∀ rank ∈ ranks, rank ≠ .none) →
      ∃ candidate s₁, (rankCandidate 0 printing ([] ++ trailing)).outcome .withArrays = (.ok candidate, s₁) ∧
        (candidate = none ↔ ∃ v, trailing = [v] ∧ Store.withArrays.WrapsOtherArray v .object) :=
    fun _ _ _ hranks hsome => rankCandidate_packable rfl hparams rfl hranks hsome 0
  refine ⟨?_, ?_, ?_⟩
  · obtain ⟨candidate, s₁, hrun, hnone⟩ := htakes [.object ⟨0⟩] [.nontrivial] _ rfl (by decide)
    rw [hnone.mpr ⟨_, rfl, wrapsOtherArray_numbers⟩] at hrun
    exact ⟨s₁, hrun⟩
  · obtain ⟨candidate, s₁, hrun, hnone⟩ := htakes [.object ⟨0⟩, .null] [.nontrivial, .exact] _ rfl (by decide)
    obtain ⟨w, rfl⟩ := Option.ne_none_iff_exists'.mp fun h => nomatch hnone.mp h
    exact ⟨w, s₁, hrun⟩
  · obtain ⟨candidate, s₁, hrun, hnone⟩ := htakes [.object ⟨1⟩] [.nontrivial] _ rfl (by decide)
    have hsome : candidate ≠ none := fun h => by
      obtain ⟨_, ⟨⟩, hother⟩ := hnone.mp h
      exact not_wrapsOtherArray_texts hother
    obtain ⟨w, rfl⟩ := Option.ne_none_iff_exists'.mp hsome
    exact ⟨w, s₁, hrun⟩

/-- An array of numbers has a rank for the component type of the only, variadic parameter, and still the candidate
drops out. -/
theorem rankCandidate_numbersAsObjects :
    printing.isVariadic = true ∧ printing.params = [] ++ [.array .object] ∧
      (rankOf (.object ⟨0⟩) .object).outcome .withArrays = (.ok .nontrivial, .withArrays) ∧
      (rankCandidate 0 printing [.object ⟨0⟩]).outcome .withArrays = (.ok none, .withArrays) := by
  have hparams : printing.params = [] ++ [.array .object] := rfl
  refine ⟨rfl, hparams, rfl, ?_⟩
  have hranks : (rankAll [] []).outcome .withArrays = (.ok [], .withArrays) := rfl
  have hstands : (Store.withArrays.kindOf (.object ⟨0⟩)).standsForArray = true := rfl
  obtain ⟨candidate, hrun, hnone⟩ := outcome_rankCandidate_passes rfl hparams rfl hstands hranks nofun 0
  rwa [hnone.mpr wrapsOtherArray_numbers] at hrun

end Interop
