import Interop.Call.Arguments
import Interop.Proofs.Coercion.Discipline
import Interop.Proofs.Dispatch.Resolution
import Interop.Store.Declare

/-!
# Arguments are converted to what they were ranked against

Which parameter type an argument gets is worked out twice: when a candidate is ranked, and when it has been chosen and
its arguments are converted. The two agree because the kinds of the arguments, on which a variadic parameter depends,
are still the same after the first arguments have been converted.

* **`convert_keepsKinds`**: conversion changes the kind of no object.
* **`Conversions`**: arguments that are converted one after the other, up to the first that stops.
* **`Callable.paramsFor?_variadic`**, **`convertArguments_variadic`**: the two sides for a variadic candidate.
* **`convertArguments_agrees`**: they agree for every candidate.
-/

namespace Interop

/-! ## Kinds stay -/

/-- What was made of a store keeps the kinds that it had. -/
def Discipline.kindsOf (s : Store) : Discipline where
  holds := s.KeepsKinds
  allows _ := True
  step hchange hs := hs.trans hchange.kinds
  lookedUp _ _ _ hs := hs.trans (.of_objects_eq rfl)
  failed _ := trivial
  diverged := trivial
  lookup _ _ := trivial

/-- **Conversion changes the kind of no object.** -/
theorem convert_keepsKinds (d : Descriptor) (v : Script) (s : Store) : s.KeepsKinds ((convert d v).outcome s).2 :=
  (follows_convert (D := .kindsOf s) d (.inr fun _ => trivial) v s (.refl s)).1

/-- The value is no object, or one that has been handed out. -/
def Store.Knows (s : Store) : Script → Prop
  | .object r => r.index < s.objects.size
  | _ => True

/-- What a script value is known to be does not change along a run: its kind can be asked in any later store. -/
theorem Store.KeepsKinds.kindOf_eq {s s' : Store} (h : s.KeepsKinds s') {v : Script} (hv : s.Knows v) :
    s'.kindOf v = s.kindOf v := by
  cases v with
  | object r => exact h.kind r hv
  | _ => rfl

/-! ## One after the other -/

theorem Store.keepsKinds_withInUse (s : Store) (inUse : List Referent) : s.KeepsKinds (s.withInUse inUse) :=
  .of_objects_eq rfl

/--
Arguments are converted one after the other, each to its own type and in the store that the one before has left, up to
the first that stops. What is in use meanwhile is left open.
-/
inductive Conversions : Store → List Script → List Descriptor → Except Stop (List Native) → Store → Prop where
  | done (s : Store) (inUse : List Referent) : Conversions s [] [] (.ok []) (s.withInUse inUse)
  | stops {s s' : Store} {d : Descriptor} {v : Script} {stop : Stop} {before : List Referent}
    (h : (convert d v).outcome (s.withInUse before) = (.error stop, s')) (args : List Script)
    (params : List Descriptor) (after : List Referent) :
    Conversions s (v :: args) (d :: params) (.error stop) (s'.withInUse after)
  | next {s s₁ s' : Store} {d : Descriptor} {v : Script} {native : Native} {before : List Referent}
    {args : List Script} {params : List Descriptor} {result : Except Stop (List Native)}
    (h : (convert d v).outcome (s.withInUse before) = (.ok native, s₁))
    (rest : Conversions s₁ args params result s') :
    Conversions s (v :: args) (d :: params) (result.map (native :: ·)) s'

namespace Conversions

variable {s s' : Store} {args : List Script} {params : List Descriptor} {result : Except Stop (List Native)}

/-- What is in use beforehand does not matter. -/
theorem starting (h : Conversions s args params result s') (inUse : List Referent) :
    Conversions (s.withInUse inUse) args params result s' := by
  cases h with
  | done _ after => exact .done (s.withInUse inUse) after
  | stops h args params after => exact .stops (s := s.withInUse inUse) h args params after
  | next h rest => exact .next (s := s.withInUse inUse) h rest

/-- Nor does what is in use afterwards. -/
theorem leaving (h : Conversions s args params result s') (inUse : List Referent) :
    Conversions s args params result (s'.withInUse inUse) := by
  induction h with
  | done s _ => exact .done s inUse
  | stops h args params _ => exact .stops h args params inUse
  | next h _ ih => exact .next h ih

/-- Converting arguments never changes the kind of a script value that was there before, so the last argument may be
looked at before or after the others. -/
theorem keepsKinds (h : Conversions s args params result s') : s.KeepsKinds s' := by
  have hconvert : ∀ {s s₁ : Store} {d : Descriptor} {v : Script} {before : List Referent}
      {outcome : Except Stop Native}, (convert d v).outcome (s.withInUse before) = (outcome, s₁) →
        s.KeepsKinds s₁ := by
    intro s s₁ d v before outcome h
    have hkinds := convert_keepsKinds d v (s.withInUse before)
    rw [h] at hkinds
    exact (s.keepsKinds_withInUse before).trans hkinds
  induction h with
  | done s inUse => exact s.keepsKinds_withInUse inUse
  | @stops _ s' _ _ _ _ h _ _ after => exact (hconvert h).trans (s'.keepsKinds_withInUse after)
  | next h _ ih => exact (hconvert h).trans ih

/-- Each argument has given one value. -/
theorem length_eq {natives : List Native} (h : Conversions s args params (.ok natives) s') :
    natives.length = args.length := by
  generalize hresult : Except.ok natives = result at h
  induction h generalizing natives with
  | done =>
    cases hresult
    rfl
  | stops => cases hresult
  | @next s s₁ s' d v native before args params result h _ ih =>
    cases result with
    | error stop => cases hresult
    | ok others =>
      cases hresult
      rw [List.length_cons, List.length_cons, ih rfl]

/-- More arguments are converted after the others. -/
theorem append {natives : List Native} {s₁ : Store} {args' : List Script} {params' : List Descriptor}
    {result' : Except Stop (List Native)} (h : Conversions s args params (.ok natives) s₁)
    (h' : Conversions s₁ args' params' result' s') :
    Conversions s (args ++ args') (params ++ params') (result'.map (natives ++ ·)) s' := by
  generalize hresult : Except.ok natives = result at h
  induction h generalizing natives with
  | done s inUse =>
    cases hresult
    -- nothing has been converted yet, and what is in use does not matter
    have hsame : result'.map ([] ++ ·) = result' := by cases result' <;> rfl
    rw [hsame]
    exact h'.starting s.inUse
  | stops => cases hresult
  | @next s s₁ s₂ d v native before args params result h _ ih =>
    cases result with
    | error stop => cases hresult
    | ok others =>
      cases hresult
      have hmap : result'.map ((native :: others) ++ ·) = (result'.map (others ++ ·)).map (native :: ·) := by
        cases result' <;> rfl
      rw [hmap]
      exact .next h (ih h' rfl)

/-- After a stop no more arguments are converted. -/
theorem append_of_error {stop : Stop} (h : Conversions s args params (.error stop) s') (args' : List Script)
    (params' : List Descriptor) : Conversions s (args ++ args') (params ++ params') (.error stop) s' := by
  generalize hresult : Except.error stop = result at h
  induction h with
  | done => cases hresult
  | stops h args params after =>
    cases hresult
    exact .stops h (args ++ args') (params ++ params') after
  | @next s s₁ s' d v native before args params result h _ ih =>
    cases result with
    | ok others => cases hresult
    | error stop' =>
      cases hresult
      exact .next h (ih rfl)

end Conversions

/-- As many arguments as types are converted one after the other. -/
theorem conversions_convertAll : ∀ {args : List Script} {params : List Descriptor} (s : Store),
    args.length = params.length →
      Conversions s args params ((convertAll args params).outcome s).1 ((convertAll args params).outcome s).2
  | [], [], s, _ => .done s s.inUse
  | v :: args, d :: params, s, h => by
    rw [convertAll]
    rcases hrun : (convert d v).outcome s with ⟨stop | native, s₁⟩
    · rw [Eval.outcome_bind_of_error hrun]
      exact .stops (s := s) hrun args params s₁.inUse
    · rw [Eval.outcome_bind_of_ok hrun, Eval.outcome_bind, Eval.outcome_holding]
      have hlength : args.length = params.length := Nat.succ.inj h
      have hrest := conversions_convertAll (s₁.withInUse (native.held ++ s₁.inUse)) hlength
      -- what has been converted is in use meanwhile, and given back at the end
      have hnext := Conversions.next (s := s) hrun ((hrest.starting s₁.inUse).leaving s₁.inUse)
      generalize (convertAll args params).outcome (s₁.withInUse (native.held ++ s₁.inUse)) = run at hnext ⊢
      obtain ⟨stop | natives, s₂⟩ := run
      · exact hnext
      · exact hnext

/-! ## Variadic candidates -/

namespace Callable

/-- A variadic callable ends in an array parameter: its component is what trailing arguments are converted to. -/
theorem exists_component {c : Callable} (h : c.isVariadic = true) :
    ∃ fixed component, c.params = fixed ++ [.array component] := by
  rw [isVariadic, Bool.and_eq_true] at h
  obtain ⟨last, hlast, harray⟩ := (Option.any_eq_true _ _).mp h.2
  obtain ⟨fixed, hparams⟩ := List.getLast?_eq_some_iff.mp hlast
  cases last <;> cases harray
  exact ⟨fixed, _, hparams⟩

/-- As many arguments as parameters, the last of which stands for the array of a variadic candidate. -/
def PassesArray (c : Callable) (kinds : List ValueKind) : Prop :=
  kinds.length = c.params.length ∧ ∃ kind, kinds.getLast? = some kind ∧ kind.standsForArray = true

section Variadic

variable {c : Callable} {fixed : List Descriptor} {component : Descriptor}
  (hparams : c.params = fixed ++ [.array component])
include hparams

/-- Over the kinds of the arguments, the array is passed as it is exactly where one argument is left for the last
parameter and it stands for an array. -/
theorem passesArray_append_iff {leading trailing : List ValueKind} (h : leading.length = fixed.length) :
    c.PassesArray (leading ++ trailing) ↔ ∃ kind, trailing = [kind] ∧ kind.standsForArray = true := by
  have hlength : c.params.length = fixed.length + 1 := by rw [hparams, List.length_append]; rfl
  constructor
  · rintro ⟨hall, kind, hlast, hstands⟩
    have hone : trailing.length = 1 := by
      rw [List.length_append] at hall
      omega
    obtain ⟨only, rfl⟩ := List.length_eq_one_iff.mp hone
    rw [List.getLast?_concat] at hlast
    exact ⟨kind, by rw [Option.some.inj hlast], hstands⟩
  · rintro ⟨kind, rfl, hstands⟩
    refine ⟨?_, kind, List.getLast?_concat, hstands⟩
    rw [List.length_append, h, hlength]
    rfl

variable (hvariadic : c.isVariadic = true)
include hvariadic

/-- Fewer arguments than fixed parameters do not fit. -/
theorem paramsFor?_short {kinds : List ValueKind} (h : kinds.length < fixed.length) : c.paramsFor? kinds = none := by
  have hfixed : c.params.length - 1 = fixed.length := by simp [hparams]
  simp [paramsFor?, hvariadic, hfixed, h]

/-- **The parameter types of a variadic candidate**: its own, or the component of the last one once for each trailing
argument. -/
theorem paramsFor?_variadic (leading trailing : List ValueKind) (h : leading.length = fixed.length) :
    (c.PassesArray (leading ++ trailing) → c.paramsFor? (leading ++ trailing) = some (fixed ++ [.array component])) ∧
    (¬ c.PassesArray (leading ++ trailing) →
      c.paramsFor? (leading ++ trailing) = some (fixed ++ List.replicate trailing.length component)) := by
  have hfixed : c.params.length - 1 = fixed.length := by simp [hparams]
  -- as many leading arguments as fixed parameters, so there are enough of them and the others are the trailing ones
  have henough : ¬ (leading ++ trailing).length < fixed.length := by
    rw [List.length_append]
    omega
  have htrailing : (leading ++ trailing).length - fixed.length = trailing.length := by
    rw [List.length_append]
    omega
  have hpasses : ((leading ++ trailing).length = c.params.length ∧
      (leading ++ trailing).getLast?.any ValueKind.standsForArray = true) ↔ c.PassesArray (leading ++ trailing) := by
    rw [PassesArray, Option.any_eq_true]
  have hlast : c.params[fixed.length]? = some (.array component) := by simp [hparams]
  have htake : c.params.take fixed.length = fixed := by simp [hparams]
  unfold paramsFor?
  simp only [hvariadic, Bool.not_true, Bool.false_eq_true, if_false, hfixed, if_neg henough]
  constructor
  · intro hpass
    rw [if_pos (hpasses.mpr hpass), hparams]
  · intro hpack
    rw [if_neg (mt hpasses.mp hpack), hlast, htake, htrailing]
    rfl

/-- **The native arguments of a variadic candidate**, for arguments split where its fixed parameters end. -/
theorem convertArguments_variadic {leading trailing : List Script} (h : leading.length = fixed.length) :
    convertArguments c (leading ++ trailing) = (do
      let natives ← convertAll leading fixed
      let s ← get
      Eval.holding (natives.flatMap Native.held) do
        if trailing.length = 1 ∧ trailing.any fun v => (s.kindOf v).standsForArray then
          pure (natives ++ (← convertAll trailing [.array component]))
        else
          let packed ← convertAll trailing (List.replicate trailing.length component)
          pure (natives ++ [← Eval.newNative (.array ⟨component, packed⟩)])) := by
  have hfixed : c.params.length - 1 = fixed.length := by simp [hparams]
  have hlast : c.params.getLast?.getD .unspecified = .array component := by simp [hparams]
  have htake : c.params.take fixed.length = fixed := by simp [hparams]
  have hleading : (leading ++ trailing).take fixed.length = leading := by rw [← h, List.take_left]
  have htrailing : (leading ++ trailing).drop fixed.length = trailing := by rw [← h, List.drop_left]
  rw [convertArguments]
  simp only [hvariadic, Bool.not_true, Bool.false_eq_true, if_false, hfixed, hlast, htake, hleading, htrailing,
    Descriptor.component?, Option.getD_some]

end Variadic

/-- Everything that is cut out of the arguments or the parameters is there: a variadic candidate has a last parameter
and gets its fixed arguments, any other gets one argument for each parameter. -/
structure InRange (c : Callable) (args : List Script) : Prop where
  fixed : c.isVariadic = true → 0 < c.params.length ∧ c.params.length - 1 ≤ args.length
  exact : c.isVariadic = false → args.length = c.params.length

/-- Native arguments, made of the converted ones: those themselves or, where trailing arguments are packed, the fixed
ones and a new array of the others. -/
inductive Receives (c : Callable) (kinds : List ValueKind) (converted : List Native) (s : Store) :
    List Native → Store → Prop where
  | asConverted (h : c.isVariadic = false ∨ c.PassesArray kinds) : Receives c kinds converted s converted s
  | packed (component : Descriptor) (hvariadic : c.isVariadic = true) (hpasses : ¬ c.PassesArray kinds)
    (hlast : c.params.getLast? = some (.array component)) :
    Receives c kinds converted s
      (converted.take (c.params.length - 1) ++
        [.object (s.addNative (.array ⟨component, converted.drop (c.params.length - 1)⟩)).1])
      (s.addNative (.array ⟨component, converted.drop (c.params.length - 1)⟩)).2

end Callable

/-! ## Agreement -/

/-- More arguments are converted after the others, and then what was in use is given back. -/
theorem Conversions.convertAll_after {s s₁ : Store} {leading trailing : List Script} {fixed : List Descriptor}
    {natives : List Native} (h : Conversions s leading fixed (.ok natives) s₁) (types : List Descriptor)
    (hlength : trailing.length = types.length) (before after : List Referent) :
    Conversions s (leading ++ trailing) (fixed ++ types)
      (((convertAll trailing types).outcome (s₁.withInUse before)).1.map (natives ++ ·))
      (((convertAll trailing types).outcome (s₁.withInUse before)).2.withInUse after) := by
  have hrest := conversions_convertAll (s₁.withInUse before) hlength
  exact h.append ((hrest.starting s₁.inUse).leaving after)

namespace Callable

/-- The native arguments of a candidate come from converting the arguments to the types, one after the other; the first
that stops ends it. -/
def Converts (c : Callable) (args : List Script) (types : List Descriptor) (s : Store) : Prop :=
  ∃ result s₁, Conversions s args types result s₁ ∧
    match result with
    | .error stop => (convertArguments c args).outcome s = (.error stop, s₁)
    | .ok converted => ∃ natives s', c.Receives (args.map s.kindOf) converted s₁ natives s' ∧
        natives.length = c.params.length ∧ (convertArguments c args).outcome s = (.ok natives, s')

/-- Without a variadic parameter the arguments are converted to the parameters one by one. -/
theorem converts_of_fixed {c : Callable} {args : List Script} (hfixed : c.isVariadic = false)
    (hlength : args.length = c.params.length) (s : Store) : c.Converts args c.params s := by
  have hconversions := conversions_convertAll s hlength
  have hrun : convertArguments c args = convertAll args c.params := by simp [convertArguments, hfixed]
  refine ⟨_, _, hconversions, ?_⟩
  rw [hrun]
  generalize (convertAll args c.params).outcome s = run at hconversions ⊢
  obtain ⟨stop | natives, s₁⟩ := run
  · rfl
  · refine ⟨natives, s₁, .asConverted (.inl hfixed), ?_, rfl⟩
    exact hconversions.length_eq.trans hlength

section Variadic

variable {c : Callable} {fixed : List Descriptor} {component : Descriptor} {leading trailing : List Script}
  {natives : List Native} {s s₁ : Store}

/-- Whether a last argument stands for the array can be asked before and after the fixed ones are converted. -/
theorem standsForArray_iff_passesArray (hparams : c.params = fixed ++ [.array component])
    (hleading : leading.length = fixed.length) (hrun : (convertAll leading fixed).outcome s = (.ok natives, s₁))
    (hknown : ∀ v ∈ trailing, s.Knows v) :
    (trailing.length = 1 ∧ (trailing.any fun v => (s₁.kindOf v).standsForArray) = true) ↔
      c.PassesArray ((leading ++ trailing).map s.kindOf) := by
  have hconversions := conversions_convertAll s hleading
  rw [hrun] at hconversions
  -- the one place where what happened in between could make a difference
  have hkinds : ∀ v ∈ trailing, s₁.kindOf v = s.kindOf v :=
    fun v hv => hconversions.keepsKinds.kindOf_eq (hknown v hv)
  rw [List.map_append, passesArray_append_iff hparams (by simpa using hleading)]
  constructor
  · rintro ⟨hone, hstands⟩
    obtain ⟨v, rfl⟩ := List.length_eq_one_iff.mp hone
    refine ⟨s.kindOf v, rfl, ?_⟩
    rw [← hkinds v (by simp)]
    simpa using hstands
  · rintro ⟨kind, hone, hstands⟩
    obtain ⟨v, rfl⟩ := List.length_eq_one_iff.mp ((List.length_map s.kindOf).symm.trans (congrArg List.length hone))
    refine ⟨rfl, ?_⟩
    rw [← (List.cons.inj hone).1, ← hkinds v (by simp)] at hstands
    simpa using hstands

variable (hparams : c.params = fixed ++ [.array component]) (hvariadic : c.isVariadic = true)
  (hleading : leading.length = fixed.length)
include hparams hvariadic hleading

/-- The fixed arguments come first, and one that stops ends it. -/
theorem converts_of_leading_error {stop : Stop} (hrun : (convertAll leading fixed).outcome s = (.error stop, s₁))
    (types : List Descriptor) : c.Converts (leading ++ trailing) (fixed ++ types) s := by
  have hconversions := conversions_convertAll s hleading
  rw [hrun] at hconversions
  refine ⟨.error stop, s₁, hconversions.append_of_error trailing types, ?_⟩
  rw [convertArguments_variadic hparams hvariadic hleading]
  exact Eval.outcome_bind_of_error hrun

variable (hrun : (convertAll leading fixed).outcome s = (.ok natives, s₁)) (hknown : ∀ v ∈ trailing, s.Knows v)
include hrun hknown

/-- The last argument stands for the array. -/
theorem converts_of_passes (hpasses : c.PassesArray ((leading ++ trailing).map s.kindOf)) :
    c.Converts (leading ++ trailing) (fixed ++ [.array component]) s := by
  have hstands := (standsForArray_iff_passesArray hparams hleading hrun hknown).mpr hpasses
  have hconversions := conversions_convertAll s hleading
  rw [hrun] at hconversions
  have hall := hconversions.convertAll_after [.array component] hstands.1
    (natives.flatMap Native.held ++ s₁.inUse) s₁.inUse
  refine ⟨_, _, hall, ?_⟩
  rw [convertArguments_variadic hparams hvariadic hleading, Eval.outcome_bind_of_ok hrun, Eval.outcome_get_bind,
    Eval.outcome_holding, if_pos hstands, Eval.outcome_bind]
  generalize (convertAll trailing [.array component]).outcome
    (s₁.withInUse (natives.flatMap Native.held ++ s₁.inUse)) = run at hall ⊢
  obtain ⟨stop | last, s₂⟩ := run
  · rfl
  · refine ⟨natives ++ last, _, .asConverted (.inr hpasses), ?_, rfl⟩
    rw [hall.length_eq, ← List.length_map s.kindOf]
    exact hpasses.1

/-- Trailing arguments are packed. -/
theorem converts_of_packs (hpacks : ¬ c.PassesArray ((leading ++ trailing).map s.kindOf)) :
    c.Converts (leading ++ trailing) (fixed ++ List.replicate trailing.length component) s := by
  have hstands := (standsForArray_iff_passesArray hparams hleading hrun hknown).not.mpr hpacks
  -- the fixed arguments convert first; the rest starts in the store that they leave, with their natives in use
  have hconversions := conversions_convertAll s hleading
  rw [hrun] at hconversions
  have hall := hconversions.convertAll_after (List.replicate trailing.length component)
    List.length_replicate.symm (natives.flatMap Native.held ++ s₁.inUse) s₁.inUse
  refine ⟨_, _, hall, ?_⟩
  rw [convertArguments_variadic hparams hvariadic hleading, Eval.outcome_bind_of_ok hrun, Eval.outcome_get_bind,
    Eval.outcome_holding, if_neg hstands, Eval.outcome_bind]
  generalize (convertAll trailing (List.replicate trailing.length component)).outcome
    (s₁.withInUse (natives.flatMap Native.held ++ s₁.inUse)) = run at hall ⊢
  obtain ⟨stop | packed, s₂⟩ := run
  · rfl
  · -- the converted values are cut where the arguments were
    have hcut : c.params.length - 1 = natives.length := by
      rw [hparams, hconversions.length_eq, hleading]
      simp
    have hreceives : c.Receives ((leading ++ trailing).map s.kindOf) (natives ++ packed) (s₂.withInUse s₁.inUse) _ _ :=
      .packed component hvariadic hpacks (by rw [hparams, List.getLast?_concat])
    rw [hcut, List.take_left, List.drop_left] at hreceives
    refine ⟨_, _, hreceives, ?_, rfl⟩
    rw [List.length_append, ← hcut, hparams]
    simp

end Variadic

end Callable

/--
**Arguments are converted to the types that they were ranked against.** Where a candidate has parameter types for
arguments, nothing is cut out of range, argument after argument is converted to its type until one stops, and as many
native arguments come of it as the candidate has parameters.
-/
theorem convertArguments_agrees {c : Callable} {args : List Script} {params : List Descriptor} {s : Store}
    (hknown : ∀ v ∈ args, s.Knows v) (h : c.paramsFor? (args.map s.kindOf) = some params) :
    c.InRange args ∧ params.length = args.length ∧ c.Converts args params s := by
  have hlength : params.length = args.length := by simpa using Callable.length_paramsFor? h
  cases hvariadic : c.isVariadic with
  | false =>
    obtain ⟨hexact, rfl⟩ : args.length = c.params.length ∧ c.params = params := by
      simpa [Callable.paramsFor?, hvariadic] using h
    exact ⟨⟨fun hcontra => absurd (hvariadic.symm.trans hcontra) (by decide), fun _ => hexact⟩, hlength,
      Callable.converts_of_fixed hvariadic hexact s⟩
  | true =>
    -- both sides are known once the arguments are split where the fixed parameters end
    obtain ⟨fixed, component, hparams⟩ := Callable.exists_component hvariadic
    have hfixed : c.params.length = fixed.length + 1 := by rw [hparams, List.length_append]; rfl
    have henough : fixed.length ≤ args.length := by
      by_contra hshort
      rw [Callable.paramsFor?_short hparams hvariadic (by simpa using hshort)] at h
      cases h
    refine ⟨⟨fun _ => by omega, fun hcontra => absurd (hvariadic.symm.trans hcontra) (by decide)⟩, hlength, ?_⟩
    obtain ⟨leading, trailing, rfl, hleading⟩ : ∃ leading trailing, args = leading ++ trailing ∧
        leading.length = fixed.length :=
      ⟨_, _, (List.take_append_drop fixed.length args).symm, List.length_take_of_le henough⟩
    obtain ⟨hpass, hpack⟩ := Callable.paramsFor?_variadic hparams hvariadic (leading.map s.kindOf)
      (trailing.map s.kindOf) (by simpa using hleading)
    rw [← List.map_append] at hpass hpack
    have htrailing : ∀ v ∈ trailing, s.Knows v := fun v hv => hknown v (List.mem_append_right _ hv)
    by_cases hpasses : c.PassesArray ((leading ++ trailing).map s.kindOf)
    · obtain rfl := Option.some.inj (h.symm.trans (hpass hpasses))
      rcases hrun : (convertAll leading fixed).outcome s with ⟨stop | natives, s₁⟩
      · exact Callable.converts_of_leading_error hparams hvariadic hleading hrun _
      · exact Callable.converts_of_passes hparams hvariadic hleading hrun htrailing hpasses
    · obtain rfl := Option.some.inj (h.symm.trans (hpack hpasses))
      rw [List.length_map]
      rcases hrun : (convertAll leading fixed).outcome s with ⟨stop | natives, s₁⟩
      · exact Callable.converts_of_leading_error hparams hvariadic hleading hrun _
      · exact Callable.converts_of_packs hparams hvariadic hleading hrun htrailing hpasses

/-- A script array, beside the standard types. -/
def Store.withWords : Store := { Store.standard {} false with objects := #[.array [.string "a"]] }

/-- A text, and any number of others that it goes between. -/
def joining : Callable :=
  { name := "join", declaring := .ofName "demo.Text", params := [.string, .array .string], returnType := .string,
    flags := { isPublic := true, isStatic := true, isVariadic := true }, invoker := .host "join" (.argument 0) }

/-- A script array stands for the array of texts. Other arguments are packed into one, also when there are none. -/
theorem convertArguments_agrees_joining :
    (∀ v ∈ [.string ",", .object ⟨0⟩], Store.withWords.Knows v) ∧
    joining.Converts [.string ",", .object ⟨0⟩] [.string, .array .string] .withWords ∧
    joining.Converts [.string ",", .boolean true, .string "x"] [.string, .string, .string] .withWords ∧
    ((convertArguments joining [.string ",", .boolean true, .string "x"]).outcome .withWords).1
      = .ok [.string ",", .object ⟨0⟩] ∧
    ((convertArguments joining [.string ",", .boolean true, .string "x"]).outcome .withWords).2.native ⟨0⟩
      = .array ⟨.string, [.string "true", .string "x"]⟩ ∧
    joining.Converts [.string ","] [.string] .withWords ∧
    ((convertArguments joining [.string ","]).outcome .withWords).2.native ⟨0⟩ = .array ⟨.string, []⟩ := by
  have hknown : ∀ v ∈ [.string ",", .object ⟨0⟩], Store.withWords.Knows v := by
    simp [Store.Knows, Store.withWords]
  refine ⟨hknown, (convertArguments_agrees hknown rfl).2.2, (convertArguments_agrees ?_ rfl).2.2, by rfl, by rfl,
    (convertArguments_agrees ?_ rfl).2.2, by rfl⟩
  · simp [Store.Knows]
  · simp [Store.Knows]

end Interop
