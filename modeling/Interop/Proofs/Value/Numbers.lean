import Interop.Proofs.Store.Lived
import Interop.Proofs.Value.Texts

/-!
# Numbers of objects

The number of an object is made of its primitive, which is its text or what an accessor of its value gives. The
accessor takes no arguments, so nothing is ranked to choose it, and what it runs shows its receiver at most. So numbers
end where texts do; and the number of an array needs its text.

* **`endsUnless_callAccessor`**: accessors give a value or fail.
* **`endsUnless_primitiveOf`**, **`toNumber_ends`**: numbers end where texts do.
* **`texts_end`**: which texts and numbers end.
* **`texts_without_end`**: script code can make an array that has no text.
-/

namespace Interop

variable {s s' : Store} {met : ObjectRef → Prop}

/-- What is shown by a value leads into no circle, and to no other script objects than those that are met. -/
structure Store.Plain (s : Store) (met : ObjectRef → Prop) (v : Native) : Prop where
  uncircled : ∀ y ∈ v.held, ¬ s.Circular y
  met : s.AllMeetOnly met v.held

/-! ## Code that accessors run -/

/-- A text that ends, or that a look-up stops. -/
theorem Eval.endsUnless_of_ends {x : Eval α}
    (h : (∃ a, (x.outcome s').1 = .ok a) ∨ s.StopsOnLookup met (x.outcome s').1) :
    x.EndsUnless (s.LookupStops met) s' := by
  intro stop heq
  rcases h with ⟨a, hok⟩ | ⟨stop', heq', hstop⟩
  · rw [hok] at heq
    cases heq
  · rw [heq'] at heq
    cases heq
    exact .inr hstop

/-- The text of a plain value ends, or a met wrapper stops it, however many steps later. -/
theorem Store.Plain.display {v : Native} (hv : s.Plain met v) (hs' : s.Passes met s') :
    (displayNative v).EndsUnless (s.LookupStops met) s' :=
  Eval.endsUnless_of_ends (displayNative_ends hv.met hv.uncircled hs')

/-- A refusal shows the receiver. -/
theorem endsUnless_refuse {r : NativeRef} (hr : s.Plain met (.object r)) (hs' : s.Passes met s') (name : String)
    (args : List Native) : (refuse r name args).EndsUnless (s.LookupStops met) s' :=
  (hr.display hs').bind fun _ _ _ => .fail _ _

/-- Standard code shows its receiver at most. -/
theorem StandardCode.endsUnless_run (hs' : s.Passes met s') (code : StandardCode) {this : Option Native}
    (hthis : ∀ v ∈ this, s.Plain met v) (args : List Native) :
    (code.run this args).EndsUnless (s.LookupStops met) s' := by
  have hshow : ∀ {f : String → Eval Native}, (∀ text s₁, (f text).EndsUnless (s.LookupStops met) s₁) →
      (code.receiver this >>= fun v => displayNative v >>= f).EndsUnless (s.LookupStops met) s' := by
    intro f hf
    cases this with
    | none => exact .fail _ s'
    | some v => exact ((hthis v rfl).display hs').bind fun text s₁ _ => hf text s₁
  -- all other members look at what they are given, and then give a value, change a container or fail
  cases code <;> unfold run <;> dsimp only
  case objectText => exact hshow fun _ _ => .pure _ _
  case stringIsEmpty => exact hshow fun _ _ => .pure _ _
  case objectNew => exact nofun
  case objectEquals =>
    refine (inspects_receiver _ this).bind_endsUnless fun _ => ?_
    exact (inspects_argument _ args 0).bind_endsUnless fun _ => .pure _ s'
  case stringLength =>
    refine (inspects_receiver _ this).bind_endsUnless fun v => ?_
    split
    · exact .pure _ s'
    · exact .fail _ s'
  case numberDouble => exact (inspects_numberReceiver _ this).bind_endsUnless fun _ => .pure _ s'
  case numberInt => exact (inspects_numberReceiver _ this).bind_endsUnless fun _ => .pure _ s'
  case collectionSize => exact (inspects_thisList _ this).bind_endsUnless fun _ => .pure _ s'
  case collectionIsEmpty => exact (inspects_thisList _ this).bind_endsUnless fun _ => .pure _ s'
  case collectionContains =>
    refine (inspects_thisList _ this).bind_endsUnless fun _ => ?_
    exact (inspects_argument _ args 0).bind_endsUnless fun _ => .pure _ s'
  case collectionAdd =>
    exact (inspects_thisList _ this).bind_endsUnless fun _ => (inspects_argument _ args 0).bind_endsUnless fun _ => nofun
  case listGet =>
    refine (inspects_thisList _ this).bind_endsUnless fun _ => (inspects_indexArgument _ args).bind_endsUnless fun _ => ?_
    split
    · exact .pure _ s'
    · exact .fail _ s'
  case listSet =>
    refine (inspects_thisList _ this).bind_endsUnless fun found => ?_
    refine (inspects_indexArgument _ args).bind_endsUnless fun i => ?_
    refine (inspects_argument _ args 1).bind_endsUnless fun v => ?_
    cases found.2.replaceAt i v with
    | error failure => exact .fail failure s'
    | ok replaced => exact nofun
  case mapSize => exact (inspects_thisMap _ this).bind_endsUnless fun _ => .pure _ s'
  case mapGet =>
    refine (inspects_thisMap _ this).bind_endsUnless fun _ => ?_
    exact (inspects_argument _ args 0).bind_endsUnless fun _ => .pure _ s'
  case mapPut =>
    refine (inspects_argument _ args 0).bind_endsUnless fun _ => (inspects_argument _ args 1).bind_endsUnless fun _ => ?_
    exact (inspects_thisMap _ this).bind_endsUnless fun _ => nofun
  case mapContainsKey =>
    refine (inspects_thisMap _ this).bind_endsUnless fun _ => ?_
    exact (inspects_argument _ args 0).bind_endsUnless fun _ => .pure _ s'
  all_goals
    refine (inspects_objectReceiver? this).bind_endsUnless fun o => ?_
    split
    · exact .pure _ s'
    · exact .fail _ s'

/-- Host code shows what it dispatches on, if that is no adapter. -/
theorem HostCode.endsUnless_run (hs' : s.Passes met s') (name : String) (code : HostCode) (this : Option Native)
    {args : List Native} (hargs : ∀ v ∈ args, s.Plain met v) :
    (code.run refuse name this args).EndsUnless (s.LookupStops met) s' := by
  unfold run
  refine .get_bind ?_
  cases code with
  | constant v => exact .pure _ s'
  | argument i => exact .pure _ s'
  | receiver => exact .pure _ s'
  | readField field =>
    dsimp only
    split
    · exact .pure _ s'
    · exact .fail _ s'
  | writeField field =>
    dsimp only
    split
    · exact nofun
    · exact .fail _ s'
  | allocate type fields => exact nofun
  | dispatch method =>
    dsimp only
    split
    · exact endsUnless_refuse (hargs _ List.mem_cons_self) hs' _ _
    · exact .fail _ s'
  | raise text => exact .fail _ s'

/-- Whatever an accessor runs, it gives a value or fails. -/
theorem Invoker.endsUnless_run (hs' : s.Passes met s') (invoker : Invoker) {this : Option Native}
    (hthis : ∀ v ∈ this, s.Plain met v) {args : List Native} (hargs : ∀ v ∈ args, s.Plain met v) :
    (invoker.run refuse this args).EndsUnless (s.LookupStops met) s' := by
  unfold run
  cases invoker with
  | host name code =>
    -- the call is recorded first
    exact HostCode.endsUnless_run (hs'.called name this args) name code this hargs
  | standard code => exact code.endsUnless_run hs' hthis args
  | virtual name =>
    dsimp only
    split
    · exact endsUnless_refuse (hthis _ rfl) hs' _ _
    · exact .fail _ s'
  | missing name => exact .fail _ s'

/-! ## The choice of an accessor -/

/-- A computation that changes at most what is remembered of calls, and stops only by failing. -/
def Eval.Recalls (x : Eval α) : Prop :=
  ∀ s, x.EndsUnless (fun _ => False) s ∧ ∃ memos, (x.outcome s).2 = { s with memos := memos }

/-- What only looks about changes nothing that is remembered. -/
theorem Eval.Inspects.recalls {x : Eval α} (hx : x.Inspects) : x.Recalls :=
  fun s => ⟨hx.endsUnless s, s.memos, (hx s).1⟩

theorem Eval.Recalls.get_bind {f : Store → Eval α} (hf : ∀ s, (f s).Recalls) : (get >>= f : Eval α).Recalls :=
  fun s => hf s s

theorem Eval.Recalls.bind {x : Eval α} {f : α → Eval β} (hx : x.Recalls) (hf : ∀ a, (f a).Recalls) :
    (x >>= f).Recalls := by
  intro s
  obtain ⟨hends, memos, hstore⟩ := hx s
  refine ⟨hends.bind fun a s₁ _ => (hf a s₁).1, ?_⟩
  rcases hrun : x.outcome s with ⟨stop | a, s₁⟩ <;> rw [hrun] at hstore <;> cases hstore
  · rw [outcome_bind_of_error hrun]
    exact ⟨memos, rfl⟩
  · rw [outcome_bind_of_ok hrun]
    obtain ⟨memos', hstore'⟩ := (hf a _).2
    exact ⟨memos', hstore'⟩

/-- Ranking a candidate for no arguments looks at its parameters alone. -/
theorem inspects_rankCandidate_nil (index : Nat) (c : Callable) : (rankCandidate index c []).Inspects := by
  unfold rankCandidate
  refine .get_bind fun s => ?_
  split
  · exact .pure none
  · rw [rankAll.eq_def]
    exact .pure _

theorem inspects_applicable_nil : (index : Nat) → (candidates : List Callable) →
    (applicable [] index candidates).Inspects
  | _, [] => .pure _
  | index, c :: rest => by
    rw [applicable]
    refine (inspects_rankCandidate_nil index c).bind fun _ => ?_
    exact (inspects_applicable_nil (index + 1) rest).bind fun _ => .pure _

/-- Without arguments nothing is ranked, so the choice is remembered at most. -/
theorem recalls_chooseOverload_nil (o : Overloads) : (chooseOverload o []).Recalls := by
  have hbest : (chooseBest o.set []).Inspects :=
    (inspects_applicable_nil 0 _).bind fun _ => .get_bind fun _ => .pure _
  unfold chooseOverload
  split
  · refine ((inspects_rankCandidate_nil 0 _).bind fun candidate => ?_).recalls
    cases candidate <;> exact .pure _
  · refine .get_bind fun s => ?_
    split
    · dsimp only
      split
      · exact (Eval.Inspects.pure _).recalls
      · refine hbest.recalls.bind fun resolution => ?_
        have hremember : (rememberWinner o (List.map s.argumentClass? []) resolution).Recalls := by
          cases resolution with
          | resolved index => exact fun s => ⟨nofun, _, rfl⟩
          | _ => exact (Eval.Inspects.pure _).recalls
        exact hremember.bind fun _ => (Eval.Inspects.pure _).recalls
    · exact hbest.recalls

/-- The accessor of a property is chosen from the candidates, or from the memo of such choices. -/
theorem recalls_selectCandidate_nil (o : Overloads) : (selectCandidate o []).Recalls := by
  refine (recalls_chooseOverload_nil o).bind fun resolution => .get_bind fun s => ?_
  cases resolution with
  | resolved index =>
    dsimp only
    split
    · exact (Eval.Inspects.pure _).recalls
    · exact (Eval.Inspects.fail _).recalls
  | _ => exact (Eval.Inspects.fail _).recalls

/-! ## Accessors -/

theorem inspects_receiverFor (c : Callable) (this : Option Native) : (receiverFor c this).Inspects := by
  unfold receiverFor
  split
  · exact .pure _
  · split
    · exact .pure _
    · exact .fail _

/-- The receiver of an accessor is the value that it is called on, if there is one. -/
theorem receiver_of_receiverFor {c : Callable} {v : Native} {receiver : Option Native} {s₁ : Store}
    (h : (receiverFor c (some v)).outcome s = (.ok receiver, s₁)) : ∀ w ∈ receiver, w = v := by
  unfold receiverFor at h
  split at h
  · cases h
    exact nofun
  · split at h
    · next found hfound =>
      cases h
      rintro w ⟨⟩
      exact (Option.some.inj (Option.filter_eq_some_iff.mp hfound).1).symm
    · cases h

/-- An object that shows nothing leads into no circle and to no wrapper. -/
theorem Store.Plain.of_shownBy_eq_nil {r : NativeRef} (hr : s.shownBy (.native r) = []) :
    s.Plain met (.object r) := by
  refine ⟨List.forall_mem_singleton.mpr fun hcircular => ?_, List.forall_mem_singleton.mpr fun r' hreach => ?_⟩
  · obtain ⟨y, hy, -⟩ := hcircular.exists_shows
    rw [Store.Shows, hr] at hy
    cases hy
  · cases Store.eq_of_shownBy_eq_nil hr hreach

/-- The arguments of an accessor are none, or a new array that shows nothing. -/
theorem plain_of_noArguments (hs' : s.Passes met s') {c : Callable} {args : List Native} {s₁ : Store}
    (h : (noArguments c).outcome s' = (.ok args, s₁)) : s.Passes met s₁ ∧ ∀ v ∈ args, s.Plain met v := by
  unfold noArguments at h
  split at h
  · cases h
    have hpasses := hs'.allocated (o := .array ⟨(c.params.getLast?.bind Descriptor.component?).getD .object, []⟩) rfl
    refine ⟨hpasses, List.forall_mem_singleton.mpr (.of_shownBy_eq_nil ?_)⟩
    rw [← hpasses.shownBy_eq]
    simp [Store.shownBy, Store.native, Store.addNative, NativeObject.shown]
  · cases h
    exact ⟨hs', List.forall_mem_nil _⟩

/-- **An accessor gives a value or fails**, if the text of its receiver ends. -/
theorem endsUnless_callAccessor (hs' : s.Passes met s') (o : Overloads) {v : Native} (hv : s.Plain met v) :
    (callAccessor o v).EndsUnless (s.LookupStops met) s' := by
  unfold callAccessor
  obtain ⟨hselect, memos, hstore⟩ := recalls_selectCandidate_nil o s'
  refine hselect.mono.bind fun c s₁ hc => ?_
  rw [hc] at hstore
  cases hstore
  -- the choice may be remembered, and the arguments may be a new array: nothing else has changed
  refine (inspects_receiverFor c (some v)).endsUnless _ |>.bind fun receiver s₂ hreceiver => ?_
  have hthis := receiver_of_receiverFor hreceiver
  have hsame := (inspects_receiverFor c (some v) { s' with memos := memos }).1
  rw [hreceiver] at hsame
  cases hsame
  have harguments : (noArguments c).EndsUnless (s.LookupStops met) { s' with memos := memos } := by
    unfold noArguments
    split <;> exact nofun
  refine harguments.bind fun args s₃ hargs => ?_
  obtain ⟨hs₃, hplain⟩ := plain_of_noArguments (hs'.chosen memos) hargs
  refine Eval.EndsUnless.bind (c.invoker.endsUnless_run hs₃ (fun w hw => ?_) hplain) fun _ _ _ => nofun
  rw [hthis w hw]
  exact hv

/-! ## Numbers -/

/-- **Numbers end where texts do**, and so do all primitives of objects. -/
theorem endsUnless_primitiveOf {r : ObjectRef} (hr : ¬ s.Circular (.object r)) (hmet : s.MeetsOnly met (.object r))
    (hint : Hint) : (primitiveOf r hint).EndsUnless (s.LookupStops met) s := by
  unfold primitiveOf
  refine .get_bind ?_
  cases hobject : s.object r with
  | plain _ => exact nofun
  | array elements =>
    -- an array has the number of its text
    have htext := displayScript_ends (v := .object r) (List.forall_mem_singleton.mpr hmet)
      (List.forall_mem_singleton.mpr hr) .refl
    exact (Eval.endsUnless_of_ends htext).bind fun _ _ _ => nofun
  | proxy p =>
    have hshown : ∀ y ∈ p.value.held, s.Shows (.object r) y := by
      intro y hy
      rw [Store.Shows, Store.shownBy, hobject]
      exact hy
    have hvalue : s.Plain met p.value :=
      ⟨fun y hy hcircular => hr (.of_shows (hshown y hy) hcircular), fun y hy => hmet.of_shows (hshown y hy)⟩
    have htext : ∀ {s₁}, s.Passes met s₁ →
        (do pure (.string (← displayNative p.value)) : Eval Script).EndsUnless (s.LookupStops met) s₁ :=
      fun hs₁ => (hvalue.display hs₁).bind fun _ _ _ => nofun
    dsimp only
    split
    · exact htext .refl
    · exact htext .refl
    · -- a proxy asks an accessor, or else has the number of its text; what it shows is in no circle
      next hnoArray hnoClass =>
      obtain ⟨hs₁, hmembers⟩ := Store.passes_attempt_proxyMembers .refl (hmet r .refl) hobject ⟨hnoArray, hnoClass⟩
      refine (Eval.endsUnless_of_ends hmembers).bind fun members s₁ hrun => ?_
      rw [hrun] at hs₁
      unfold proxyPrimitive
      dsimp only
      split
      · exact endsUnless_callAccessor hs₁ _ hvalue
      · exact htext hs₁

/-- The number of an object is that of its primitive; where the primitive fails, it is not a number. -/
theorem outcome_toNumber_object (s : Store) (r : ObjectRef) :
    ((toNumber (.object r)).outcome s).1 =
      match ((primitiveOf r .number).outcome s).1 with
      | .ok primitive => .ok primitive.primitiveNumber
      | .error (.failed _) => .ok .nan
      | .error stop => .error stop := by
  rw [toNumber, Eval.outcome_bind, Eval.outcome_attempt]
  rcases (primitiveOf r .number).outcome s with ⟨(failure | name | _) | primitive, s₁⟩ <;> rfl

/-- **Numbers of script values end** where nothing that they show leads into a circle. -/
theorem toNumber_ends {v : Script} (hmet : s.AllMeetOnly met v.shown) (hv : ∀ y ∈ v.shown, ¬ s.Circular y) :
    (∃ x, ((toNumber v).outcome s).1 = .ok x) ∨ s.StopsOnLookup met ((toNumber v).outcome s).1 := by
  cases v with
  | object r =>
    have hprimitive := endsUnless_primitiveOf (hv _ (List.mem_singleton_self _)) (hmet _ (List.mem_singleton_self _))
      .number
    rw [outcome_toNumber_object]
    rcases hrun : ((primitiveOf r .number).outcome s).1 with stop | primitive
    · rcases hprimitive stop hrun with ⟨failure, rfl⟩ | hstop
      · exact .inl ⟨.nan, rfl⟩
      · refine .inr ⟨stop, ?_, hstop⟩
        cases stop with
        | failed failure => exact absurd rfl (hstop.ne_failed failure)
        | _ => rfl
    · exact .inl ⟨_, rfl⟩
  | _ => exact .inl ⟨_, rfl⟩

/-- **The number of an array needs its text**: it does not end where that does not. -/
theorem toNumber_array {r : ObjectRef} {elements : List Script} (hr : s.object r = .array elements) {stop : Stop}
    (h : ((displayScript (.object r)).outcome s).1 = .error stop) (hstop : ∀ failure, stop ≠ .failed failure) :
    ((toNumber (.object r)).outcome s).1 = .error stop := by
  have hprimitive : ((primitiveOf r .number).outcome s).1 = .error stop := by
    rw [primitiveOf, Eval.outcome_get_bind, hr]
    rw [Eval.outcome_bind_of_error (Prod.ext h rfl)]
  rw [outcome_toNumber_object, hprimitive]
  cases stop with
  | failed failure => exact absurd rfl (hstop failure)
  | _ => rfl

/-! ## Texts and numbers -/

/--
**Texts end unless they lead into a circle.** Where nothing that a native or a script value shows leads to an object
that shows itself in the end, its text is found, and so is the number of a script value; where something does, no
allowance is enough for the text, nor is there a number of an array. Either way, a look-up that a wrapper makes on the
way may stop the computation first; that is all that may.
-/
theorem texts_end (s : Store) :
    (∀ v : Native,
      ((∀ x ∈ v.held, ¬ s.Circular x) →
        (displayNative v).SucceedsAt s ∨ s.StopsOnLookup (s.Meets v.held) ((displayNative v).outcome s).1) ∧
      ∀ x ∈ v.held, s.Circular x → ∀ n,
        ((displayNativeWithin n v).outcome s).1 = .error .diverged ∨
        s.StopsOnLookup (s.Meets v.held) ((displayNativeWithin n v).outcome s).1) ∧
    (∀ v : Script,
      ((∀ x ∈ v.shown, ¬ s.Circular x) →
        (displayScript v).SucceedsAt s ∨ s.StopsOnLookup (s.Meets v.shown) ((displayScript v).outcome s).1) ∧
      ∀ x ∈ v.shown, s.Circular x → ∀ n,
        ((displayScriptWithin n v).outcome s).1 = .error .diverged ∨
        s.StopsOnLookup (s.Meets v.shown) ((displayScriptWithin n v).outcome s).1) ∧
    (∀ v : Script, (∀ x ∈ v.shown, ¬ s.Circular x) →
      (toNumber v).SucceedsAt s ∨ s.StopsOnLookup (s.Meets v.shown) ((toNumber v).outcome s).1) ∧
    ∀ r elements, s.object r = .array elements → s.Circular (.object r) →
      ((toNumber (.object r)).outcome s).1 = .error .diverged ∨
      s.StopsOnLookup (s.Meets [.object r]) ((toNumber (.object r)).outcome s).1 := by
  have hmeets : ∀ shown, s.AllMeetOnly (s.Meets shown) shown := fun shown _ => Store.meetsOnly_meets
  have hsucceeds : ∀ {α : Type} {x : Eval α} {met}, (∃ a, (x.outcome s).1 = .ok a) ∨ s.StopsOnLookup met (x.outcome s).1 →
      x.SucceedsAt s ∨ s.StopsOnLookup met (x.outcome s).1 :=
    fun h => h.imp_left fun ⟨a, ha⟩ => ⟨a, _, Prod.ext ha rfl⟩
  refine ⟨fun v => ⟨fun hv => ?_, fun x hx => displayNative_diverges hx⟩,
    fun v => ⟨fun hv => ?_, fun x hx => displayScript_diverges hx⟩, fun v hv => ?_, fun r elements hr hcircular => ?_⟩
  · exact hsucceeds (displayNative_ends (hmeets _) hv .refl)
  · exact hsucceeds (displayScript_ends (hmeets _) hv .refl)
  · exact hsucceeds (toNumber_ends (hmeets _) hv)
  · -- the number of an array is that of its text, which the same look-up stops
    rcases displayScript_diverges (v := .object r) (List.mem_singleton_self _) hcircular s.depth with
      htext | ⟨stop, htext, hstop⟩
    · exact .inl (toNumber_array hr htext nofun)
    · exact .inr ⟨stop, toNumber_array hr htext hstop.ne_failed, hstop⟩

/-- A list with a handle in it, its proxy, and an array that holds the proxy twice. -/
def Store.nest : Store :=
  let s := ((Store.standard {} false).addNative (.list ⟨.list, .unspecified, [.int 1, .object ⟨1⟩]⟩)).2
  let s := (s.addNative (.handle (.string "x"))).2
  let s := (s.addProxy .ofList (.object ⟨0⟩) (.interface Standard.listName false)).2
  (s.addObject (.array [.object ⟨0⟩, .null, .object ⟨0⟩])).2

/-- An array beside two classes that extend one another, of which the host does not list the first. -/
def Store.besideMirrors : Store :=
  ({ Store.standard {} false with types := MemberCache.mirrors }.addObject (.array [.number .one])).2

/-- In the standard registry every look-up ends. -/
theorem Store.lookupsEnd_standard (config : Config) (wrapPrimitives : Bool) :
    (Store.standard config wrapPrimitives).LookupsEnd where
  declared := TypeTable.declared_of_entries (t := StandardType.table) (by decide +kernel)
  cache := MemberCache.sound_empty
  away := (TypeTable.acyclic_of_order (t := StandardType.table) (by decide +kernel) (by decide +kernel)).climbsAway

/-- What is shown twice is no circle, and look-ups that may have no end do not matter where no wrapper makes them. -/
theorem texts_end_nest :
    (displayScript (.object ⟨1⟩)).SucceedsAt .nest ∧ (toNumber (.object ⟨1⟩)).SucceedsAt .nest ∧
    ¬ Store.besideMirrors.LookupsEnd ∧ (displayScript (.object ⟨0⟩)).SucceedsAt .besideMirrors := by
  obtain ⟨hdeclared, hcache, haway⟩ := Store.lookupsEnd_standard {} false
  have hends : Store.nest.LookupsEnd := ⟨hdeclared, hcache, haway⟩
  have hnest : ∀ x ∈ (Script.object ⟨1⟩).shown, ¬ Store.nest.Circular x := by decide +kernel
  have hbeside : ∀ x ∈ (Script.object ⟨0⟩).shown, ¬ Store.besideMirrors.Circular x := by decide +kernel
  obtain ⟨-, htext, hnumber, -⟩ := texts_end .nest
  obtain ⟨-, htext', -, -⟩ := texts_end .besideMirrors
  refine ⟨((htext _).1 hnest).resolve_right (hends.not_stopsOnLookup _),
    (hnumber _ hnest).resolve_right (hends.not_stopsOnLookup _), fun hmirrors => ?_,
    ((htext' _).1 hbeside).resolve_right (Store.not_stopsOnLookup_of_meets ?_ _)⟩
  · have hthere : MemberCache.mirrors.nextAfterRefusal (.ofName "demo.Near") = some (.ofName "demo.Far") := by
      decide +kernel
    have hback : MemberCache.mirrors.nextAfterRefusal (.ofName "demo.Far") = some (.ofName "demo.Near") := by
      decide +kernel
    exact hmirrors.away _ (.head hthere (.single hback))
  · -- the array leads to nothing but itself
    rintro r ⟨x, hx, hr⟩
    cases List.mem_singleton.mp hx
    cases Store.eq_of_shownBy_eq_nil rfl hr
    rfl

/-- An array that has been put into itself, and a handle of it. -/
def Store.knot : Store :=
  let s := ((Operation.newArray [.string "x"]).run.outcome (.standard {} false)).2
  let s := ((Operation.putProperty 0 ⟨0⟩ (.index 1) (.object ⟨0⟩)).run.outcome s).2
  ((Operation.newNative (.handle (.object ⟨0⟩))).run.outcome s).2

/-- **Not all texts end.** Script code can put an array into itself, and then neither the array nor a handle of it has a
text, nor the array a number. -/
theorem texts_without_end :
    Store.knot.Lived ∧ Store.knot.object ⟨0⟩ = .array [.string "x", .object ⟨0⟩] ∧
    (∀ n, ((displayScriptWithin n (.object ⟨0⟩)).outcome .knot).1 = .error .diverged) ∧
    (∀ n, ((displayNativeWithin n (.object ⟨0⟩)).outcome .knot).1 = .error .diverged) ∧
    ((displayScript (.object ⟨0⟩)).outcome .knot).1 = .error .diverged ∧
    ((displayNative (.object ⟨0⟩)).outcome .knot).1 = .error .diverged ∧
    ((toNumber (.object ⟨0⟩)).outcome .knot).1 = .error .diverged := by
  obtain ⟨hdeclared, hcache, haway⟩ := Store.lookupsEnd_standard {} false
  have hends : Store.knot.LookupsEnd := ⟨hdeclared, hcache, haway⟩
  have hcircles : Store.knot.Circular (.object ⟨0⟩) ∧ Store.knot.Circular (.native ⟨0⟩) := by decide +kernel
  have hscript : ∀ n, ((displayScriptWithin n (.object ⟨0⟩)).outcome .knot).1 = .error .diverged := fun n =>
    (displayScript_diverges (List.mem_singleton_self _) hcircles.1 n).resolve_right (hends.not_stopsOnLookup _)
  have hnative : ∀ n, ((displayNativeWithin n (.object ⟨0⟩)).outcome .knot).1 = .error .diverged := fun n =>
    (displayNative_diverges (List.mem_singleton_self _) hcircles.2 n).resolve_right (hends.not_stopsOnLookup _)
  have harray : Store.knot.object ⟨0⟩ = .array [.string "x", .object ⟨0⟩] := rfl
  refine ⟨?_, harray, hscript, hnative, hscript _, hnative _, toNumber_array harray (hscript _) nofun⟩
  exact .operation (.operation (.operation (.standard {} false) _) _) _

end Interop
