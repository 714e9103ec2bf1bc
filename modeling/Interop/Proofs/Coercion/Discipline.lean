import Interop.Coercion.Convert
import Interop.Proofs.Call.Discipline
import Interop.Proofs.Coercion.Ranking
import Interop.Proofs.Descriptor.Substitution
import Interop.Proofs.Member.Origins

/-!
# Conversion under a discipline

Ranking and conversion follow every discipline that admits the type they are asked for: the one stop that they cause
themselves is a type variable in it. Everything else that may happen on the way is a look-up, the making of an object,
or native code that runs for the number of a value. Only this code may change a list, and not without arguments, so
where the standard members take a fixed number of them conversion follows every regime.

* **`Regime.Admits`**: the type mentions no variables, or these may be met.
* **`follows_toNumber`**: the number of a value, where lists may change or standard members do not vary in arity.
* **`follows_rankOf`**, **`follows_convert`**: the two walks over types.
-/

namespace Interop

variable {D : Regime}

/-! ## Ranking -/

/-- No variable can be met in a type, or meeting one is allowed. -/
def Regime.Admits (D : Regime) (d : Descriptor) : Prop :=
  d.mentionsVariables = false ∨ ∀ name, D.allows (.unresolvedVariable name)

namespace Regime.Admits

/-- A discipline that accepts an array type accepts its component type. -/
theorem component {c : Descriptor} (h : D.Admits (.array c)) : D.Admits c := by
  refine h.imp_left fun h => ?_
  rwa [Descriptor.mentionsVariables] at h

theorem argument {raw d : Descriptor} {args : List Descriptor} (h : D.Admits (.parameterized raw args))
    (hd : d ∈ args) : D.Admits d := by
  refine h.imp_left fun h => ?_
  rw [Descriptor.mentionsVariables, Descriptor.anyMentionsVariables_eq_false_iff] at h
  exact h d hd

theorem member {d : Descriptor} {members : List Descriptor} (h : D.Admits (.union members))
    (hd : d ∈ members) : D.Admits d := by
  refine h.imp_left fun h => ?_
  rw [Descriptor.mentionsVariables, Descriptor.anyMentionsVariables_eq_false_iff] at h
  exact h d hd

theorem field {field : String × Descriptor} {fields : List (String × Descriptor)} (h : D.Admits (.objectShape fields))
    (hfield : field ∈ fields) : D.Admits field.2 := by
  refine h.imp_left fun h => ?_
  rw [Descriptor.mentionsVariables, Descriptor.fieldsMentionVariables_eq_false_iff] at h
  exact h field hfield

end Regime.Admits

/-- Whether a value can implement an interface is answered by looking at members, which is browsing. -/
theorem browses_canImplement (interface : Descriptor) (isFunction : Bool) :
    (canImplement interface isFunction).Browses := by
  intro s
  unfold canImplement
  cases interface.typeId? with
  | none => exact .pure false s
  | some id =>
    refine (Eval.BrowsesAt.membersOf id none false s).attempt.bind fun result s₁ _ => ?_
    cases result with
    | error _ => exact .pure false s₁
    | ok members => exact .pure _ s₁

/-- Ranking a script value against a target looks at no more than that. -/
theorem browses_rankScript (kind : ValueKind) (target : Target) : (rankScript kind target).Browses := by
  intro s
  rw [rankScript.eq_def]
  split
  case h_6 d => exact (browses_canImplement d true s).bind fun _ s₁ _ => .pure _ s₁
  case h_7 d => exact (browses_canImplement d false s).bind fun _ s₁ _ => .pure _ s₁
  all_goals exact .pure _ s

/-- Ranking for a target only looks. -/
theorem browses_rankTarget (v : Script) (target : Target) : (rankTarget v target).Browses := by
  intro s
  unfold rankTarget
  refine .get_bind ?_
  split
  · exact .pure _ s
  · split
    case h_9 => exact browses_rankScript _ _ s
    case h_1 => split <;> exact .pure _ s
    all_goals exact .pure _ s

theorem follows_rankTarget (v : Script) (target : Target) : (rankTarget v target).Follows D :=
  (browses_rankTarget v target).follows

/-- Only a variable is no target. -/
theorem allows_of_targetOf {t : TypeTable} {d : Descriptor} (hd : D.Admits d) {stop : Stop}
    (h : t.targetOf d = .error stop) : D.allows stop := by
  cases d <;> cases h
  rcases hd with hd | hd
  · cases hd
  · exact hd _

mutual

/-- Ranking follows every discipline; over a union it ranks the value against each member. -/
theorem follows_rankOf (v : Script) : (d : Descriptor) → D.Admits d → (rankOf v d).Follows D
  | .union members, hd => by
    rw [rankOf]
    exact follows_bestRank v members fun _ hmember => hd.member hmember
  | .unspecified, hd | .plain _, hd | .array _, hd | .parameterized _ _, hd | .enumeration _, hd | .interface _ _, hd
  | .typeVar _ _, hd | .stringLiteral _, hd | .numberLiteral _, hd | .booleanLiteral _, hd | .objectShape _, hd
  | .functionShape _ _, hd => by
    rw [rankOf_eq (by simp)]
    exact .read fun _ => (Eval.Follows.ofResult fun _ => allows_of_targetOf hd).bind fun _ => follows_rankTarget v _

theorem follows_bestRank (v : Script) :
    (members : List Descriptor) → (∀ d ∈ members, D.Admits d) → (bestRank v members).Follows D
  | [], _ => by
    rw [bestRank]
    exact .pure _
  | d :: ds, hds => by
    rw [bestRank]
    exact (follows_rankOf v d (hds d List.mem_cons_self)).bind fun _ =>
      (follows_bestRank v ds fun d' hd' => hds d' (List.mem_cons_of_mem _ hd')).bind fun _ => .pure _

end

/-! ## Numbers

The accessor that gives the number of a value takes no arguments, so nothing is ranked to choose it. -/

theorem follows_rankCandidate_nil (index : Nat) (c : Callable) : (rankCandidate index c []).Follows D := by
  unfold rankCandidate
  refine .read fun s => ?_
  split
  · exact .pure none
  · rw [rankAll.eq_def]
    exact .pure _

theorem follows_applicable_nil : (index : Nat) → (candidates : List Callable) →
    (applicable [] index candidates).Follows D
  | _, [] => .pure _
  | index, c :: rest => by
    rw [applicable]
    refine (follows_rankCandidate_nil index c).bind fun _ => ?_
    exact (follows_applicable_nil (index + 1) rest).bind fun _ => .pure _

theorem follows_chooseOverload_nil (o : Overloads) : (chooseOverload o []).Follows D := by
  have hbest : (chooseBest o.set []).Follows D := (follows_applicable_nil 0 _).bind fun _ => .read fun _ => .pure _
  unfold chooseOverload
  split
  · refine (follows_rankCandidate_nil 0 _).bind fun candidate => ?_
    cases candidate <;> exact .pure _
  · refine .read fun s => ?_
    split
    · dsimp only
      split
      · exact .pure _
      · refine hbest.bind fun resolution => ?_
        have hremember : (rememberWinner o (List.map s.argumentClass? []) resolution).Follows D := by
          cases resolution with
          | resolved index => exact .modify (fun s => .memos s _) fun _ => by rfl
          | _ => exact .pure _
        exact hremember.bind fun _ => .pure _
    · exact hbest

theorem follows_selectCandidate_nil (o : Overloads) : (selectCandidate o []).Follows D := by
  refine (follows_chooseOverload_nil o).bind fun resolution => .read fun s => ?_
  cases resolution with
  | resolved index =>
    dsimp only
    split
    · exact .pure _
    · exact .fail _
  | _ => exact .fail _

theorem follows_noArguments (c : Callable) : (noArguments c).Follows D := by
  unfold noArguments
  split
  · exact (Eval.Follows.newNative _).bind fun _ => .pure _
  · exact .pure _

theorem follows_receiverFor (c : Callable) (this : Option Native) : (receiverFor c this).Follows D := by
  unfold receiverFor
  split
  · exact .pure _
  · split
    · exact .pure _
    · exact .fail _

/-- Standard members take a fixed number of arguments. -/
def Requirement.fixedArity : Requirement where
  callable c := ∀ code, c.invoker = .standard code → c.isVariadic = false
  field _ _ := True

/-- Standard members that proxies have noted take a fixed number of arguments. -/
def Store.NotesFixedArity (s : Store) : Prop :=
  ∀ r p m, s.object r = .proxy p → p.members = some m → m.entry.Meets .fixedArity

/-- The candidate that is selected is one of the set. -/
theorem mem_of_selectCandidate {o : Overloads} {args : List Script} {c : Callable} {s s' : Store}
    (h : (selectCandidate o args).outcome s = (.ok c, s')) : c ∈ o.set.candidates := by
  obtain ⟨_, -, hstop⟩ | ⟨resolution, s₁, -, h⟩ := Eval.outcome_bind_cases h
  · cases hstop
  rw [Eval.outcome_get_bind] at h
  cases resolution with
  | resolved index =>
    dsimp only at h
    split at h
    · next found hfound =>
      cases h
      exact List.mem_of_getElem? hfound
    · cases h
  | _ => cases h

/-- A property is read by calling its accessor without arguments, which is all that coercion ever runs of host code. -/
theorem follows_callAccessor (o : Overloads) (v : Native) (hlists : o.set.Meets .fixedArity ∨ D.LetsListsChange) :
    (callAccessor o v).Follows D := by
  intro s hs
  refine (follows_selectCandidate_nil o s hs).bind fun c s₁ hselect hs₁ => ?_
  refine (follows_receiverFor c _ s₁ hs₁).bind fun receiver s₂ _ hs₂ => ?_
  refine (follows_noArguments c s₂ hs₂).bind fun args s₃ hargs hs₃ => ?_
  have hrun : (c.invoker.run refuse receiver args).Follows D := by
    refine Invoker.follows_run follows_refuse c.invoker receiver args (hlists.imp_left fun ho code hcode => ?_)
    rw [noArguments, ho c (mem_of_selectCandidate hselect) code hcode] at hargs
    cases hargs
    rfl
  exact (hrun.bind fun _ => .wrap _ _) s₃ hs₃

/-- The primitive value of a proxy comes from the first accessor that its hint names and its type has, else from its
text. -/
theorem follows_proxyPrimitive (members : Option Membership) (v : Native) (hint : Hint)
    (hlists : (∀ m ∈ members, m.entry.Meets .fixedArity) ∨ D.LetsListsChange) :
    (proxyPrimitive members v hint).Follows D := by
  unfold proxyPrimitive
  dsimp only
  split
  · next o ho =>
    obtain ⟨name, -, ho⟩ := Option.bind_eq_some_iff.mp ho
    obtain ⟨m, hm, ho⟩ := Option.bind_eq_some_iff.mp ho
    obtain ⟨overloads, hoverloads, ho⟩ := Option.bind_eq_some_iff.mp ho
    split at ho
    · cases ho
      exact follows_callAccessor _ v (hlists.imp_left fun h => (h m hm).overloads? hoverloads)
    · cases ho
  · exact (follows_displayNative v).bind fun _ => .pure _

section Numbers

variable (hlists : (∀ s, D.holds s → s.NotesFixedArity) ∨ D.LetsListsChange)
include hlists

theorem follows_primitiveOf (r : ObjectRef) (hint : Hint) : (primitiveOf r hint).Follows D := by
  refine .get_bind fun s hs => ?_
  cases hr : s.object r with
  | plain _ => exact Eval.Follows.pure _ s hs
  | array _ => exact ((follows_displayScript _).bind fun _ => .pure _) s hs
  | proxy p =>
    have hmembers := ((Eval.browsesAt_proxyMembers hr).followsAt hs).attempt
    have htext : (do pure (.string (← displayNative p.value)) : Eval Script).Follows D :=
      (follows_displayNative _).bind fun _ => .pure _
    dsimp only
    split
    · exact htext s hs
    · exact htext s hs
    · refine hmembers.bind fun members s₁ hrun hs₁ => follows_proxyPrimitive _ p.value hint ?_ s₁ hs₁
      -- the proxy has taken note of the members that it was shown
      refine hlists.imp_left fun hfixed m hm => ?_
      have hnoted := object_proxyMembers (p := p) hr (fun _ hknown => hknown) (Eval.outcome_of_attempt hrun hm)
      exact hfixed s₁ hs₁ r _ m hnoted rfl

/-- **The number of a value.** Native code is called for it without arguments, and puts nothing into a list where the
standard members take a fixed number of them. -/
theorem follows_toNumber (v : Script) : (toNumber v).Follows D := by
  unfold toNumber
  cases v with
  | object r =>
    refine (follows_primitiveOf hlists r .number).attempt.bind fun result => ?_
    cases result <;> exact .pure _
  | _ => exact .pure _

end Numbers

/-! ## Constants and adapters -/

/-- Reading a field touches no more than the place where it is stored. -/
theorem Storage.follows_read (storage : Storage) (this : Option Native) : (storage.read this).Follows D := by
  unfold read
  refine .read fun s => ?_
  cases storage with
  | cell r => exact .pure _
  | slot name unset =>
    dsimp only
    split
    · exact .pure _
    · exact .fail _
  | broken name => exact .fail _

/-- A constant is read from the static field of its name, or made anew where its type shows none. -/
theorem follows_constantObject (enumName : String) (ordinal : Nat) (name : String) :
    (constantObject enumName ordinal name).Follows D := by
  refine (Eval.Follows.membersOf _ none false).attempt.bind fun members => ?_
  split
  · split
    · split
      · exact Storage.follows_read _ none
      · exact .newNative _
    · exact .newNative _
  · exact .newNative _

/-- The constant at an ordinal is found, or the number is refused. -/
theorem follows_constantByOrdinal (enumName : String) (x : Double) : (constantByOrdinal enumName x).Follows D := by
  refine .read fun s => ?_
  dsimp only
  split
  · exact follows_constantObject _ _ _
  · exact .fail _

/-- A constant is found by its name, or by its ordinal where the text is a number. -/
theorem follows_constantByName (enumName text : String) : (constantByName enumName text).Follows D := by
  refine .read fun s => ?_
  dsimp only
  split
  · exact follows_constantObject _ _ _
  · split
    · exact follows_constantByOrdinal _ _
    · exact .fail _

/-- A new adapter has the members of its interface, which are kept. -/
theorem outcome_newAdapter {v : Script} {interface : Descriptor} {id : TypeId} {key : Option AdapterKey} {s s' : Store}
    {r : NativeRef} (h : (newAdapter v interface id key).outcome s = (.ok r, s')) :
    ∃ m flag, s'.native r = .adapter v interface m key ∧ s'.memberCache.find? id flag = some m := by
  rw [newAdapter] at h
  obtain ⟨_, _, hstop⟩ | ⟨m, s₁, hmembers, hnew⟩ := Eval.outcome_bind_cases h
  · cases hstop
  rw [Eval.outcome_membersOf] at hmembers
  obtain ⟨hm, rfl⟩ := Prod.mk.inj hmembers
  cases hnew
  exact ⟨m, _, Store.native_addNative _ _, MemberCache.find?_lookup (Prod.ext hm rfl)⟩

/-- A new adapter is a new native and a new entry of the cache. -/
theorem follows_newAdapter (v : Script) (interface : Descriptor) (id : TypeId) (key : Option AdapterKey) :
    (newAdapter v interface id key).Follows D := by
  refine (Eval.Follows.membersOf id none false).bind fun m => .get_bind fun s hs => ?_
  exact ⟨D.change (.referred _ _) (.of_natives_eq rfl) (D.change (.addNative s _) (.addNative s _) hs), nofun⟩

/-- An adapter that is asked for is one that is kept from then on, or the one that was made last. -/
theorem outcome_cachedAdapter {key : AdapterKey} {make : Eval NativeRef} {s s' : Store} {r : NativeRef}
    (h : (cachedAdapter key make).outcome s = (.ok r, s')) :
    s'.adapters.lookup key = some r ∨
      ∃ s₁, make.outcome s.releaseAdapters = (.ok r, s₁) ∧ s' = { s₁ with adapters := Store.putEntry key r s₁.adapters } := by
  rw [cachedAdapter, Eval.outcome_bind_of_ok (Eval.outcome_modify _ _), Eval.outcome_get_bind] at h
  cases hfound : s.releaseAdapters.upgrade? key with
  | some kept =>
    rw [hfound] at h
    cases h
    exact .inl (Store.upgrade?_eq_some_iff.mp hfound).1
  | none =>
    rw [hfound] at h
    obtain ⟨_, _, hstop⟩ | ⟨made, s₁, hmade, hpublish⟩ := Eval.outcome_bind_cases h
    · cases hstop
    rw [Eval.outcome_get_bind, Store.publish] at hpublish
    -- the entry may have been taken while the adapter was made
    cases hagain : s₁.upgrade? key with
    | some winner =>
      rw [hagain] at hpublish
      cases hpublish
      exact .inl (Store.upgrade?_eq_some_iff.mp hagain).1
    | none =>
      rw [hagain] at hpublish
      cases hpublish
      exact .inr ⟨s₁, hmade, rfl⟩

/-- Adapting a value gives an adapter: one that is kept under the value and the interface, or a new one. -/
theorem outcome_adapterFor {v : Script} {interface : Descriptor} {s s' : Store} {adapter : Native}
    (h : (adapterFor v interface).outcome s = (.ok adapter, s')) :
    ∃ id r, interface.typeId? = some id ∧ adapter = .object r ∧
      ((∃ identity, v.identity? = some identity ∧ s'.adapters.lookup (identity, id) = some r) ∨
        ∃ m key flag, s'.native r = .adapter v interface m key ∧ s'.memberCache.find? id flag = some m) := by
  unfold adapterFor at h
  cases hid : interface.typeId? with
  | none =>
    rw [hid] at h
    obtain ⟨_, _, hstop⟩ | ⟨_, _, _, hfail⟩ := Eval.outcome_bind_cases h
    · cases hstop
    · cases hfail
  | some id =>
    simp only [hid, Eval.outcome_get_bind] at h
    split at h
    · -- without a cache, or for a value without identity, the adapter is new
      obtain ⟨r, hnew, rfl⟩ := Eval.exists_of_outcome_map h
      obtain ⟨m, flag, hr, hm⟩ := outcome_newAdapter hnew
      exact ⟨id, r, rfl, rfl, .inr ⟨m, none, flag, hr, hm⟩⟩
    · next identity hidentity =>
      have hidentity : v.identity? = some identity := by
        split at hidentity
        · exact hidentity
        · cases hidentity
      obtain ⟨r, hrun, rfl⟩ := Eval.exists_of_outcome_map h
      -- with one, it was there under the key or is new
      rcases outcome_cachedAdapter hrun with hkept | ⟨s₁, hnew, rfl⟩
      · exact ⟨id, r, rfl, rfl, .inl ⟨identity, hidentity, hkept⟩⟩
      · obtain ⟨m, flag, hr, hm⟩ := outcome_newAdapter hnew
        exact ⟨id, r, rfl, rfl, .inr ⟨m, some (identity, id), flag, hr, hm⟩⟩

/-- Only an adapter whose members are in the cache is kept. -/
theorem follows_cachedAdapter {v : Script} {identity : Identity} (hidentity : v.identity? = some identity)
    (interface : Descriptor) (id : TypeId) (key : Option AdapterKey) :
    (cachedAdapter (identity, id) (newAdapter v interface id key)).Follows D := by
  refine (Eval.Follows.modify (fun s => .releaseAdapters s) Store.natives_releaseAdapters).bind fun _ => .read fun s => ?_
  cases s.upgrade? (identity, id) with
  | some r => exact .pure r
  | none =>
    intro s₁ hs₁
    refine (follows_newAdapter v interface id key s₁ hs₁).bind fun made s₂ hrun hs₂ => ?_
    obtain ⟨m, flag, hr, hm⟩ := outcome_newAdapter hrun
    refine .get_bind ?_
    rw [Store.publish]
    cases s₂.upgrade? (identity, id) with
    | some winner => exact ⟨hs₂, nofun⟩
    | none => exact ⟨D.change (.keepAdapter hr hm hidentity) (.of_natives_eq rfl) hs₂, nofun⟩

/-- With the cache in front, an adapter that is there already is taken as it is. -/
theorem follows_adapterFor (v : Script) (interface : Descriptor) : (adapterFor v interface).Follows D := by
  unfold adapterFor
  cases interface.typeId? with
  | none => exact follows_cannotConvert v interface
  | some id =>
    refine .read fun s => ?_
    split
    · exact (follows_newAdapter v interface id none).map _
    · next identity hidentity =>
      have hidentity : v.identity? = some identity := by
        split at hidentity
        · exact hidentity
        · cases hidentity
      exact (follows_cachedAdapter hidentity interface id _).map _

/-! ## Conversion -/

theorem follows_asIs (v : Script) : (asIs v).Follows D := by
  unfold asIs
  cases v with
  | object r =>
    refine .read fun s => ?_
    split
    · exact .pure _
    · exact .newNative _
  | callable r => exact .newNative _
  | _ => exact .pure _

theorem follows_atElement (i length : Nat) {x : Eval α} (hx : x.Follows D) : (atElement i length x).Follows D := by
  refine .tryCatch hx fun stop hallowed => ?_
  split
  · exact .fail _
  · exact .stop hallowed

section Containers

variable {convertOne : Script → Eval Native} (hone : ∀ v, (convertOne v).Follows D)
include hone

/-- Elements are converted one after the other, each of them with its position in the path of a failure. -/
theorem follows_convertElements (length : Nat) : (i : Nat) → (elements : List Script) →
    (convertElements convertOne length i elements).Follows D
  | _, [] => .pure _
  | i, v :: rest => by
    rw [convertElements]
    exact (follows_atElement i length (hone v)).bind fun native =>
      (Eval.Follows.holding _ (follows_convertElements length (i + 1) rest)).bind fun _ => .pure _

/-- Elements that are natives already are wrapped and converted again. -/
theorem follows_convertAgain (type : Descriptor) : (elements : List Native) →
    (convertAgain convertOne type elements).Follows D
  | [] => .pure _
  | v :: rest => by
    rw [convertAgain]
    exact (Eval.Follows.wrap v type).bind fun script => (hone script).bind fun native =>
      (Eval.Follows.holding _ (follows_convertAgain type rest)).bind fun _ => .pure _

/-- Copying a list converts its elements and stores one new list. -/
theorem follows_copyList (l : NativeList) (raw : TypeId) (element : Descriptor) :
    (copyList l raw element convertOne).Follows D :=
  (follows_convertAgain hone l.elementType l.elements).bind fun _ => .newNative _

/-- Filling a map reads the properties one by one and binds the converted values. -/
theorem follows_fillMap {convertValue : Script → Eval Native} (hvalue : ∀ v, (convertValue v).Follows D)
    (properties : List (String × Script)) : (names : List String) → (m : NativeMap) →
      (fillMap convertOne convertValue properties names m).Follows D
  | [], _ => .pure _
  | name :: rest, m => by
    rw [fillMap]
    exact (hone _).bind fun key => (Eval.Follows.holding _ (hvalue _)).bind fun value =>
      follows_fillMap hvalue properties rest _

end Containers

/-- The conversions to the parts of a type follow the discipline. -/
structure PartConverters.Follow (D : Regime) (parts : PartConverters) : Prop where
  first : ∀ v, (parts.first v).Follows D
  second : ∀ v, (parts.second v).Follows D
  fields : ∀ read : String → Eval Script, (∀ name, (read name).Follows D) → (parts.fields read).Follows D

/-- A value of a kind, if the number fits. -/
theorem follows_getD {result : Option Native} {failure : Eval Native} (hfailure : failure.Follows D) :
    ((result.map pure).getD failure).Follows D := by
  cases result with
  | none => exact hfailure
  | some v => exact .pure v

section Conversion

variable (hnumber : ∀ v, (toNumber v).Follows D)

section Kinds

variable {target : Target} {failure : Eval Native} (hfailure : failure.Follows D)
include hfailure

theorem follows_convertBoolean (b : Bool) : (convertBoolean b target failure).Follows D := by
  unfold convertBoolean
  split
  · exact .pure _
  · split
    · exact .pure _
    · exact hfailure
  · exact .pure _

theorem follows_convertNumber (x : Double) : (convertNumber x target failure).Follows D := by
  unfold convertNumber
  split
  · exact follows_getD hfailure
  · exact follows_constantByOrdinal _ _
  · exact .pure _
  · split
    · exact .pure _
    · exact hfailure
  · exact .pure _

theorem follows_convertString (text : String) : (convertString text target failure).Follows D := by
  unfold convertString
  split
  · exact follows_getD hfailure
  · exact follows_getD hfailure
  · exact follows_constantByName _ _
  · split
    · exact .pure _
    · exact hfailure
  · exact .pure _

include hnumber in
/-- A wrapped value is passed on, unwrapped, adapted or copied; the copies use the converters of the parts. -/
theorem follows_convertWrapped (v : Script) (native : Native) (rank : Rank) {parts : PartConverters}
    (hparts : parts.Follow D) : (convertWrapped v native rank target parts failure).Follows D := by
  unfold convertWrapped
  split
  · exact .pure _
  · split
    · exact .pure _
    · exact .pure _
    · exact (follows_displayNative native).bind fun _ => .pure _
    · dsimp only
      split
      · exact (Eval.Follows.pure _).bind fun _ => follows_getD hfailure
      · exact (hnumber v).bind fun _ => follows_getD hfailure
    · refine .read fun s => ?_
      split
      · exact follows_copyList hparts.first _ _ _
      · exact hfailure
    · exact hfailure

include hnumber in
/-- Any other value goes through its text, its number or an adapter. -/
theorem follows_convertGeneric (v : Script) {parts : PartConverters} (hparts : parts.Follow D) :
    (convertGeneric v target parts failure).Follows D := by
  refine .read fun s => ?_
  dsimp only
  -- the kinds of targets, in the order of the definition
  split
  · split
    · exact (follows_convertElements hparts.first _ 0 _).bind fun _ => .newNative _
    · exact hfailure
  · split
    · exact (follows_convertElements hparts.first _ 0 _).bind fun _ => .newNative _
    · exact hfailure
  · split
    · exact (follows_fillMap hparts.first hparts.second _ _ _).bind fun _ => .newNative _
    · exact hfailure
  · split
    · exact (hparts.fields _ fun _ => .pure _).bind fun _ => .newNative _
    · exact hfailure
  · exact follows_adapterFor v _
  · exact .newNative _
  · exact .newNative _
  · exact (follows_displayScript v).bind fun _ => .pure _
  · exact (hnumber v).bind fun _ => .pure _
  · exact (hnumber v).bind fun _ => follows_getD hfailure
  · exact hfailure

end Kinds

include hnumber in
/-- Conversion to a target follows a discipline where the converters of the parts do. -/
theorem follows_convertBy {d : Descriptor} (hd : D.Admits d) {parts : PartConverters} (hparts : parts.Follow D)
    (v : Script) : (convertBy d parts v).Follows D := by
  have hfailure : (cannotConvert v d : Eval Native).Follows D := follows_cannotConvert v d
  refine .read fun s => (Eval.Follows.ofResult fun _ => allows_of_targetOf hd).bind fun target =>
    (follows_rankTarget v target).bind fun rank => ?_
  dsimp only
  split
  · exact hfailure
  · split
    · exact follows_asIs v
    · cases v with
      -- one table or converter for each kind of script value
      | undefined => exact .pure _
      | null => exact .pure _
      | boolean b => exact follows_convertBoolean hfailure b
      | number x => exact follows_convertNumber hfailure x
      | string text => exact follows_convertString hfailure text
      | object r =>
        dsimp only
        split
        · exact follows_convertWrapped hnumber hfailure _ _ rank hparts
        · exact follows_convertGeneric hnumber hfailure _ hparts
      | callable r =>
        dsimp only
        split
        · exact follows_convertWrapped hnumber hfailure _ _ rank hparts
        · exact follows_convertGeneric hnumber hfailure _ hparts

theorem PartConverters.follow_asIs : (⟨asIs, asIs, fun _ => pure []⟩ : PartConverters).Follow D :=
  ⟨follows_asIs, follows_asIs, fun _ _ => .pure _⟩

end Conversion

mutual

/-- **Conversion follows every regime** that admits the type and that the numbers of values follow. -/
theorem follows_convert_of_number (hnumber : ∀ v, (toNumber v).Follows D) :
    (d : Descriptor) → D.Admits d → ∀ v, (convert d v).Follows D
  | .union members, hd, v => by
    -- a union ranks its members once for its own rank, and once more for the choice among them
    have hmembers : ∀ d ∈ members, D.Admits d := fun _ => hd.member
    rw [convert]
    refine (follows_bestRank v members hmembers).bind fun rank => ?_
    split
    · exact follows_cannotConvert v _
    · refine (Eval.Follows.mapM fun d hmem => follows_rankOf v d (hmembers d hmem)).bind fun ranks => ?_
      split
      · exact follows_convertAt hnumber members hmembers _ v
      · exact follows_cannotConvert v _
  | .array component, hd, v => by
    rw [convert]
    exact follows_convertBy hnumber hd
      ⟨follows_convert_of_number hnumber component hd.component, follows_asIs, fun _ _ => .pure _⟩ v
  | .parameterized raw args, hd, v => by
    have hargs : ∀ d ∈ args, D.Admits d := fun _ => hd.argument
    rw [convert]
    exact follows_convertBy hnumber hd
      ⟨follows_convertAt hnumber args hargs 0, follows_convertAt hnumber args hargs 1, fun _ _ => .pure _⟩ v
  | .objectShape fields, hd, v => by
    rw [convert]
    exact follows_convertBy hnumber hd
      ⟨follows_asIs, follows_asIs, follows_convertFields hnumber fields fun _ => hd.field⟩ v
  | .unspecified, hd, v | .plain _, hd, v | .enumeration _, hd, v | .interface _ _, hd, v | .typeVar _ _, hd, v
  | .stringLiteral _, hd, v | .numberLiteral _, hd, v | .booleanLiteral _, hd, v | .functionShape _ _, hd, v => by
    rw [convert]
    · exact follows_convertBy hnumber hd PartConverters.follow_asIs v
    all_goals simp

/-- Conversion follows every discipline that accepts the descriptor; the induction is on the descriptors of a union or a
nested type. -/
theorem follows_convertAt (hnumber : ∀ v, (toNumber v).Follows D) :
    (ds : List Descriptor) → (∀ d ∈ ds, D.Admits d) → ∀ n v, (convertAt ds n v).Follows D
  | [], _, _, v => by
    rw [convertAt]
    exact follows_asIs v
  | d :: _, hds, 0, v => by
    rw [convertAt]
    exact follows_convert_of_number hnumber d (hds d List.mem_cons_self) v
  | _ :: ds, hds, n + 1, v => by
    rw [convertAt]
    exact follows_convertAt hnumber ds (fun d hd => hds d (List.mem_cons_of_mem _ hd)) n v

/-- The fields of an object shape are converted as the values they are read from. -/
theorem follows_convertFields (hnumber : ∀ v, (toNumber v).Follows D) :
    (fields : List (String × Descriptor)) → (∀ field ∈ fields, D.Admits field.2) → ∀ read : String → Eval Script,
      (∀ name, (read name).Follows D) → (convertFields fields read).Follows D
  | [], _, _, _ => by
    rw [convertFields]
    exact .pure _
  | (name, d) :: fields, hfields, read, hread => by
    rw [convertFields]
    have hd := follows_convert_of_number hnumber d (hfields _ List.mem_cons_self)
    have hrest := follows_convertFields hnumber fields (fun field hmem => hfields field (List.mem_cons_of_mem _ hmem))
      read hread
    exact (hread name).bind fun v => (hd v).bind fun value => (Eval.Follows.holding _ hrest).bind fun _ => .pure _

end

/-- **Conversion follows every discipline** that admits the type. -/
theorem follows_convert {D : Discipline} (d : Descriptor) (hd : D.Admits d) (v : Script) : (convert d v).Follows D :=
  follows_convert_of_number (follows_toNumber (.inr D.letsListsChange)) d hd v

end Interop
