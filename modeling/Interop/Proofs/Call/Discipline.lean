import Interop.Call.Invoker
import Interop.Proofs.Store.Browsing

/-!
# Texts and native code under a discipline

Showing a value and running native code keep every discipline: the text of a value looks up members, and native code
makes objects and changes what containers and records hold. Where native code calls a method by name, this has to be
known of the way it is called (`Send`). Only the code that adds to a list or replaces an element of it changes a list,
and it takes an argument for that; all other code keeps every regime.
-/

namespace Interop

variable {D : Regime}

/-! ## Texts -/

theorem follows_displayNative (v : Native) : (displayNative v).Follows D := (browses_displayNative v).follows

theorem follows_displayScript (v : Script) : (displayScript v).Follows D := (browses_displayScript v).follows

theorem follows_cannotConvert (v : Script) (d : Descriptor) : (cannotConvert v d : Eval α).Follows D :=
  (browses_cannotConvert v d).follows

/-! ## Members of the standard types

They look at their receiver and arguments first, which changes nothing, and then work on the container that they have
looked at. -/

/-- A computation that leaves the store as it is, and stops only by failing. -/
def Eval.Inspects (x : Eval α) : Prop :=
  ∀ s, (x.outcome s).2 = s ∧ ∀ stop, (x.outcome s).1 = .error stop → ∃ failure, stop = .failed failure

namespace Eval.Inspects

theorem pure (a : α) : (pure a : Eval α).Inspects := fun _ => ⟨rfl, nofun⟩

theorem fail (failure : Failure) : (Eval.fail failure : Eval α).Inspects := by
  refine fun s => ⟨rfl, ?_⟩
  rintro _ ⟨⟩
  exact ⟨failure, rfl⟩

/-- Reading the store before an inspection leaves it one. -/
theorem get_bind {f : Store → Eval α} (hf : ∀ s, (f s).Inspects) : (get >>= f : Eval α).Inspects := fun s => hf s s

/-- Inspections compose: neither half changes the store. -/
theorem bind {x : Eval α} {f : α → Eval β} (hx : x.Inspects) (hf : ∀ a, (f a).Inspects) : (x >>= f).Inspects := by
  intro s
  obtain ⟨hs, hstop⟩ := hx s
  rcases hrun : x.outcome s with ⟨stop | a, s₁⟩ <;> rw [hrun] at hs hstop <;> dsimp only at hs <;> subst hs
  · rw [outcome_bind_of_error hrun]
    refine ⟨rfl, ?_⟩
    rintro _ ⟨⟩
    exact hstop stop rfl
  · rw [outcome_bind_of_ok hrun]
    exact hf a s₁

/-- A computation that leaves the store as it is follows every discipline. -/
theorem follows {x : Eval α} (hx : x.Inspects) : x.Follows D := by
  intro s hs
  obtain ⟨hsame, hstop⟩ := hx s
  refine ⟨hsame.symm ▸ hs, fun stop heq => ?_⟩
  obtain ⟨failure, rfl⟩ := hstop stop heq
  exact D.failed failure

/-- What was known of the store before is still known afterwards. -/
theorem bind_followsAt {x : Eval α} {f : α → Eval β} {s : Store} (hx : x.Inspects) (hs : D.holds s)
    (hf : ∀ a, x.outcome s = (.ok a, s) → (f a).FollowsAt D s) : (x >>= f).FollowsAt D s := by
  refine (hx.follows s hs).bind fun a s₁ hrun _ => ?_
  have hsame := (hx s).1
  rw [hrun] at hsame
  dsimp only at hsame
  subst hsame
  exact hf a hrun

end Eval.Inspects

namespace StandardCode

variable (code : StandardCode) (this : Option Native) (args : List Native)

theorem inspects_receiver : (code.receiver this).Inspects := by
  cases this with
  | none => exact .fail _
  | some v => exact .pure v

theorem inspects_argument (i : Nat) : (code.argument args i).Inspects := by
  unfold argument
  split
  · exact .pure _
  · exact .fail _

theorem inspects_indexArgument : (code.indexArgument args).Inspects := by
  refine (code.inspects_argument args 0).bind fun v => ?_
  split
  · split
    · exact .pure _
    · exact .fail _
  · exact .fail _

theorem inspects_thisList : (code.thisList this).Inspects := by
  refine .get_bind fun s => ?_
  split
  · exact .pure _
  · exact .fail _

theorem inspects_thisMap : (code.thisMap this).Inspects := by
  refine .get_bind fun s => ?_
  split
  · exact .pure _
  · exact .fail _

theorem inspects_objectReceiver? : (objectReceiver? this).Inspects := .get_bind fun _ => .pure _

theorem inspects_numberReceiver : (code.numberReceiver this).Inspects := by
  refine (code.inspects_receiver this).bind fun v => ?_
  split
  · exact .pure _
  · exact .fail _

/-- The receiver refers to the list. -/
theorem native_of_thisList {s s₁ : Store} {r : NativeRef} {l : NativeList}
    (h : (code.thisList this).outcome s = (.ok (r, l), s₁)) : s.native r = .list l := by
  rw [thisList, Eval.outcome_get_bind] at h
  rcases this with _ | v
  · cases h
  cases v with
  | object ref =>
    simp only [Option.bind_some, Native.toRef?, Store.list?] at h
    cases href : s.native ref <;> rw [href] at h <;> cases h
    exact href
  | _ => cases h

/-- The receiver refers to the map. -/
theorem native_of_thisMap {s s₁ : Store} {r : NativeRef} {m : NativeMap}
    (h : (code.thisMap this).outcome s = (.ok (r, m), s₁)) : s.native r = .map m := by
  rw [thisMap, Eval.outcome_get_bind] at h
  rcases this with _ | v
  · cases h
  cases v with
  | object ref =>
    simp only [Option.bind_some, Native.toRef?, Store.map?] at h
    cases href : s.native ref <;> rw [href] at h <;> cases h
    exact href
  | _ => cases h

end StandardCode

/-! ## Lists and maps after an update -/

/-- Adding to a list is one of the updates that a list allows. -/
theorem NativeList.updates_add (l : NativeList) (v : Native) : (NativeObject.list l).Updates (.list (l.add v).2) := by
  unfold add
  split
  · exact .list l l.elements
  · exact .list l (l.elements ++ [v])

theorem NativeList.updates_replaceAt {l l' : NativeList} {i : Nat} {v old : Native}
    (h : l.replaceAt i v = .ok (old, l')) : (NativeObject.list l).Updates (.list l') := by
  unfold replaceAt at h
  split at h
  · cases h
  · split at h <;> cases h
    exact .list l _

theorem NativeMap.updates_insert (m : NativeMap) (key value : Native) :
    (NativeObject.map m).Updates (.map (m.insert key value).2) := by
  unfold insert
  split <;> exact .map m _ _

namespace StandardCode

variable (code : StandardCode) (this : Option Native) (args : List Native)

/-- The code that puts an argument into a list. -/
def changesLists : StandardCode → Bool
  | collectionAdd => true
  | listSet => true
  | _ => false

/-- Code keeps a regime if it puts nothing into a list, or has no arguments for that, or if lists may change. -/
theorem follows_run (hlists : args = [] ∨ code.changesLists = false ∨ D.LetsListsChange) :
    (code.run this args).Follows D := by
  -- most code only inspects the store; where it updates a container, the container is still the one that it found
  cases code <;> unfold run <;> dsimp only
  case objectText =>
    exact (inspects_receiver _ this).follows.bind fun v => (follows_displayNative v).bind fun _ => .pure _
  case objectEquals =>
    exact (inspects_receiver _ this).follows.bind fun _ => (inspects_argument _ args 0).follows.bind fun _ => .pure _
  case objectNew => exact .newNative _
  case stringLength =>
    refine (inspects_receiver _ this).follows.bind fun v => ?_
    split
    · exact .pure _
    · exact .fail _
  case stringIsEmpty =>
    exact (inspects_receiver _ this).follows.bind fun v => (follows_displayNative v).bind fun _ => .pure _
  case numberDouble => exact (inspects_numberReceiver _ this).follows.bind fun _ => .pure _
  case numberInt => exact (inspects_numberReceiver _ this).follows.bind fun _ => .pure _
  case className =>
    refine (inspects_objectReceiver? this).follows.bind fun o => ?_
    split
    · exact .pure _
    · exact .fail _
  case collectionSize => exact (inspects_thisList _ this).follows.bind fun _ => .pure _
  case collectionIsEmpty => exact (inspects_thisList _ this).follows.bind fun _ => .pure _
  case collectionContains =>
    exact (inspects_thisList _ this).follows.bind fun _ => (inspects_argument _ args 0).follows.bind fun _ => .pure _
  case collectionAdd =>
    intro s hs
    refine (inspects_thisList _ this).bind_followsAt hs fun ⟨r, l⟩ hrun => ?_
    have hr := native_of_thisList _ this hrun
    refine (inspects_argument _ args 0).bind_followsAt hs fun v hargument => ?_
    rcases hlists with rfl | hnone | hlists
    · cases hargument
    · cases hnone
    · exact ⟨hlists hr (l.updates_add v) hs, nofun⟩
  case listGet =>
    refine (inspects_thisList _ this).follows.bind fun _ => (inspects_indexArgument _ args).follows.bind fun _ => ?_
    split
    · exact .pure _
    · exact .fail _
  case listSet =>
    intro s hs
    refine (inspects_thisList _ this).bind_followsAt hs fun ⟨r, l⟩ hrun => ?_
    have hr := native_of_thisList _ this hrun
    refine (inspects_indexArgument _ args).bind_followsAt hs fun i _ => ?_
    refine (inspects_argument _ args 1).bind_followsAt hs fun v hargument => ?_
    rcases hlists with rfl | hnone | hlists
    · cases hargument
    · cases hnone
    dsimp only
    cases hreplace : l.replaceAt i v with
    | error failure => exact Eval.Follows.fail _ s hs
    | ok result => exact ⟨hlists hr (NativeList.updates_replaceAt hreplace) hs, nofun⟩
  case mapSize => exact (inspects_thisMap _ this).follows.bind fun _ => .pure _
  case mapGet =>
    exact (inspects_thisMap _ this).follows.bind fun _ => (inspects_argument _ args 0).follows.bind fun _ => .pure _
  case mapPut =>
    intro s hs
    refine (inspects_argument _ args 0).bind_followsAt hs fun key _ => ?_
    refine (inspects_argument _ args 1).bind_followsAt hs fun value _ => ?_
    refine (inspects_thisMap _ this).bind_followsAt hs fun ⟨r, m⟩ hrun => ?_
    have hr := native_of_thisMap _ this hrun
    exact ⟨D.change (.setNative (hr ▸ m.updates_insert key value)) (.setNative (by simp [hr]) _) hs, nofun⟩
  case mapContainsKey =>
    exact (inspects_thisMap _ this).follows.bind fun _ => (inspects_argument _ args 0).follows.bind fun _ => .pure _
  case enumName =>
    refine (inspects_objectReceiver? this).follows.bind fun o => ?_
    split
    · exact .pure _
    · exact .fail _
  case enumOrdinal =>
    refine (inspects_objectReceiver? this).follows.bind fun o => ?_
    split
    · exact .pure _
    · exact .fail _

end StandardCode

/-! ## Host code -/

theorem follows_refuse (r : NativeRef) (name : String) (args : List Native) : (refuse r name args).Follows D :=
  (follows_displayNative _).bind fun _ => .fail _

/-- What host code reads as a record is stored as one. -/
theorem Store.native_of_record? {s : Store} {v : Native} {r : NativeRef} {typeName : String} {display : Option String}
    {fields : List (String × Native)} (h : s.record? v = some (r, typeName, display, fields)) :
    s.native r = .record typeName display fields := by
  cases v with
  | object ref =>
    simp only [record?] at h
    cases href : s.native ref <;> rw [href] at h <;> cases h
    exact href
  | _ => cases h

variable {send : Send} (hsend : ∀ r name args, (send r name args).Follows D)
include hsend

/-- Host code follows every discipline that what it sends follows: its own steps are reads of the store, updates of a
container and new natives. -/
theorem HostCode.follows_run (name : String) (code : HostCode) (this : Option Native) (args : List Native) :
    (code.run send name this args).Follows D := by
  unfold run
  refine .get_bind fun s hs => ?_
  cases code with
  | constant v => exact Eval.Follows.pure _ s hs
  | argument i => exact Eval.Follows.pure _ s hs
  | receiver => exact Eval.Follows.pure _ s hs
  | readField field =>
    dsimp only
    split
    · exact Eval.Follows.pure _ s hs
    · exact Eval.Follows.fail _ s hs
  | writeField field =>
    dsimp only
    split
    · -- only a record has fields, and it stays one
      next r typeName display fields hrecord =>
      obtain ⟨v, -, hv⟩ := Option.bind_eq_some_iff.mp hrecord
      have hr := Store.native_of_record? hv
      exact ⟨D.change (.setNative (hr ▸ .record typeName display fields _)) (.setNative (by simp [hr]) _) hs, nofun⟩
    · exact Eval.Follows.fail _ s hs
  | allocate type fields => exact Eval.Follows.newNative _ s hs
  -- here host code sends a message of its own
  | dispatch method =>
    dsimp only
    split
    · exact hsend _ _ _ s hs
    · exact Eval.Follows.fail _ s hs
  | raise text => exact Eval.Follows.fail _ s hs

/-- A member keeps a regime if standard code behind it has no arguments to put into a list, or if lists may change. -/
theorem Invoker.follows_run (invoker : Invoker) (this : Option Native) (args : List Native)
    (hlists : (∀ code, invoker = .standard code → args = []) ∨ D.LetsListsChange) :
    (invoker.run send this args).Follows D := by
  unfold run
  cases invoker with
  | host name code =>
    exact (Eval.Follows.modify (fun s => .calls s _) fun _ => by rfl).bind fun _ =>
      HostCode.follows_run hsend name code this args
  | standard code => exact code.follows_run this args (hlists.imp (fun h => h code rfl) .inr)
  | virtual name =>
    dsimp only
    split
    · exact hsend _ _ _
    · exact .fail _
  | missing name => exact .fail _

end Interop
