import Interop.Proofs.Member.Settled
import Interop.Proofs.Store.Discipline
import Interop.Value.Display

/-!
# Browsing

Ranking a value, and showing it, look members up and let proxies take note of what they were shown, and change nothing
else. `Store.Browses` says how a store changes in this way, and `Eval.BrowsesAt` which computations do no more. Whatever
follows a discipline by looking members up follows it here, since browsing is made of changes that every discipline
allows.

* **`Store.Browses`**: look-ups, and proxies that take note of them.
* **`Eval.BrowsesAt.bind`**, **`attempt`**, **`mapM`**: how such computations are put together.
* **`object_proxyMembers`**: a proxy takes note of the members that it looks up.
* **`browses_displayWithin`**: the texts of all values.
* **`Eval.Browses.follows`**: browsing keeps every discipline.
-/

namespace Interop

variable {s s' s₁ s₂ s₃ : Store}

/-- The stores that look-ups lead to, and proxies that take note of members that were found. -/
inductive Store.Browses (s : Store) : Store → Prop where
  | refl : Browses s s
  | lookedUp {s' : Store} (h : Browses s s') (id : TypeId) (declared : Option TypeId) (flag : Bool) :
    Browses s (s'.lookedUp id declared flag)
  | noted {s' : Store} (h : Browses s s') {r : ObjectRef} {p : Proxy} (hr : s'.object r = .proxy p)
    (hnew : p.members = none) {m : Membership} {id : TypeId} {flag : Bool}
    (hm : s'.memberCache.find? id flag = some m) :
    Browses s (s'.setObject r (.proxy { p with members := some m }))

/-- To browse and then to browse again is to browse. -/
theorem Store.Browses.trans (h : s₁.Browses s₂) (h' : s₂.Browses s₃) : s₁.Browses s₃ := by
  induction h' with
  | refl => exact h
  | lookedUp _ id declared flag ih => exact ih.lookedUp id declared flag
  | noted _ hr hnew hm ih => exact ih.noted hr hnew hm

namespace Store.Browses

/-- Script objects and collected members are all that may differ. -/
theorem exists_eq (h : s.Browses s') : ∃ objects cache, s' = { s with objects := objects, memberCache := cache } := by
  induction h with
  | refl => exact ⟨s.objects, s.memberCache, rfl⟩
  | lookedUp _ id declared flag ih =>
    obtain ⟨objects, cache, rfl⟩ := ih
    exact ⟨objects, _, rfl⟩
  | noted _ hr hnew hm ih =>
    obtain ⟨objects, cache, rfl⟩ := ih
    exact ⟨_, cache, rfl⟩

/-- Every object is of the kind that it was, and every proxy is one of the same value. -/
theorem object_alike (h : s.Browses s') (r : ObjectRef) :
    (s'.object r).kindOf = (s.object r).kindOf ∧ (s'.object r).native? = (s.object r).native? := by
  induction h with
  | refl => exact ⟨rfl, rfl⟩
  | lookedUp _ id declared flag ih => exact ih
  | @noted s' _ changed p hr _ m _ _ _ ih =>
    rcases s'.object_set changed r (.proxy { p with members := some m }) with hsame | ⟨rfl, hset⟩
    · rw [hsame]
      exact ih
    · rw [hr] at ih
      rw [hset]
      exact ih

/-- Browsing changes the kind of no script value. -/
theorem kindOf_eq (h : s.Browses s') (v : Script) : s'.kindOf v = s.kindOf v := by
  cases v with
  | object r => exact (h.object_alike r).1
  | _ => rfl

/-- Browsing changes no value behind a proxy. -/
theorem unwrap?_eq (h : s.Browses s') (v : Script) : s'.unwrap? v = s.unwrap? v := by
  cases v with
  | object r => exact (h.object_alike r).2
  | _ => rfl

/-- Members that are kept are found ever after. -/
theorem find?_mono (h : s.Browses s') {id : TypeId} {flag : Bool} {m : Membership}
    (hm : s.memberCache.find? id flag = some m) : s'.memberCache.find? id flag = some m := by
  induction h with
  | refl => exact hm
  | lookedUp _ id' declared flag' ih => exact MemberCache.find?_mono ih
  | noted _ _ _ _ ih => exact ih

end Store.Browses

/-- How browsing stops: by failing, without an end, or as one of its look-ups does. -/
inductive Store.StopsBrowsing (s : Store) : Stop → Prop where
  | failed (failure : Failure) : StopsBrowsing s (.failed failure)
  | diverged : StopsBrowsing s .diverged
  | lookup {s' : Store} (h : s.Browses s') {id : TypeId} {declared : Option TypeId} {flag : Bool} {stop : Stop}
    (hstop : (s'.memberCache.lookup s'.types id declared flag).1 = .error stop) : StopsBrowsing s stop

/-- What stops browsing later on stops it from the beginning. -/
theorem Store.StopsBrowsing.before {stop : Stop} (h : s₁.Browses s₂) (hstop : s₂.StopsBrowsing stop) :
    s₁.StopsBrowsing stop := by
  cases hstop with
  | failed failure => exact .failed failure
  | diverged => exact .diverged
  | lookup h' hlookup => exact .lookup (h.trans h') hlookup

namespace Eval

/-- In one store, a computation browses. -/
structure BrowsesAt (x : Eval α) (s : Store) : Prop where
  store : s.Browses (x.outcome s).2
  stops : ∀ stop, (x.outcome s).1 = .error stop → s.StopsBrowsing stop

/-- A computation browses in every store. -/
def Browses (x : Eval α) : Prop := ∀ s, x.BrowsesAt s

namespace BrowsesAt

theorem pure (a : α) (s : Store) : (pure a : Eval α).BrowsesAt s := ⟨.refl, nofun⟩

theorem stop {stop : Stop} (h : s.StopsBrowsing stop) : (throw stop : Eval α).BrowsesAt s := by
  refine ⟨.refl, fun stop' heq => ?_⟩
  cases heq
  exact h

theorem fail (failure : Failure) (s : Store) : (Eval.fail failure : Eval α).BrowsesAt s := stop (.failed failure)

theorem get_bind {f : Store → Eval α} (hf : (f s).BrowsesAt s) : (get >>= f : Eval α).BrowsesAt s :=
  ⟨hf.store, hf.stops⟩

/-- One part after the other, where the second one starts in the store that the first one leaves. -/
theorem bind {x : Eval α} {f : α → Eval β} (hx : x.BrowsesAt s)
    (hf : ∀ a s₁, x.outcome s = (.ok a, s₁) → (f a).BrowsesAt s₁) : (x >>= f).BrowsesAt s := by
  obtain ⟨hstore, hstops⟩ := hx
  rcases hrun : x.outcome s with ⟨stop | a, s₁⟩ <;> rw [hrun] at hstore hstops
  · constructor
    · rw [outcome_bind_of_error hrun]
      exact hstore
    · intro stop' heq
      rw [outcome_bind_of_error hrun] at heq
      cases heq
      exact hstops stop rfl
  · have hrest := hf a s₁ hrun
    constructor
    · rw [outcome_bind_of_ok hrun]
      exact hstore.trans hrest.store
    · intro stop heq
      rw [outcome_bind_of_ok hrun] at heq
      exact (hrest.stops stop heq).before hstore

/-- A computation that is tried browses as it does when it is not. -/
theorem attempt {x : Eval α} (hx : x.BrowsesAt s) : (Eval.attempt x).BrowsesAt s := by
  obtain ⟨hstore, hstops⟩ := hx
  constructor
  · rw [outcome_attempt]
    rcases hrun : x.outcome s with ⟨(failure | name | _) | a, s₁⟩ <;> rw [hrun] at hstore <;> exact hstore
  · intro stop heq
    rw [outcome_attempt] at heq
    rcases hrun : x.outcome s with ⟨(failure | name | _) | a, s₁⟩ <;> rw [hrun] at heq hstops <;> cases heq
    · exact hstops _ rfl
    · exact .diverged

theorem mapM {f : α → Eval β} : ∀ {xs : List α} {s : Store}, (∀ x ∈ xs, (f x).Browses) → (xs.mapM f).BrowsesAt s
  | [], s, _ => by
    rw [List.mapM_nil]
    exact pure [] s
  | x :: xs, s, h => by
    obtain ⟨hx, hxs⟩ := List.forall_mem_cons.mp h
    rw [List.mapM_cons]
    exact (hx s).bind fun _ _ _ => (mapM hxs).bind fun _ _ _ => pure _ _

/-- To look members up is to browse. -/
theorem membersOf (id : TypeId) (declared : Option TypeId) (includeProtected : Bool) (s : Store) :
    (Eval.membersOf id declared includeProtected).BrowsesAt s := by
  constructor
  · rw [outcome_membersOf]
    exact Store.Browses.refl.lookedUp id declared (includeProtected || s.config.includeNonPublic)
  · intro stop heq
    rw [outcome_membersOf] at heq
    exact .lookup .refl heq

end BrowsesAt

/-- A proxy takes note of the members that it looks up. -/
theorem browsesAt_proxyMembers {r : ObjectRef} {p : Proxy} (hr : s.object r = .proxy p) :
    (Eval.proxyMembers r p).BrowsesAt s := by
  unfold Eval.proxyMembers
  cases hknown : p.members with
  | some known => exact .pure known s
  | none =>
    have hlookup : ∀ id declared, (do
        let found ← Eval.membersOf id declared false
        modify fun s => s.setObject r (.proxy { p with members := some found })
        pure found : Eval Membership).BrowsesAt s := by
      intro id declared
      refine (BrowsesAt.membersOf id declared false s).bind fun found s₁ hrun => ?_
      rw [outcome_membersOf] at hrun
      obtain ⟨hfound, hstore⟩ := Prod.mk.inj hrun
      -- looking up leaves the proxy where it is, and keeps what it finds
      have hobject : s₁.object r = .proxy p := by
        rw [← hstore]
        exact hr
      have hkept : s₁.memberCache.find? id (false || s.config.includeNonPublic) = some found := by
        rw [← hstore]
        exact MemberCache.find?_lookup (Prod.ext hfound rfl)
      exact ⟨Store.Browses.refl.noted hobject hknown hkept, fun stop heq => by cases heq⟩
    refine .get_bind ?_
    dsimp only
    split <;> split
    · exact hlookup _ none
    · exact .fail _ s
    · exact hlookup _ p.type.typeId?
    · exact .fail _ s

end Eval

/-! ## Noted members -/

section Noted

variable {r : ObjectRef} {p : Proxy} {members : Membership}

/-- A proxy has its members already, or looks them up and takes note of them. -/
theorem proxyMembers_cases (h : (Eval.proxyMembers r p).outcome s = (.ok members, s')) :
    (p.members = some members ∧ s' = s) ∨
    (p.members = none ∧ ∃ id declared flag,
      s' = (s.lookedUp id declared flag).setObject r (.proxy { p with members := some members })) := by
  unfold Eval.proxyMembers at h
  cases hknown : p.members with
  | some known =>
    rw [hknown] at h
    cases h
    exact .inl ⟨rfl, rfl⟩
  | none =>
    rw [hknown] at h
    -- whichever type is asked for, the members found are noted in the proxy
    have hlookup : ∀ id declared, (do
        let found ← Eval.membersOf id declared false
        modify fun s => s.setObject r (.proxy { p with members := some found })
        pure found : Eval Membership).outcome s = (.ok members, s') → ∃ flag,
          s' = (s.lookedUp id declared flag).setObject r (.proxy { p with members := some members }) := by
      intro id declared hrun
      rcases Eval.outcome_bind_cases hrun with ⟨_, -, hstop⟩ | ⟨found, s₁, hfound, hrest⟩
      · cases hstop
      · rw [Eval.outcome_membersOf] at hfound
        obtain ⟨-, rfl⟩ := Prod.mk.inj hfound
        cases hrest
        exact ⟨_, rfl⟩
    rw [Eval.outcome_get_bind] at h
    refine .inr ⟨rfl, ?_⟩
    dsimp only at h
    split at h <;> split at h
    · exact ⟨_, none, hlookup _ none h⟩
    · cases h
    · exact ⟨_, p.type.typeId?, hlookup _ _ h⟩
    · cases h

/-- A proxy keeps the members that it has looked up. -/
theorem object_proxyMembers {noted : Option Membership} (hr : s.object r = .proxy { p with members := noted })
    (hnoted : ∀ known, p.members = some known → noted = some known)
    (hrun : (Eval.proxyMembers r p).outcome s = (.ok members, s')) :
    s'.object r = .proxy { p with members := some members } := by
  rcases proxyMembers_cases hrun with ⟨hknown, rfl⟩ | ⟨-, id, declared, flag, rfl⟩
  · rw [hr, hnoted _ hknown]
  · have hin : r.index < s.objects.size := by
      refine Nat.lt_of_not_le fun hout => ?_
      rw [Store.object, Array.getD_eq_getD_getElem?, Array.getElem?_eq_none hout] at hr
      cases hr
    simp [Store.object, Store.setObject, Store.lookedUp, hin]

end Noted

/-! ## Texts -/

/-- Texts of native and of script values, by induction on how many references may be followed. -/
theorem browses_displayWithin (n : Nat) :
    (∀ v, (displayNativeWithin n v).Browses) ∧ ∀ v, (displayScriptWithin n v).Browses := by
  induction n with
  -- with no reference left to follow
  | zero =>
    refine ⟨fun v s => ?_, fun v s => ?_⟩
    · unfold displayNativeWithin
      cases v.inlineText? with
      | some text => exact .pure text s
      | none => exact .stop .diverged
    · cases v <;> unfold displayScriptWithin
      case object r => exact .stop .diverged
      case callable r => exact .get_bind (.pure _ s)
      all_goals exact .pure _ s
  | succ n ih =>
    obtain ⟨ihNative, ihScript⟩ := ih
    refine ⟨fun v s => ?_, fun v s => ?_⟩
    · unfold displayNativeWithin
      cases v with
      | object r =>
        refine .get_bind ?_
        cases s.native r with
        | array a => exact (Eval.BrowsesAt.mapM fun v _ => ihNative v).bind fun _ _ _ => .pure _ _
        | list l => exact (Eval.BrowsesAt.mapM fun v _ => ihNative v).bind fun _ _ _ => .pure _ _
        | map m =>
          refine (Eval.BrowsesAt.mapM fun entry _ s₁ => ?_).bind fun _ _ _ => .pure _ _
          exact (ihNative entry.1 s₁).bind fun _ s₂ _ => (ihNative entry.2 s₂).bind fun _ _ _ => .pure _ _
        | handle value => exact ihScript value s
        | adapter target _ _ _ => exact ihScript target s
        | _ => exact .pure _ s
      | _ => exact .pure _ s
    · -- a wrapper looks its members up before it shows what it wraps
      cases v with
      | object r =>
        unfold displayScriptWithin
        refine .get_bind ?_
        cases hr : s.object r with
        | plain _ => exact .pure _ s
        | array elements =>
          refine (Eval.BrowsesAt.mapM fun v _ s₁ => ?_).bind fun _ _ _ => .pure _ _
          split
          · exact .pure _ s₁
          · exact ihScript v s₁
        | proxy p =>
          have hmembers := (Eval.browsesAt_proxyMembers hr).attempt
          dsimp only
          split
          · exact ihNative p.value s
          · exact ihNative p.value s
          · exact hmembers.bind fun _ s₁ _ => ihNative p.value s₁
      | callable r => exact .get_bind (.pure _ s)
      | _ => exact .pure _ s

theorem browses_displayNative (v : Native) : (displayNative v).Browses :=
  fun s => .get_bind ((browses_displayWithin _).1 v s)

theorem browses_displayScript (v : Script) : (displayScript v).Browses :=
  fun s => .get_bind ((browses_displayWithin _).2 v s)

/-- A description looks members up at most where it needs the text of a value. -/
theorem browses_describe (v : Script) : (describe v).Browses := by
  intro s
  unfold describe
  cases v with
  | string text => exact .pure _ s
  | object r =>
    refine .get_bind ?_
    split
    · exact (browses_displayNative _ s).bind fun _ s₁ _ => .pure _ s₁
    · exact .pure _ s
  | _ => exact browses_displayScript _ s

theorem browses_cannotConvert (v : Script) (d : Descriptor) : (cannotConvert v d : Eval α).Browses :=
  fun s => (browses_describe v s).bind fun _ s₁ _ => .fail _ s₁

/-! ## Disciplines -/

/-- What a discipline keeps is kept by browsing. -/
theorem Store.Browses.holds {D : Regime} (h : s.Browses s') (hs : D.holds s) : D.holds s' := by
  induction h with
  | refl => exact hs
  | lookedUp _ id declared flag ih => exact D.lookedUp id declared flag ih
  | noted _ hr _ hm ih => exact D.change (.setMembers hr hm) (.of_natives_eq rfl) ih

/-- In one store, browsing follows a discipline that holds there. -/
theorem Eval.BrowsesAt.followsAt {D : Regime} {x : Eval α} (hx : x.BrowsesAt s) (hs : D.holds s) :
    x.FollowsAt D s := by
  obtain ⟨hstore, hstops⟩ := hx
  refine ⟨hstore.holds hs, fun stop heq => ?_⟩
  cases hstops stop heq with
  | failed failure => exact D.failed failure
  | diverged => exact D.diverged
  | lookup hbrowses hlookup => exact D.lookup (hbrowses.holds hs) hlookup

/-- **Browsing keeps every discipline.** -/
theorem Eval.Browses.follows {D : Regime} {x : Eval α} (hx : x.Browses) : x.Follows D :=
  fun s hs => (hx s).followsAt hs

end Interop
