import Interop.Call.Basic
import Interop.Proofs.Coercion.Discipline

/-!
# Calls under a discipline

Calls go back and forth between the two sides: they choose overloads, convert arguments and results, run native code,
and read members and properties. All of it keeps every discipline which does not mind how computations stop, nor what
is written to static fields (`Discipline.Lenient`). A proxy that was read from the store before something else happened
is still of the same kind, value and type afterwards (`Store.ShowsProxy`), so it may take note of its members.

* **`Store.KeepsProxies.step`**, **`Eval.FollowsAt.bind_keeping`**: proxies stay what they are.
* **`followsAt_proxyMembers`**: a proxy that was read earlier takes note of its members.
* **`follows_selectCandidate`**, **`follows_convertArguments`**: choosing an overload, and its arguments.
* **`callsFollow`**: calls of every kind, by induction on their allowance; **`follows_constructType`**: instances.
-/

namespace Interop

variable {D : Discipline}

/-- Any stop is allowed, and static fields may be written. -/
structure Discipline.Lenient (D : Discipline) : Prop where
  stops : ∀ stop, D.allows stop
  cells : ∀ {s : Store} (r : CellRef) (v : Native), D.holds s → D.holds (s.setCell r v)

/-- A lenient discipline accepts every descriptor, so nothing has to be known of the types that a call converts to. -/
theorem Discipline.Lenient.admits (hD : D.Lenient) (d : Descriptor) : D.Admits d := .inr fun _ => hD.stops _

/-! ## Proxies stay what they are -/

/-- There is a proxy of that kind, value and type, whatever members it has taken note of. -/
def Store.ShowsProxy (s : Store) (r : ObjectRef) (p : Proxy) : Prop :=
  ∃ noted, s.object r = .proxy { p with members := noted }

/-- What was a proxy is one of the same kind, value and type later on. -/
def Store.KeepsProxies (s s' : Store) : Prop := ∀ r p, s.object r = .proxy p → s'.ShowsProxy r p

namespace Store.KeepsProxies

/-- Proxies are script objects: changing natives or caches keeps them. -/
theorem of_objects_eq {s s' : Store} (h : s'.objects = s.objects) : s.KeepsProxies s' := by
  intro r p hp
  exact ⟨p.members, by rw [object, h]; exact hp⟩

/-- Keeping the proxies is transitive, which is what a run of steps needs. -/
theorem trans {s₁ s₂ s₃ : Store} (h : s₁.KeepsProxies s₂) (h' : s₂.KeepsProxies s₃) : s₁.KeepsProxies s₃ := by
  intro r p hp
  obtain ⟨noted, hnoted⟩ := h r p hp
  obtain ⟨later, hlater⟩ := h' r _ hnoted
  exact ⟨later, hlater⟩

theorem addObject (s : Store) (o : ScriptObject) : s.KeepsProxies (s.addObject o).2 := by
  intro r p hp
  have hne : r.index ≠ s.objects.size := by
    intro heq
    rw [object, heq] at hp
    simp at hp
  refine ⟨p.members, ?_⟩
  simp only [object, Store.addObject, Array.getD_eq_getD_getElem?, Array.getElem?_push, if_neg hne]
  rw [← Array.getD_eq_getD_getElem?]
  exact hp

theorem step {s s' : Store} (h : s.Step s') : s.KeepsProxies s' := by
  cases h with
  | addProxy v type => exact addObject s _
  | addObject _ => exact addObject s _
  | @setMembers changed before hbefore m =>
    intro r p hp
    rcases s.object_set changed r (.proxy { before with members := some m }) with hsame | ⟨rfl, hset⟩
    · exact ⟨p.members, hsame.trans hp⟩
    · rw [hbefore] at hp
      cases hp
      exact ⟨some m, hset⟩
  | @setObject changed o hchanged ho =>
    intro r p hp
    rcases s.object_set changed r o with hsame | ⟨rfl, hset⟩
    · exact ⟨p.members, hsame.trans hp⟩
    · rw [hp] at hchanged
      cases hchanged
  | releaseAdapters =>
    obtain ⟨adapters, referred, heq, -⟩ := s.releaseAdapters_frame
    rw [heq]
    exact .of_objects_eq rfl
  | _ => exact .of_objects_eq rfl

end Store.KeepsProxies

/-- What was made of a store keeps the proxies that it had. -/
def Discipline.proxiesOf (s : Store) : Discipline where
  holds := s.KeepsProxies
  allows _ := True
  step hchange hs := hs.trans (.step hchange.step)
  lookedUp _ _ _ hs := hs.trans (.of_objects_eq rfl)
  failed _ := trivial
  diverged := trivial
  lookup _ _ := trivial

/-- The discipline that only watches the proxies is lenient. -/
theorem Discipline.Lenient.proxiesOf (s : Store) : (Discipline.proxiesOf s).Lenient :=
  ⟨fun _ => trivial, fun _ _ hs => hs.trans (.of_objects_eq rfl)⟩

/-- What follows lenient disciplines leaves a proxy there for what comes after it. -/
theorem Eval.FollowsAt.bind_keeping {x : Eval α} {f : α → Eval β} {s : Store} {r : ObjectRef} {p : Proxy}
    (hD : D.Lenient) (hx : ∀ {E : Discipline}, E.Lenient → E.holds s → x.FollowsAt E s) (hs : D.holds s)
    (hr : s.ShowsProxy r p) (hf : ∀ a s₁, D.holds s₁ → s₁.ShowsProxy r p → (f a).FollowsAt D s₁) :
    (x >>= f).FollowsAt D s := by
  refine (hx hD hs).bind fun a s₁ hrun hs₁ => hf a s₁ hs₁ ?_
  have hkept := (hx (.proxiesOf s) (.of_objects_eq rfl)).1
  rw [hrun] at hkept
  obtain ⟨noted, hnoted⟩ := hr
  obtain ⟨later, hlater⟩ := hkept r _ hnoted
  exact ⟨later, hlater⟩

/-- A proxy that was read earlier takes note of the members that it looks up. -/
theorem followsAt_proxyMembers {s : Store} (hs : D.holds s) {r : ObjectRef} {p : Proxy}
    (hr : s.ShowsProxy r p) : (Eval.proxyMembers r p).FollowsAt D s := by
  obtain ⟨noted, hnoted⟩ := hr
  unfold Eval.proxyMembers
  cases p.members with
  | some known => exact Eval.Follows.pure known s hs
  | none =>
    -- a look-up changes caches alone, so the proxy is still there when its members are noted
    have hlookup : ∀ id declared, (do
        let found ← Eval.membersOf id declared false
        modify fun s => s.setObject r (.proxy { p with members := some found })
        pure found : Eval Membership).FollowsAt D s := by
      intro id declared
      refine (Eval.Follows.membersOf id declared false s hs).bind fun found s₁ hrun hs₁ => ?_
      rw [Eval.outcome_membersOf] at hrun
      obtain ⟨hfound, hstore⟩ := Prod.mk.inj hrun
      have hobject : s₁.object r = .proxy { p with members := noted } := by
        rw [← hstore]
        exact hnoted
      have hkept : s₁.memberCache.find? id (false || s.config.includeNonPublic) = some found := by
        rw [← hstore]
        exact MemberCache.find?_lookup (Prod.ext hfound rfl)
      exact ⟨D.step (.setMembers hobject hkept) hs₁, fun stop heq => by cases heq⟩
    refine .get_bind ?_
    dsimp only
    -- the kinds of proxies that look members up, each where the type of its value is known or not
    split <;> split
    · exact hlookup _ none
    · exact Eval.Follows.fail _ s hs
    · exact hlookup _ p.type.typeId?
    · exact Eval.Follows.fail _ s hs

namespace Eval.Follows

theorem newFunction (f : ScriptFunction) : (Eval.newFunction f).Follows D :=
  fun s hs => ⟨D.step (.addFunction s f) hs, nofun⟩

theorem newObject {o : ScriptObject} (ho : o.isProxy = false) : (Eval.newObject o).Follows D :=
  fun s hs => ⟨D.step (.addObject s ho) hs, nofun⟩

theorem wrapInstance (v : Native) (type : TypeId) : (Eval.wrapInstance v type).Follows D := by
  intro s hs
  refine ⟨?_, fun stop heq => by cases heq⟩
  show D.holds (s.wrapInstance v type).2
  have hproxy := D.addProxy hs v
  cases v with
  | void => exact hs
  | null => exact hs
  | object r => exact D.wrapObject hs r _
  | _ => exact hproxy _

end Eval.Follows

section Lenient

variable (hD : D.Lenient)
include hD

/-! ## Choosing an overload -/

/-- Ranking the arguments of a call one by one runs nothing but the ranking of single values. -/
theorem follows_rankAll : (args : List Script) → (params : List Descriptor) → (rankAll args params).Follows D
  | [], _ => by
    rw [rankAll.eq_def]
    exact .pure _
  | _ :: _, [] => .pure _
  | arg :: args, param :: params => by
    rw [rankAll]
    exact (follows_rankOf arg param (hD.admits param)).bind fun _ => (follows_rankAll args params).bind fun _ => .pure _

/-- Ranking a candidate ranks the arguments against its parameters, one or two times where it is variadic. -/
theorem follows_rankCandidate (index : Nat) (c : Callable) (args : List Script) :
    (rankCandidate index c args).Follows D := by
  unfold rankCandidate
  refine .read fun s => ?_
  split
  · exact .pure none
  · exact (follows_rankAll hD args _).bind fun _ => .pure _

/-- Collecting the applicable candidates ranks each of them once. -/
theorem follows_applicable (args : List Script) : (index : Nat) → (candidates : List Callable) →
    (applicable args index candidates).Follows D
  | _, [] => .pure _
  | index, c :: rest => by
    rw [applicable]
    exact (follows_rankCandidate hD index c args).bind fun _ =>
      (follows_applicable args (index + 1) rest).bind fun _ => .pure _

/-- Choosing an overload follows every lenient discipline, memo included. -/
theorem follows_chooseOverload (o : Overloads) (args : List Script) : (chooseOverload o args).Follows D := by
  have hbest : (chooseBest o.set args).Follows D :=
    (follows_applicable hD args 0 _).bind fun _ => .read fun _ => .pure _
  unfold chooseOverload
  split
  · refine (follows_rankCandidate hD 0 _ args).bind fun candidate => ?_
    cases candidate <;> exact .pure _
  · refine .read fun s => ?_
    split
    · dsimp only
      split
      · exact .pure _
      · refine hbest.bind fun resolution => ?_
        have hremember : (rememberWinner o (args.map s.argumentClass?) resolution).Follows D := by
          cases resolution with
          | resolved index => exact .modify (fun s => .memos s _) fun _ => by rfl
          | _ => exact .pure _
        exact hremember.bind fun _ => .pure _
    · exact hbest

theorem follows_selectCandidate (o : Overloads) (args : List Script) : (selectCandidate o args).Follows D := by
  refine (follows_chooseOverload hD o args).bind fun resolution => .read fun s => ?_
  cases resolution with
  | resolved index =>
    dsimp only
    split
    · exact .pure _
    · exact .fail _
  | _ => exact .fail _

/-! ## Arguments -/

/-- A failure that is caught has still only made steps the discipline allows. -/
theorem follows_attempt_convert (d : Descriptor) (v : Script) : (Eval.attempt (convert d v)).Follows D :=
  (follows_convert d (hD.admits d) v).attempt

theorem follows_convertAll : (args : List Script) → (params : List Descriptor) → (convertAll args params).Follows D
  | [], _ => by
    rw [convertAll.eq_def]
    exact .pure _
  | _ :: _, [] => .pure _
  | arg :: args, param :: params => by
    rw [convertAll]
    exact (follows_convert param (hD.admits param) arg).bind fun native =>
      (Eval.Follows.holding native.held (follows_convertAll args params)).bind fun _ => .pure _

theorem follows_convertArguments (c : Callable) (args : List Script) : (convertArguments c args).Follows D := by
  unfold convertArguments
  split
  · exact follows_convertAll hD args c.params
  · refine (follows_convertAll hD _ _).bind fun leading => .read fun s => .holding _ ?_
    split
    · exact (follows_convertAll hD _ _).bind fun _ => .pure _
    · exact (follows_convertAll hD _ _).bind fun packed => (Eval.Follows.newNative _).bind fun _ => .pure _

end Lenient

/-! ## Calls -/

/-- What is said of calls of any kind, with one allowance. -/
structure CallsFollow (D : Discipline) (n : Nat) : Prop where
  callFunction : ∀ f this args, (callFunction n f this args).Follows D
  callOverload : ∀ o this args, (callOverload n o this args).Follows D
  send : ∀ r name args, (send n r name args).Follows D
  answering : ∀ target name, (answering n target name).Follows D
  readMember : ∀ members this name isStatic, (readMember n members this name isStatic).Follows D
  getProperty : ∀ r key, (getProperty n r key).Follows D

theorem callsFollow_zero (hD : D.Lenient) : CallsFollow D 0 where
  callFunction f this args := by
    rw [Interop.callFunction]
    exact .stop (hD.stops _)
  callOverload o this args := by
    rw [Interop.callOverload]
    exact .stop (hD.stops _)
  send r name args := by
    rw [Interop.send]
    exact .stop (hD.stops _)
  answering target name := by
    rw [Interop.answering]
    exact .stop (hD.stops _)
  readMember members this name isStatic := by
    rw [Interop.readMember]
    exact .stop (hD.stops _)
  getProperty r key := by
    rw [Interop.getProperty]
    exact .stop (hD.stops _)

section Calls

variable {n : Nat} (ih : CallsFollow D n)
include ih

/-- A function of the script notes the call and does what it is made for; a method of a proxy calls its overloads with
less fuel. -/
theorem follows_callFunction_succ (f : FunctionRef) (this : Script) (args : List Script) :
    (callFunction (n + 1) f this args).Follows D := by
  rw [callFunction]
  refine .read fun s => ?_
  split
  · next name code =>
    refine (Eval.Follows.modify (fun s => .calls s _) fun _ => by rfl).bind fun _ => ?_
    split
    · exact .pure _
    · exact .pure _
    · exact .pure _
    · exact (follows_toNumber (.inr D.letsListsChange) _).bind fun _ => .pure _
    · split
      · exact (ih.getProperty _ _).bind fun _ => .pure _
      · exact .pure _
    · exact .fail _
  · exact .read fun s => ih.callOverload _ _ _

/-- A name is answered by the target itself if that is a function, else by the property of the name. -/
theorem follows_answering_succ (target : Script) (name : String) :
    (answering (n + 1) target name).Follows D := by
  have hrefused : (do Eval.fail (.notCallable (← describe target)) : Eval (Option FunctionRef)).Follows D :=
    (browses_describe target).follows.bind fun _ => .fail _
  unfold answering
  cases target with
  | callable f => exact .pure _
  | object r =>
    refine (ih.getProperty r (.name name)).bind fun found => ?_
    split
    · exact .pure _
    · exact .pure _
    · exact .pure _
    · exact (browses_describe _).follows.bind fun _ => (browses_describe _).follows.bind fun _ => .fail _
  | _ => exact hrefused

/-- Reading a member reads a field, a property or an overload; only the property calls host code. -/
theorem follows_readMember_succ (members : Membership) (this : Option Native) (name : String)
    (isStatic : Bool) : (readMember (n + 1) members this name isStatic).Follows D := by
  rw [readMember]
  split
  · exact .fail _
  · exact .newFunction _
  · exact (Storage.follows_read _ this).bind fun _ => .wrap _ _
  · split
    · exact .pure _
    · exact (Invoker.follows_run ih.send _ this [] (.inr D.letsListsChange)).bind fun _ => .wrap _ _

/-- The member of a name, where a proxy that was read earlier has one. -/
theorem followsAt_memberOf {r : ObjectRef} {p : Proxy} {s : Store} (hs : D.holds s) (hr : s.ShowsProxy r p)
    (this : Option Native) (name : String) (isStatic : Bool) :
    (do
      let members ← Eval.proxyMembers r p
      if members.entry.has name isStatic then
        pure (some (← readMember n members this name isStatic))
      else pure none : Eval (Option Script)).FollowsAt D s := by
  refine (followsAt_proxyMembers hs hr).bind fun members s₁ _ hs₁ => ?_
  split
  · exact (ih.readMember members this name isStatic s₁ hs₁).bind fun _ s₂ _ hs₂ => Eval.Follows.pure _ s₂ hs₂
  · exact Eval.Follows.pure _ s₁ hs₁

variable (hD : D.Lenient)
include hD

/-- Calling an overload converts the arguments, runs the host code and hands the result back. -/
theorem follows_callOverload_succ (o : Overloads) (this : Option Native)
    (args : List Script) : (callOverload (n + 1) o this args).Follows D := by
  rw [callOverload]
  exact (follows_selectCandidate hD o args).bind fun c => (follows_receiverFor c this).bind fun receiver =>
    (follows_convertArguments hD c args).bind fun natives =>
      (Eval.Follows.holding _ (Invoker.follows_run ih.send c.invoker receiver natives (.inr D.letsListsChange))).bind
        fun _ => .wrap _ _

/-- A message to an adapter is answered by a function of the script, with less fuel; any other receiver refuses it. -/
theorem follows_send_succ (r : NativeRef) (name : String) (args : List Native) :
    (send (n + 1) r name args).Follows D := by
  rw [send]
  refine .read fun s => ?_
  split
  · next target _ members _ _ =>
    dsimp only
    split
    · exact .fail _
    · next method _ =>
      refine (ih.answering target name).bind fun f => ?_
      cases f with
      | none => exact .pure _
      | some f =>
        refine (Eval.Follows.mapM fun _ _ => .wrap _ _).bind fun scripts => .holding _ ?_
        refine (ih.callFunction f target scripts).bind fun result => ?_
        split
        · exact .pure _
        · exact .holding _ (follows_convert _ (hD.admits _) result)
  · exact follows_refuse r name args

/-- A property of a proxy is read as a member of what it wraps; any other object answers from its own properties. -/
theorem follows_getProperty_succ (r : ObjectRef) (key : PropertyKey) : (getProperty (n + 1) r key).Follows D := by
  rw [getProperty]
  refine .get_bind fun s hs => ?_
  cases hr : s.object r with
  | plain properties => exact Eval.Follows.pure _ s hs
  | array elements =>
    dsimp only
    split <;> exact Eval.Follows.pure _ s hs
  | proxy p =>
    have hmember := followsAt_memberOf ih hs ⟨p.members, hr⟩
    dsimp only
    split
    · exact hmember _ _ false
    · exact Eval.Follows.pure _ s hs
    · exact hmember _ _ true
    · exact Eval.Follows.pure _ s hs
    · exact Eval.Follows.pure _ s hs
    · split
      · exact (Eval.Follows.wrap _ _ s hs).bind fun _ s₁ _ hs₁ => Eval.Follows.pure _ s₁ hs₁
      · exact Eval.Follows.pure _ s hs
    · split
      · exact Eval.Follows.pure _ s hs
      · exact hmember _ _ false
    · split
      · split
        · exact (Eval.Follows.wrap _ _ s hs).bind fun _ s₁ _ hs₁ => Eval.Follows.pure _ s₁ hs₁
        · exact Eval.Follows.pure _ s hs
      · exact Eval.Follows.pure _ s hs
    · refine .bind_keeping hD (follows_attempt_convert · _ _ s) hs ⟨p.members, hr⟩ fun native s₁ hs₁ hr₁ => .get_bind ?_
      split
      · exact (Eval.Follows.wrap _ _ s₁ hs₁).bind fun _ s₂ _ hs₂ => Eval.Follows.pure _ s₂ hs₂
      · exact followsAt_memberOf ih hs₁ hr₁ _ _ false
      · exact Eval.Follows.pure _ s₁ hs₁

end Calls

/-- **Calls keep every lenient discipline**, whatever their allowance. -/
theorem callsFollow (hD : D.Lenient) : (n : Nat) → CallsFollow D n
  | 0 => callsFollow_zero hD
  | n + 1 =>
    have ih := callsFollow hD n
    { callFunction := follows_callFunction_succ ih
      callOverload := follows_callOverload_succ ih hD
      send := follows_send_succ ih hD
      answering := follows_answering_succ ih
      readMember := follows_readMember_succ ih
      getProperty := follows_getProperty_succ ih hD }

/-- Constructing chooses a constructor, converts the arguments and runs it. -/
theorem follows_construct (hD : D.Lenient) (n : Nat) (members : Membership) (args : List Script) :
    (construct n members args).Follows D := by
  unfold construct
  split
  · exact .fail _
  · exact (follows_selectCandidate hD _ args).bind fun c => (follows_convertArguments hD c args).bind fun natives =>
      (Eval.Follows.holding _ (Invoker.follows_run (callsFollow hD n).send c.invoker none natives
        (.inr D.letsListsChange))).bind fun v => .wrapInstance v members.entry.typeId

theorem follows_constructType (hD : D.Lenient) (n : Nat) (id : TypeId) (args : List Script) :
    (constructType n id args).Follows D :=
  (Eval.Follows.membersOf id none false).bind fun members => follows_construct hD n members args

end Interop
