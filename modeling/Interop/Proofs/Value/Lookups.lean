import Interop.Proofs.Coercion.Variables
import Interop.Proofs.Member.Refusals
import Interop.Proofs.Value.Circles

/-!
# Look-ups on the way

Texts and numbers look up members by the way: a wrapper that is shown looks its members up first, whatever it does with
them. Such a look-up may have no end of its own, or meet a type variable that is left over, and then nothing comes of
the text either. `Store.LookupStops` says that this happens to one of the wrappers that are met.

* **`Store.Meets`**: the script objects that texts lead to.
* **`Store.Passes`**: the stores that texts and numbers go through. What is shown is the same in all of them.
* **`Store.LookupStops`**, **`Store.passes_attempt_proxyMembers`**: the look-ups of wrappers that do not return.
* **`Eval.EndsUnless`**: a computation gives a value or fails, but for the stops that are named.
* **`Store.LookupsEnd.not_lookupStops`**: where no look-up has such a stop.
-/

namespace Interop

/-- Wrappers use their members to be shown, but for those of arrays and of classes. -/
def Proxy.LooksUp (p : Proxy) : Prop := p.kind ≠ .ofArray ∧ p.kind ≠ .ofClass

namespace Store

variable {s s' : Store} {met : ObjectRef → Prop} {x y : Referent}

/-- The script objects that are met where some objects are shown. -/
def Meets (s : Store) (shown : List Referent) (r : ObjectRef) : Prop :=
  ∃ x ∈ shown, Relation.ReflTransGen s.Shows x (.object r)

/-- An object leads to no other script objects than those. -/
def MeetsOnly (s : Store) (met : ObjectRef → Prop) (x : Referent) : Prop :=
  ∀ r, Relation.ReflTransGen s.Shows x (.object r) → met r

/-- All of some objects lead to no others. -/
def AllMeetOnly (s : Store) (met : ObjectRef → Prop) (shown : List Referent) : Prop := ∀ y ∈ shown, s.MeetsOnly met y

/-- From what is shown nothing else is met than what is met from it. -/
theorem meetsOnly_meets {shown : List Referent} (hx : x ∈ shown) : s.MeetsOnly (s.Meets shown) x :=
  fun _ hr => ⟨x, hx, hr⟩

/-- What an object shows leads to no more than the object does. -/
theorem MeetsOnly.of_shows (hx : s.MeetsOnly met x) (hxy : s.Shows x y) : s.MeetsOnly met y :=
  fun r hr => hx r (.head hxy hr)

/-- The stores that texts and numbers go through: wrappers that are met look their members up, an accessor is chosen,
which may be remembered, it gets a new object that shows nothing, and the call is recorded. -/
inductive Passes (s : Store) (met : ObjectRef → Prop) : Store → Prop where
  | refl : Passes s met s
  | lookedUp {s' : Store} (h : Passes s met s') {r : ObjectRef} {p : Proxy} (hmet : met r)
    (hr : s'.object r = .proxy p) (hp : p.LooksUp) : Passes s met ((Eval.proxyMembers r p).outcome s').2
  | chosen {s' : Store} (h : Passes s met s') (memos : List (SetKey × Memo)) : Passes s met { s' with memos := memos }
  | allocated {s' : Store} (h : Passes s met s') {o : NativeObject} (ho : o.shown = []) :
    Passes s met (s'.addNative o).2
  | called {s' : Store} (h : Passes s met s') (name : String) (this : Option Native) (args : List Native) :
    Passes s met (s'.recordNative name this args)

/-! ## What stays the same -/

/-- Browsing changes nothing that is shown. -/
theorem Browses.shownBy_eq (h : s.Browses s') (x : Referent) : s'.shownBy x = s.shownBy x := by
  have hobject : ∀ r, (s'.object r).shown = (s.object r).shown := by
    intro r
    induction h with
    | refl => rfl
    | lookedUp _ id declared flag ih => exact ih
    | @noted s' _ changed p hr _ m _ _ _ ih =>
      rcases s'.object_set changed r (.proxy { p with members := some m }) with hsame | ⟨rfl, hset⟩
      · rw [hsame]
        exact ih
      · rw [hr] at ih
        rw [hset]
        exact ih
  obtain ⟨objects, cache, rfl⟩ := h.exists_eq
  cases x with
  | object r => exact hobject r
  | _ => rfl

/-- Browsing makes no objects. -/
theorem Browses.depth_eq (h : s.Browses s') : s'.depth = s.depth := by
  induction h with
  | refl => rfl
  | lookedUp _ id declared flag ih => exact ih
  | noted _ hr hnew hm ih =>
    rw [← ih]
    simp [depth, setObject]

/-- A new object that shows nothing adds nothing to what is shown. -/
theorem shownBy_addNative (s : Store) {o : NativeObject} (ho : o.shown = []) (x : Referent) :
    (s.addNative o).2.shownBy x = s.shownBy x := by
  cases x with
  | native r =>
    by_cases hr : r.index = s.natives.size
    · have hnew : (s.addNative o).2.native r = o := by simp [native, addNative, hr]
      have hmissing : s.native r = .record Standard.objectName none [] := by simp [native, hr]
      rw [shownBy, shownBy, hnew, hmissing, ho]
      rfl
    · have hsame : (s.addNative o).2.native r = s.native r := by
        simp [native, addNative, Array.getElem?_push, hr]
      rw [shownBy, shownBy, hsame]
  | _ => rfl

/-- Texts and numbers change nothing that is shown. -/
theorem Passes.shownBy_eq (h : s.Passes met s') (x : Referent) : s'.shownBy x = s.shownBy x := by
  induction h with
  | refl => rfl
  | lookedUp _ _ hr _ ih => rw [(Eval.browsesAt_proxyMembers hr).store.shownBy_eq, ih]
  | chosen _ memos ih => exact ih
  | allocated _ ho ih => rw [shownBy_addNative _ ho, ih]
  | called _ name this args ih => exact ih

/-- They allow no less than they were allowed at first. -/
theorem Passes.depth_le (h : s.Passes met s') : s.depth ≤ s'.depth := by
  induction h with
  | refl => exact Nat.le_refl _
  | lookedUp _ _ hr _ ih => rwa [(Eval.browsesAt_proxyMembers hr).store.depth_eq]
  | chosen _ memos ih => exact ih
  | allocated _ ho ih =>
    refine ih.trans ?_
    simp [depth, addNative]
  | called _ name this args ih => exact ih

/-! ## Look-ups that do not return -/

/-- A wrapper that is met looks up its members, and that neither finds them nor fails. -/
def LookupStops (s : Store) (met : ObjectRef → Prop) (stop : Stop) : Prop :=
  ∃ (s' : Store) (r : ObjectRef) (p : Proxy), s.Passes met s' ∧ met r ∧ s'.object r = .proxy p ∧ p.LooksUp ∧
    ((Eval.proxyMembers r p).outcome s').1 = .error stop ∧ ∀ failure, stop ≠ .failed failure

theorem LookupStops.ne_failed {stop : Stop} (h : s.LookupStops met stop) : ∀ failure, stop ≠ .failed failure := by
  obtain ⟨s', r, p, -, -, -, -, -, hstop⟩ := h
  exact hstop

/-- Nothing comes of a computation because such a look-up does not return. -/
def StopsOnLookup (s : Store) (met : ObjectRef → Prop) (result : Except Stop α) : Prop :=
  ∃ stop, result = .error stop ∧ s.LookupStops met stop

/-- A wrapper looks up its members, and whether that fails does not matter, but it has to return. -/
theorem passes_attempt_proxyMembers {r : ObjectRef} {p : Proxy} (hs' : s.Passes met s') (hmet : met r)
    (hr : s'.object r = .proxy p) (hp : p.LooksUp) :
    s.Passes met ((Eval.attempt (Eval.proxyMembers r p)).outcome s').2 ∧
    ((∃ result, ((Eval.attempt (Eval.proxyMembers r p)).outcome s').1 = .ok result) ∨
      s.StopsOnLookup met ((Eval.attempt (Eval.proxyMembers r p)).outcome s').1) := by
  have hpasses := hs'.lookedUp hmet hr hp
  have hstops : ∀ stop, ((Eval.proxyMembers r p).outcome s').1 = .error stop → (∀ failure, stop ≠ .failed failure) →
      s.LookupStops met stop := fun stop heq hstop => ⟨s', r, p, hs', hmet, hr, hp, heq, hstop⟩
  rw [Eval.outcome_attempt]
  rcases hrun : (Eval.proxyMembers r p).outcome s' with ⟨(failure | name | _) | members, s₁⟩ <;>
    rw [hrun] at hpasses hstops
  · exact ⟨hpasses, .inl ⟨_, rfl⟩⟩
  · exact ⟨hpasses, .inr ⟨_, rfl, hstops _ rfl nofun⟩⟩
  · exact ⟨hpasses, .inr ⟨_, rfl, hstops _ rfl nofun⟩⟩
  · exact ⟨hpasses, .inl ⟨_, rfl⟩⟩

end Store

/-! ## Computations that end -/

namespace Eval

variable {s : Store} {stops : Stop → Prop}

/-- In one store, a computation gives a value or fails, or it stops in one of some other ways. -/
def EndsUnless (x : Eval α) (stops : Stop → Prop) (s : Store) : Prop :=
  ∀ stop, (x.outcome s).1 = .error stop → (∃ failure, stop = .failed failure) ∨ stops stop

namespace EndsUnless

theorem pure (a : α) (s : Store) : (pure a : Eval α).EndsUnless stops s := nofun

theorem fail (failure : Failure) (s : Store) : (Eval.fail failure : Eval α).EndsUnless stops s := by
  rintro _ ⟨⟩
  exact .inl ⟨failure, rfl⟩

/-- The first half ends, or it is what stops the whole; else the second half has to end. -/
theorem bind {x : Eval α} {f : α → Eval β} (hx : x.EndsUnless stops s)
    (hf : ∀ a s₁, x.outcome s = (.ok a, s₁) → (f a).EndsUnless stops s₁) : (x >>= f).EndsUnless stops s := by
  intro stop heq
  rcases hrun : x.outcome s with ⟨stop' | a, s₁⟩
  · rw [outcome_bind_of_error hrun] at heq
    cases heq
    exact hx stop (congrArg Prod.fst hrun)
  · rw [outcome_bind_of_ok hrun] at heq
    exact hf a s₁ hrun stop heq

theorem get_bind {f : Store → Eval α} (hf : (f s).EndsUnless stops s) : (get >>= f : Eval α).EndsUnless stops s := hf

/-- What stops only by failing does so whatever else is allowed. -/
theorem mono {x : Eval α} (hx : x.EndsUnless (fun _ => False) s) : x.EndsUnless stops s :=
  fun stop heq => .inl ((hx stop heq).resolve_right id)

end EndsUnless

/-- What only looks about ends. -/
theorem Inspects.endsUnless {x : Eval α} (hx : x.Inspects) (s : Store) : x.EndsUnless stops s :=
  fun stop heq => .inl ((hx s).2 stop heq)

/-- What looks about in front of a computation changes nothing for it. -/
theorem Inspects.bind_endsUnless {x : Eval α} {f : α → Eval β} (hx : x.Inspects)
    (hf : ∀ a, (f a).EndsUnless stops s) : (x >>= f).EndsUnless stops s := by
  refine (hx.endsUnless s).bind fun a s₁ hrun => ?_
  have hsame := (hx s).1
  rw [hrun] at hsame
  cases hsame
  exact hf a

end Eval

/-! ## Where all look-ups return -/

namespace Store

variable {s s' : Store} {met : ObjectRef → Prop}

/-- Looking up members never goes on for ever: declarations are of the forms that declarations have, and no type comes
back among those that are tried after a refusal. -/
structure LookupsEnd (s : Store) : Prop where
  declared : s.types.Declared
  cache : s.memberCache.Sound
  away : s.types.ClimbsAway

namespace LookupsEnd

/-- Browsing keeps a registry in which look-ups end, since it leaves the types alone and the caches sound. -/
theorem browses (hs : s.LookupsEnd) (h : s.Browses s') : s'.LookupsEnd := by
  obtain ⟨hdeclared, hcache⟩ := h.holds (D := Discipline.variableFree) ⟨hs.declared, hs.cache⟩
  obtain ⟨objects, cache, rfl⟩ := h.exists_eq
  exact ⟨hdeclared, hcache, hs.away⟩

/-- So it stays, whatever is shown. -/
theorem passes (hs : s.LookupsEnd) (h : s.Passes met s') : s'.LookupsEnd := by
  induction h with
  | refl => exact hs
  | lookedUp _ _ hr _ ih => exact ih.browses (Eval.browsesAt_proxyMembers hr).store
  | chosen _ memos ih => exact ⟨ih.declared, ih.cache, ih.away⟩
  | allocated _ ho ih => exact ⟨ih.declared, ih.cache, ih.away⟩
  | called _ name this args ih => exact ⟨ih.declared, ih.cache, ih.away⟩

/-- A look-up gives members or fails. -/
theorem lookup (hs : s.LookupsEnd) {id : TypeId} {declared : Option TypeId} {flag : Bool} {stop : Stop}
    (h : (s.memberCache.lookup s.types id declared flag).1 = .error stop) : ∃ failure, stop = .failed failure := by
  have hvariable := (hs.cache.lookup hs.declared id declared flag).1
  have hends := s.memberCache.lookup_ne_diverged hs.away id declared flag
  rw [h] at hvariable hends
  cases stop with
  | failed failure => exact ⟨failure, rfl⟩
  | unresolvedVariable name => exact absurd rfl (hvariable name)
  | diverged => exact absurd rfl hends

/-- A wrapper finds its members, or fails to. -/
theorem proxyMembers (hs : s.LookupsEnd) (r : ObjectRef) (p : Proxy) :
    (Eval.proxyMembers r p).EndsUnless (fun _ => False) s := by
  have hmembers : ∀ id declared, (Eval.membersOf id declared false).EndsUnless (fun _ => False) s := by
    intro id declared stop heq
    rw [Eval.outcome_membersOf] at heq
    exact .inl (hs.lookup heq)
  unfold Eval.proxyMembers
  split
  · exact .pure _ s
  · refine .get_bind ?_
    dsimp only
    split <;> split
    · exact (hmembers _ _).bind fun _ _ _ => nofun
    · exact (Eval.EndsUnless.fail _ _).bind fun _ _ _ => nofun
    · exact (hmembers _ _).bind fun _ _ _ => nofun
    · exact (Eval.EndsUnless.fail _ _).bind fun _ _ _ => nofun

/-- **Where look-ups end, no text stops on one.** -/
theorem not_stopsOnLookup (hs : s.LookupsEnd) (result : Except Stop α) : ¬ s.StopsOnLookup met result := by
  rintro ⟨stop, -, s', r, p, hpasses, -, -, -, heq, hstop⟩
  obtain ⟨failure, rfl⟩ := ((hs.passes hpasses).proxyMembers r p stop heq).resolve_right id
  exact hstop failure rfl

end LookupsEnd

/-- Values that are wrapped stay so, and no others are. -/
theorem Passes.native?_eq (h : s.Passes met s') (r : ObjectRef) : (s'.object r).native? = (s.object r).native? := by
  induction h with
  | refl => rfl
  | lookedUp _ _ hr _ ih => rw [((Eval.browsesAt_proxyMembers hr).store.object_alike r).2, ih]
  | chosen _ memos ih => exact ih
  | allocated _ ho ih => exact ih
  | called _ name this args ih => exact ih

/-- Nor does a text stop on a look-up where it meets no wrappers. -/
theorem not_stopsOnLookup_of_meets (h : ∀ r, met r → (s.object r).native? = none) (result : Except Stop α) :
    ¬ s.StopsOnLookup met result := by
  rintro ⟨stop, -, s', r, p, hpasses, hmet, hr, -⟩
  have hwrapped := hpasses.native?_eq r
  rw [hr, h r hmet] at hwrapped
  cases hwrapped

end Store

end Interop
