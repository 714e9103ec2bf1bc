import Interop.Proofs.Coercion.Agreement
import Interop.Proofs.Value.Lookups

/-!
# Texts

Nothing remembers which objects are being shown already. So a text ends if what is shown never leads back to an object
that is being shown, and otherwise it has no end, whatever is allowed for it. Either way a wrapper that is met may look
up its members first, and a look-up that does not return takes the text with it.

* **`Eval.Tells`**, **`tells_displayWithin`**: what comes of a text within an allowance.
* **`displayNative_ends`**, **`displayScript_ends`**: texts that lead into no circle.
* **`displayNative_diverges`**, **`displayScript_diverges`**: texts that do.
-/

namespace Interop

variable {s : Store} {met : ObjectRef → Prop}

namespace Eval

/-- In all stores that texts go through, a computation gives a value if none of the objects that it shows leads on that
often, and otherwise does not end; or a look-up of a wrapper stops it. -/
structure Tells (s : Store) (met : ObjectRef → Prop) (n : Nat) (shown : List Referent) (x : Eval α) : Prop where
  passes : ∀ {s'}, s.Passes met s' → s.Passes met (x.outcome s').2
  diverges : ∀ {y s'}, y ∈ shown → s.LeadsOn n y → s.Passes met s' →
    (x.outcome s').1 = .error .diverged ∨ s.StopsOnLookup met (x.outcome s').1
  ends : ∀ {s'}, (∀ y ∈ shown, ¬ s.LeadsOn n y) → s.Passes met s' →
    (∃ a, (x.outcome s').1 = .ok a) ∨ s.StopsOnLookup met (x.outcome s').1

namespace Tells

variable {n : Nat}

theorem pure (a : α) : (pure a : Eval α).Tells s met n [] := ⟨fun h => h, nofun, fun _ _ => .inl ⟨a, rfl⟩⟩

/-- One after the other. -/
theorem bind {x : Eval α} {f : α → Eval β} {shown more : List Referent} (hx : x.Tells s met n shown)
    (hf : ∀ a, (f a).Tells s met n more) : (x >>= f).Tells s met n (shown ++ more) := by
  -- a look-up that stops the first part stops the whole
  have hstopped : ∀ {s'}, s.StopsOnLookup met (x.outcome s').1 → s.StopsOnLookup met ((x >>= f).outcome s').1 := by
    rintro s' ⟨stop, heq, hstop⟩
    rw [outcome_bind_of_error (Prod.ext heq rfl)]
    exact ⟨stop, rfl, hstop⟩
  have hnext : ∀ {s' a}, s.Passes met s' → (x.outcome s').1 = .ok a →
      ∃ s₁, (x >>= f).outcome s' = (f a).outcome s₁ ∧ s.Passes met s₁ :=
    fun hs' ha => ⟨_, outcome_bind_of_ok (Prod.ext ha rfl), hx.passes hs'⟩
  refine ⟨fun {s'} hs' => ?_, fun {y s'} hy hleads hs' => ?_, fun {s'} hnone hs' => ?_⟩
  · rcases hrun : (x.outcome s').1 with stop | a
    · rw [outcome_bind_of_error (Prod.ext hrun rfl)]
      exact hx.passes hs'
    · obtain ⟨s₁, heq, hs₁⟩ := hnext hs' hrun
      rw [heq]
      exact (hf a).passes hs₁
  · -- the first part may stop before the second one is reached, but then it does not end either
    by_cases hshown : ∃ z ∈ shown, s.LeadsOn n z
    · obtain ⟨z, hz, hzleads⟩ := hshown
      refine (hx.diverges hz hzleads hs').imp (fun hstop => ?_) hstopped
      rw [outcome_bind_of_error (Prod.ext hstop rfl)]
    · simp only [not_exists, not_and] at hshown
      have hmore : y ∈ more := (List.mem_append.mp hy).resolve_left fun hy => hshown y hy hleads
      rcases hx.ends hshown hs' with ⟨a, ha⟩ | hlookup
      · obtain ⟨s₁, heq, hs₁⟩ := hnext hs' ha
        rw [heq]
        exact (hf a).diverges hmore hleads hs₁
      · exact .inr (hstopped hlookup)
  · obtain ⟨hshown, hmore⟩ := List.forall_mem_append.mp hnone
    rcases hx.ends hshown hs' with ⟨a, ha⟩ | hlookup
    · obtain ⟨s₁, heq, hs₁⟩ := hnext hs' ha
      rw [heq]
      exact (hf a).ends hmore hs₁
    · exact .inr (hstopped hlookup)

theorem bind_pure {x : Eval α} {shown : List Referent} (hx : x.Tells s met n shown) (f : α → β) :
    (x >>= fun a => Pure.pure (f a)).Tells s met n shown := by
  have hbind := hx.bind fun a => pure (f a)
  rwa [List.append_nil] at hbind

/-- The parts of a container, one after the other. -/
theorem mapM {f : α → Eval β} {shown : α → List Referent} : ∀ {xs : List α},
    (∀ x ∈ xs, (f x).Tells s met n (shown x)) → (xs.mapM f).Tells s met n (xs.flatMap shown)
  | [], _ => by
    rw [List.mapM_nil]
    exact pure []
  | x :: xs, h => by
    obtain ⟨hx, hxs⟩ := List.forall_mem_cons.mp h
    rw [List.mapM_cons, List.flatMap_cons]
    exact hx.bind fun _ => (mapM hxs).bind_pure _

/-- No reference may be followed any more. -/
theorem stop (y : Referent) : (throw .diverged : Eval α).Tells s met 0 [y] :=
  ⟨fun h => h, fun _ _ _ => .inl rfl, fun hnone _ => absurd trivial (hnone y (List.mem_singleton_self y))⟩

/-- To show an object is to show what it shows, with one reference less to follow, if no look-up stops that first. -/
theorem follow {x : Eval α} {y : Referent} (h : ∀ {s'}, s.Passes met s' →
      (s.Passes met (x.outcome s').2 ∧ s.StopsOnLookup met (x.outcome s').1) ∨
      ∃ (shows : Eval α) (s₁ : Store), x.outcome s' = shows.outcome s₁ ∧ s.Passes met s₁ ∧
        shows.Tells s met n (s.shownBy y)) : x.Tells s met (n + 1) [y] := by
  refine ⟨fun {s'} hs' => ?_, fun {y' s'} hy hleads hs' => ?_, fun {s'} hnone hs' => ?_⟩
  · rcases h hs' with ⟨hpasses, -⟩ | ⟨shows, s₁, heq, hs₁, htells⟩
    · exact hpasses
    · rw [heq]
      exact htells.passes hs₁
  · cases List.mem_singleton.mp hy
    obtain ⟨z, hyz, hz⟩ := hleads
    rcases h hs' with ⟨-, hlookup⟩ | ⟨shows, s₁, heq, hs₁, htells⟩
    · exact .inr hlookup
    · rw [heq]
      exact htells.diverges hyz hz hs₁
  · rcases h hs' with ⟨-, hlookup⟩ | ⟨shows, s₁, heq, hs₁, htells⟩
    · exact .inr hlookup
    · rw [heq]
      exact htells.ends (fun z hz hleads => hnone y (List.mem_singleton_self y) ⟨z, hz, hleads⟩) hs₁

end Tells

end Eval

/-! ## Within an allowance -/

/-- The text of a native object is made of the texts of what it holds, one level further down. -/
theorem tells_displayNative_object {n : Nat}
    (ihNative : ∀ v : Native, s.AllMeetOnly met v.held → (displayNativeWithin n v).Tells s met n v.held)
    (ihScript : ∀ v : Script, s.AllMeetOnly met v.shown → (displayScriptWithin n v).Tells s met n v.shown)
    (r : NativeRef) (hr : s.MeetsOnly met (.native r)) :
    (displayNativeWithin (n + 1) (.object r)).Tells s met (n + 1) [.native r] := by
  refine .follow fun {s'} hs' => .inr ?_
  -- one case for each kind of object: what it shows is told one level further down
  have hshown : ∀ y ∈ s'.shownBy (.native r), s.MeetsOnly met y := by
    intro y hy
    rw [hs'.shownBy_eq] at hy
    exact hr.of_shows hy
  have helements : ∀ elements : List Native, (∀ y ∈ elements.flatMap Native.held, s.MeetsOnly met y) →
      (elements.mapM (displayNativeWithin n)).Tells s met n (elements.flatMap Native.held) :=
    fun elements h => .mapM fun v hv => ihNative v fun y hy => h y (List.mem_flatMap.mpr ⟨v, hv, hy⟩)
  rw [displayNativeWithin, Eval.outcome_get_bind, ← hs'.shownBy_eq]
  rw [Store.shownBy] at hshown ⊢
  cases hobject : s'.native r <;> rw [hobject] at hshown
  case array a => exact ⟨_, s', rfl, hs', (helements a.elements hshown).bind_pure _⟩
  case list l => exact ⟨_, s', rfl, hs', (helements l.elements hshown).bind_pure _⟩
  case map m =>
    refine ⟨_, s', rfl, hs', Eval.Tells.bind_pure (.mapM fun entry hentry => ?_) _⟩
    obtain ⟨hkey, hvalue⟩ := List.forall_mem_append.mp fun y hy => hshown y (List.mem_flatMap.mpr ⟨entry, hentry, hy⟩)
    exact (ihNative entry.1 hkey).bind fun _ => (ihNative entry.2 hvalue).bind_pure _
  case handle v => exact ⟨_, s', rfl, hs', ihScript v hshown⟩
  case adapter target interface members key => exact ⟨_, s', rfl, hs', ihScript target hshown⟩
  all_goals exact ⟨_, s', rfl, hs', .pure _⟩

theorem tells_displayScript_object {n : Nat}
    (ihNative : ∀ v : Native, s.AllMeetOnly met v.held → (displayNativeWithin n v).Tells s met n v.held)
    (ihScript : ∀ v : Script, s.AllMeetOnly met v.shown → (displayScriptWithin n v).Tells s met n v.shown)
    (r : ObjectRef) (hr : s.MeetsOnly met (.object r)) :
    (displayScriptWithin (n + 1) (.object r)).Tells s met (n + 1) [.object r] := by
  refine .follow fun {s'} hs' => ?_
  have hshown : ∀ y ∈ s'.shownBy (.object r), s.MeetsOnly met y := by
    intro y hy
    rw [hs'.shownBy_eq] at hy
    exact hr.of_shows hy
  rw [displayScriptWithin, Eval.outcome_get_bind, ← hs'.shownBy_eq]
  rw [Store.shownBy] at hshown ⊢
  cases hobject : s'.object r <;> rw [hobject] at hshown
  case plain properties => exact .inr ⟨_, s', rfl, hs', .pure _⟩
  case array elements =>
    refine .inr ⟨_, s', rfl, hs', Eval.Tells.bind_pure (.mapM fun v hv => ?_) _⟩
    split
    · next hnullish =>
      have hnothing : v.shown = [] := by cases v <;> first | rfl | cases hnullish
      rw [hnothing]
      exact .pure ""
    · exact ihScript v fun y hy => hshown y (List.mem_flatMap.mpr ⟨v, hv, hy⟩)
  case proxy p =>
    dsimp only
    split
    · exact .inr ⟨_, s', rfl, hs', ihNative p.value hshown⟩
    · exact .inr ⟨_, s', rfl, hs', ihNative p.value hshown⟩
    · next hnoArray hnoClass =>
      -- the members are looked up first, and whether that fails does not matter
      obtain ⟨hpasses, ⟨result, hok⟩ | ⟨stop, heq, hstop⟩⟩ :=
        Store.passes_attempt_proxyMembers hs' (hr r .refl) hobject ⟨hnoArray, hnoClass⟩
      · rw [Eval.outcome_bind_of_ok (Prod.ext hok rfl)]
        exact .inr ⟨_, _, rfl, hpasses, ihNative p.value hshown⟩
      · rw [Eval.outcome_bind_of_error (Prod.ext heq rfl)]
        exact .inl ⟨hpasses, stop, rfl, hstop⟩

/-- Values that are no objects have texts of their own. -/
theorem tells_displayNative_inline {v : Native} (hv : v.held = []) (n : Nat) :
    (displayNativeWithin n v).Tells s met n v.held := by
  cases v with
  | object r => cases hv
  | _ => cases n <;> exact .pure _

theorem tells_displayScript_inline {v : Script} (hv : v.shown = []) (n : Nat) :
    (displayScriptWithin n v).Tells s met n v.shown := by
  cases v with
  | object r => cases hv
  | callable f => cases n <;> exact ⟨fun h => h, nofun, fun _ _ => .inl ⟨_, rfl⟩⟩
  | _ => cases n <;> exact .pure _

/-- **What comes of texts** within an allowance: they do not end where an object that is shown leads on further. -/
theorem tells_displayWithin (s : Store) (met : ObjectRef → Prop) (n : Nat) :
    (∀ v : Native, s.AllMeetOnly met v.held → (displayNativeWithin n v).Tells s met n v.held) ∧
    ∀ v : Script, s.AllMeetOnly met v.shown → (displayScriptWithin n v).Tells s met n v.shown := by
  -- on the allowance, for values of both sides at once: the texts of each contain those of the other
  induction n with
  | zero =>
    refine ⟨fun v _ => ?_, fun v _ => ?_⟩
    · cases v with
      | object r => exact .stop (.native r)
      | _ => exact tells_displayNative_inline rfl 0
    · cases v with
      | object r => exact .stop (.object r)
      | _ => exact tells_displayScript_inline rfl 0
  | succ n ih =>
    obtain ⟨ihNative, ihScript⟩ := ih
    refine ⟨fun v hv => ?_, fun v hv => ?_⟩
    · cases v with
      | object r => exact tells_displayNative_object ihNative ihScript r (hv _ (List.mem_singleton_self _))
      | _ => exact tells_displayNative_inline rfl (n + 1)
    · cases v with
      | object r => exact tells_displayScript_object ihNative ihScript r (hv _ (List.mem_singleton_self _))
      | _ => exact tells_displayScript_inline rfl (n + 1)

/-! ## Circles -/

section Circles

variable {s' : Store} {n : Nat} {shown : List Referent} {x : Eval α}

/-- What leads into no circle is told by whoever may follow as many references as there are objects. -/
theorem Eval.Tells.ends_of_not_circular (hx : x.Tells s met n shown) (hle : s.depth ≤ n)
    (hshown : ∀ y ∈ shown, ¬ s.Circular y) (hs' : s.Passes met s') :
    (∃ a, (x.outcome s').1 = .ok a) ∨ s.StopsOnLookup met (x.outcome s').1 :=
  hx.ends (fun y hy hleads => hshown y hy (hleads.circular hle)) hs'

/-- What leads into a circle is told by nobody. -/
theorem Eval.Tells.diverges_of_circular (hx : x.Tells s met n shown) {y : Referent} (hy : y ∈ shown)
    (hcircular : s.Circular y) : (x.outcome s).1 = .error .diverged ∨ s.StopsOnLookup met (x.outcome s).1 :=
  hx.diverges hy (hcircular.leadsOn n) .refl

/-- **Texts of native values end** where nothing that they show leads into a circle, in all stores on the way. -/
theorem displayNative_ends {v : Native} (hmet : s.AllMeetOnly met v.held) (hv : ∀ y ∈ v.held, ¬ s.Circular y)
    (hs' : s.Passes met s') :
    (∃ text, ((displayNative v).outcome s').1 = .ok text) ∨ s.StopsOnLookup met ((displayNative v).outcome s').1 :=
  ((tells_displayWithin s met s'.depth).1 v hmet).ends_of_not_circular hs'.depth_le hv hs'

/-- **Texts of script values end** in the same way. -/
theorem displayScript_ends {v : Script} (hmet : s.AllMeetOnly met v.shown) (hv : ∀ y ∈ v.shown, ¬ s.Circular y)
    (hs' : s.Passes met s') :
    (∃ text, ((displayScript v).outcome s').1 = .ok text) ∨ s.StopsOnLookup met ((displayScript v).outcome s').1 :=
  ((tells_displayWithin s met s'.depth).2 v hmet).ends_of_not_circular hs'.depth_le hv hs'

/-- **Texts of native values have no end** where something that they show leads into a circle. -/
theorem displayNative_diverges {v : Native} {y : Referent} (hy : y ∈ v.held) (hcircular : s.Circular y) (n : Nat) :
    ((displayNativeWithin n v).outcome s).1 = .error .diverged ∨
    s.StopsOnLookup (s.Meets v.held) ((displayNativeWithin n v).outcome s).1 :=
  ((tells_displayWithin s _ n).1 v fun _ => Store.meetsOnly_meets).diverges_of_circular hy hcircular

/-- **Texts of script values have no end** in the same way. -/
theorem displayScript_diverges {v : Script} {y : Referent} (hy : y ∈ v.shown) (hcircular : s.Circular y) (n : Nat) :
    ((displayScriptWithin n v).outcome s).1 = .error .diverged ∨
    s.StopsOnLookup (s.Meets v.shown) ((displayScriptWithin n v).outcome s).1 :=
  ((tells_displayWithin s _ n).2 v fun _ => Store.meetsOnly_meets).diverges_of_circular hy hcircular

end Circles

end Interop
