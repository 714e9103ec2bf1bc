import Interop.Store.Basic

/-!
# What a computation does

`Eval.outcome` is what a computation ends with and the store it leaves. Every primitive of `Eval` has an equation for
its outcome, so that proofs run computations by rewriting and never open the monad.
-/

namespace Interop

/-- The same store, with something else in use. -/
def Store.withInUse (s : Store) (inUse : List Referent) : Store := { s with inUse := inUse }

namespace Eval

/-- The result of a computation in a store, and the store afterwards. -/
def outcome (x : Eval α) (s : Store) : Except Stop α × Store := x.run.run s

/-- Computations are equal if they end alike in every store. -/
theorem ext {x y : Eval α} (h : ∀ s, x.outcome s = y.outcome s) : x = y := funext h

/-! ## Sequencing -/

@[simp] theorem outcome_pure (a : α) (s : Store) : (pure a : Eval α).outcome s = (.ok a, s) := rfl

/-- The first part runs, and then the second one on its value, unless the first one stops. -/
theorem outcome_bind (x : Eval α) (f : α → Eval β) (s : Store) :
    (x >>= f).outcome s =
      match x.outcome s with
      | (.ok a, s') => (f a).outcome s'
      | (.error stop, s') => (.error stop, s') := by
  show (match x.outcome s with
    | (result, s') => (ExceptT.bindCont f result : StateM Store (Except Stop β)).run s') = _
  rcases x.outcome s with ⟨_ | _, s'⟩ <;> rfl

theorem outcome_bind_of_ok {x : Eval α} {f : α → Eval β} {s s' : Store} {a : α} (h : x.outcome s = (.ok a, s')) :
    (x >>= f).outcome s = (f a).outcome s' := by
  rw [outcome_bind, h]

theorem outcome_bind_of_error {x : Eval α} {f : α → Eval β} {s s' : Store} {stop : Stop}
    (h : x.outcome s = (.error stop, s')) : (x >>= f).outcome s = (.error stop, s') := by
  rw [outcome_bind, h]

/-- A sequence stopped in its first part, or its first part gave a value to the second one. -/
theorem outcome_bind_cases {x : Eval α} {f : α → Eval β} {s s₂ : Store} {result : Except Stop β}
    (h : (x >>= f).outcome s = (result, s₂)) :
    (∃ stop, x.outcome s = (.error stop, s₂) ∧ result = .error stop) ∨
      ∃ a s₁, x.outcome s = (.ok a, s₁) ∧ (f a).outcome s₁ = (result, s₂) := by
  rcases hx : x.outcome s with ⟨stop | a, s₁⟩
  · rw [outcome_bind_of_error hx] at h
    cases h
    exact .inl ⟨stop, rfl, rfl⟩
  · rw [outcome_bind_of_ok hx] at h
    exact .inr ⟨a, s₁, rfl, h⟩

/-- A computation that is known to give a value, with the store that it leaves. -/
theorem outcome_of_toOption {x : Eval α} {s : Store} {a : α} (h : (x.outcome s).1.toOption = some a) :
    x.outcome s = (.ok a, (x.outcome s).2) := by
  rcases hx : x.outcome s with ⟨stop | b, s₁⟩ <;> rw [hx] at h <;> cases h
  rfl

/-- A function of the result changes nothing else. -/
theorem outcome_map (f : α → β) (x : Eval α) (s : Store) :
    (f <$> x).outcome s = ((x.outcome s).1.map f, (x.outcome s).2) := by
  rw [← bind_pure_comp, outcome_bind]
  rcases x.outcome s with ⟨_ | _, _⟩ <;> rfl

theorem outcome_map_of_ok {f : α → β} {x : Eval α} {s s' : Store} {a : α} (h : x.outcome s = (.ok a, s')) :
    (f <$> x).outcome s = (.ok (f a), s') := by
  rw [outcome_map, h]
  rfl

/-- A mapped computation gives a value where the computation does. -/
theorem exists_of_outcome_map {f : α → β} {x : Eval α} {s s' : Store} {b : β} (h : (f <$> x).outcome s = (.ok b, s')) :
    ∃ a, x.outcome s = (.ok a, s') ∧ f a = b := by
  rw [outcome_map] at h
  rcases hrun : x.outcome s with ⟨stop | a, after⟩ <;> rw [hrun] at h <;> cases h
  exact ⟨a, rfl, rfl⟩

/-! ## The store -/

@[simp] theorem outcome_set (s s' : Store) : (set s' : Eval PUnit).outcome s = (.ok ⟨⟩, s') := rfl

@[simp] theorem outcome_modify (f : Store → Store) (s : Store) :
    (modify f : Eval PUnit).outcome s = (.ok ⟨⟩, f s) := rfl

/-- A computation that first reads the store is the one for the store that it reads. -/
theorem outcome_get_bind (f : Store → Eval α) (s : Store) :
    (get >>= f : Eval α).outcome s = (f s).outcome s := rfl

/-- What was in use before is in use again afterwards. -/
theorem outcome_holding (held : List Referent) (x : Eval α) (s : Store) :
    (holding held x).outcome s =
      ((x.outcome (s.withInUse (held ++ s.inUse))).1,
        (x.outcome (s.withInUse (held ++ s.inUse))).2.withInUse s.inUse) := rfl

/-! ## Stopping -/

@[simp] theorem outcome_throw (stop : Stop) (s : Store) : (throw stop : Eval α).outcome s = (.error stop, s) := rfl

@[simp] theorem outcome_fail (f : Failure) (s : Store) : (fail f : Eval α).outcome s = (.error (.failed f), s) := rfl

@[simp] theorem outcome_ofResult (r : Except Stop α) (s : Store) : (ofResult r).outcome s = (r, s) := by
  cases r <;> rfl

/-- A handler runs in the store that the stop has left. -/
theorem outcome_tryCatch (x : Eval α) (handler : Stop → Eval α) (s : Store) :
    (tryCatch x handler).outcome s =
      match x.outcome s with
      | (.ok a, s') => (.ok a, s')
      | (.error stop, s') => (handler stop).outcome s' := by
  rcases hx : x.outcome s with ⟨result, s'⟩
  have hbind : ∀ f : Except Stop α → StateM Store (Except Stop α), (x.run >>= f).run s = (f result).run s' := by
    intro f
    have hrun : x.run.run s = (result, s') := hx
    rw [StateT.run_bind, hrun]
    rfl
  have hunfold : (tryCatch x handler).outcome s = outcome (ExceptT.tryCatch x handler) s := rfl
  rw [hunfold, ExceptT.tryCatch]
  show (x.run >>= _ : StateM Store (Except Stop α)).run s = _
  rw [hbind]
  cases result <;> rfl

/-- Failures become values; other stops stay stops. -/
theorem outcome_attempt (x : Eval α) (s : Store) :
    (attempt x).outcome s =
      match x.outcome s with
      | (.ok a, s') => (.ok (.ok a), s')
      | (.error (.failed f), s') => (.ok (.error f), s')
      | (.error stop, s') => (.error stop, s') := by
  rw [attempt, outcome_tryCatch, outcome_map]
  rcases x.outcome s with ⟨stop | a, s'⟩
  · cases stop <;> rfl
  · rfl

/-- An attempt that gave a value did what was attempted. -/
theorem outcome_of_attempt {x : Eval α} {s s' : Store} {result : Except Failure α} {a : α}
    (h : (attempt x).outcome s = (.ok result, s')) (ha : a ∈ result.toOption) : x.outcome s = (.ok a, s') := by
  rw [outcome_attempt] at h
  rcases hrun : x.outcome s with ⟨(failure | name | _) | value, s₁⟩ <;> rw [hrun] at h <;> cases h <;> cases ha
  rfl

/-! ## Look-ups -/

/-- A look-up gives what the kept members or a new collection give, and keeps what was collected. -/
theorem outcome_membersOf (id : TypeId) (declared : Option TypeId) (includeProtected : Bool) (s : Store) :
    (membersOf id declared includeProtected).outcome s =
      ((s.memberCache.lookup s.types id declared (includeProtected || s.config.includeNonPublic)).1,
        { s with memberCache :=
            (s.memberCache.lookup s.types id declared (includeProtected || s.config.includeNonPublic)).2 }) := by
  rw [membersOf, outcome_get_bind]
  rcases s.memberCache.lookup s.types id declared (includeProtected || s.config.includeNonPublic) with ⟨result, r⟩
  rw [outcome_bind_of_ok (outcome_set s _), outcome_ofResult]

end Eval

end Interop
