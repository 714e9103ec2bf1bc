import Interop.Proofs.Member.Settled
import Interop.Proofs.Store.Evaluation

/-!
# Computations that can be repeated

Some computations touch nothing of the store but its collected members, and those only by looking up. Done again in any
store where more has been looked up since, they give the same result and change nothing (`Eval.Repeatable`), whatever
has been remembered of overloads in the meantime. The notion is closed under sequencing, so it has to be checked for
look-ups only.
-/

namespace Interop

/-- A store differs from another at most in collected members, and keeps all answers that are settled there. -/
def Store.Settles (s s' : Store) : Prop :=
  ∃ r, s' = { s with memberCache := r } ∧
    ∀ id flag answer, s.memberCache.settled s.types id flag = some answer →
      r.settled s.types id flag = some answer

/-- A store may also differ in what is remembered of overloads. -/
def Store.Later (s s' : Store) : Prop := ∃ s₁ memos, s.Settles s₁ ∧ s' = { s₁ with memos := memos }

namespace Store.Settles

theorem refl (s : Store) : s.Settles s := ⟨s.memberCache, rfl, fun _ _ _ h => h⟩

theorem trans {s₁ s₂ s₃ : Store} (h₁₂ : s₁.Settles s₂) (h₂₃ : s₂.Settles s₃) : s₁.Settles s₃ := by
  obtain ⟨r, rfl, hr⟩ := h₁₂
  obtain ⟨r', rfl, hr'⟩ := h₂₃
  exact ⟨r', rfl, fun id flag answer h => hr' id flag answer (hr id flag answer h)⟩

/-- Settling collects members and does nothing else. -/
theorem types_eq {s s' : Store} (h : s.Settles s') : s'.types = s.types := by
  obtain ⟨r, rfl, -⟩ := h
  rfl

theorem unwrap?_eq {s s' : Store} (h : s.Settles s') (v : Script) : s'.unwrap? v = s.unwrap? v := by
  obtain ⟨r, rfl, -⟩ := h
  rfl

theorem memo_eq {s s' : Store} (h : s.Settles s') (o : Overloads) : s'.memo o = s.memo o := by
  obtain ⟨r, rfl, -⟩ := h
  rfl

/-- What settles comes later. -/
theorem later {s s' : Store} (h : s.Settles s') : s.Later s' := ⟨s', s'.memos, h, rfl⟩

end Store.Settles

namespace Store.Later

theorem refl (s : Store) : s.Later s := (Settles.refl s).later

theorem memos {s : Store} (m : List (SetKey × Memo)) : s.Later { s with memos := m } := ⟨s, m, .refl s, rfl⟩

theorem trans {s₁ s₂ s₃ : Store} (h₁₂ : s₁.Later s₂) (h₂₃ : s₂.Later s₃) : s₁.Later s₃ := by
  obtain ⟨_, m, ⟨r, rfl, hr⟩, rfl⟩ := h₁₂
  obtain ⟨_, m', ⟨r', rfl, hr'⟩, rfl⟩ := h₂₃
  exact ⟨_, m', ⟨r', rfl, fun id flag answer h => hr' id flag answer (hr id flag answer h)⟩, rfl⟩

/-- Later, only collected members and memories may differ. -/
theorem exists_eq {s s' : Store} (h : s.Later s') : ∃ r m, s' = { s with memberCache := r, memos := m } := by
  obtain ⟨_, m, ⟨r, rfl, -⟩, rfl⟩ := h
  exact ⟨r, m, rfl⟩

theorem config_eq {s s' : Store} (h : s.Later s') : s'.config = s.config := by
  obtain ⟨r, m, rfl⟩ := h.exists_eq
  rfl

end Store.Later

namespace Eval

/-- A computation that only settles answers, and pays no attention to what is remembered of overloads. -/
structure Repeatable (x : Eval α) : Prop where
  settles : ∀ {s s₁ : Store} {result : Except Stop α}, x.outcome s = (result, s₁) → s.Settles s₁
  /-- When more has been settled since, it gives the same result and changes nothing. -/
  repeats : ∀ {s s₁ s' : Store} {result : Except Stop α}, x.outcome s = (result, s₁) → s₁.Settles s' →
    x.outcome s' = (result, s')
  memos : ∀ {s s₁ : Store} {result : Except Stop α} (m : List (SetKey × Memo)), x.outcome s = (result, s₁) →
    x.outcome { s with memos := m } = (result, { s₁ with memos := m })

namespace Repeatable

/-- A repeatable computation gives the same result ever after. -/
theorem again {x : Eval α} (h : x.Repeatable) {s s₁ s' : Store} {result : Except Stop α}
    (hx : x.outcome s = (result, s₁)) (hs : s₁.Later s') : x.outcome s' = (result, s') := by
  obtain ⟨s₂, m, hsettles, rfl⟩ := hs
  exact h.memos m (h.repeats hx hsettles)

/-- What was remembered of calls has no say in the result. -/
theorem result_memos {x : Eval α} (h : x.Repeatable) (s : Store) (m : List (SetKey × Memo)) :
    (x.outcome { s with memos := m }).1 = (x.outcome s).1 := by
  rcases hx : x.outcome s with ⟨result, s₁⟩
  rw [h.memos m hx]

theorem pure (a : α) : (pure a : Eval α).Repeatable where
  settles := by rintro s _ _ ⟨⟩; exact .refl s
  repeats := by rintro s _ s' _ ⟨⟩ _; rfl
  memos := by rintro s _ _ m ⟨⟩; rfl

theorem ofResult (result : Except Stop α) : (Eval.ofResult result).Repeatable := by
  cases result with
  | ok a => exact pure a
  | error stop =>
    constructor
    · rintro s _ _ ⟨⟩; exact .refl s
    · rintro s _ s' _ ⟨⟩ _; rfl
    · rintro s _ _ m ⟨⟩; rfl

/-- One part after the other. The second one runs again where the first one has settled already. -/
theorem bind {x : Eval α} {f : α → Eval β} (hx : x.Repeatable) (hf : ∀ a, (f a).Repeatable) :
    (x >>= f).Repeatable where
  settles h := by
    obtain ⟨stop, hrun, -⟩ | ⟨a, s₁, hrun, hrest⟩ := outcome_bind_cases h
    · exact hx.settles hrun
    · exact (hx.settles hrun).trans ((hf a).settles hrest)
  repeats h hs := by
    obtain ⟨stop, hrun, rfl⟩ | ⟨a, s₁, hrun, hrest⟩ := outcome_bind_cases h
    · exact outcome_bind_of_error (hx.repeats hrun hs)
    · -- the first part has settled before the second one ran
      rw [outcome_bind_of_ok (hx.repeats hrun (((hf a).settles hrest).trans hs))]
      exact (hf a).repeats hrest hs
  memos m h := by
    obtain ⟨stop, hrun, rfl⟩ | ⟨a, s₁, hrun, hrest⟩ := outcome_bind_cases h
    · exact outcome_bind_of_error (hx.memos m hrun)
    · rw [outcome_bind_of_ok (hx.memos m hrun)]
      exact (hf a).memos m hrest

/-- Reading the store is harmless where neither collected members nor memos are looked at. -/
theorem get_bind {f : Store → Eval α} (hread : ∀ s r m, f { s with memberCache := r, memos := m } = f s)
    (hf : ∀ s, (f s).Repeatable) : (get >>= f : Eval α).Repeatable where
  settles h := (hf _).settles h
  repeats {s s₁ s' result} h hs := by
    rw [outcome_get_bind] at h ⊢
    have hsame : f s' = f s := by
      obtain ⟨r, rfl, -⟩ := ((hf s).settles h).trans hs
      exact hread s r s.memos
    rw [hsame]
    exact (hf s).repeats h hs
  memos {s s₁ result} m h := by
    rw [outcome_get_bind] at h ⊢
    rw [show f { s with memos := m } = f s from hread s s.memberCache m]
    exact (hf s).memos m h

/-- A computation that is tried runs again as it does when it is not. -/
theorem attempt {x : Eval α} (hx : x.Repeatable) : (Eval.attempt x).Repeatable where
  -- failures turn into values, other stops pass
  settles {s s₁ result} h := by
    rw [outcome_attempt] at h
    rcases hrun : x.outcome s with ⟨(failure | name | _) | a, s₂⟩ <;> rw [hrun] at h <;> cases h <;>
      exact hx.settles hrun
  repeats {s s₁ s' result} h hs := by
    rw [outcome_attempt] at h ⊢
    rcases hrun : x.outcome s with ⟨(failure | name | _) | a, s₂⟩ <;> rw [hrun] at h <;> cases h <;>
      rw [hx.repeats hrun hs]
  memos {s s₁ result} m h := by
    rw [outcome_attempt] at h ⊢
    rcases hrun : x.outcome s with ⟨(failure | name | _) | a, s₂⟩ <;> rw [hrun] at h <;> cases h <;>
      rw [hx.memos m hrun]

/-- Elements in turn. -/
theorem mapM {f : α → Eval β} (hf : ∀ a, (f a).Repeatable) : (xs : List α) → (xs.mapM f).Repeatable
  | [] => by
    rw [List.mapM_nil]
    exact pure []
  | x :: xs => by
    rw [List.mapM_cons]
    exact (hf x).bind fun _ => (mapM hf xs).bind fun _ => pure _

end Repeatable

/-- Members that are looked up without a declared type are settled. -/
theorem Repeatable.membersOf (id : TypeId) (includeProtected : Bool) :
    (Eval.membersOf id none includeProtected).Repeatable where
  settles h := by
    rw [outcome_membersOf] at h
    cases h
    exact ⟨_, rfl, fun _ _ _ hsettled => MemberCache.settled_mono hsettled⟩
  repeats {s s₁ s' result} h hs := by
    rw [outcome_membersOf] at h
    cases h
    obtain ⟨r, rfl, hr⟩ := hs
    -- the first look-up settled the answer, and the later store keeps it
    have hsettled := hr id _ _ (MemberCache.settled_lookup s.types s.memberCache id
      (includeProtected || s.config.includeNonPublic))
    rw [outcome_membersOf, MemberCache.lookup_of_settled hsettled]
  memos m h := by
    rw [outcome_membersOf] at h ⊢
    cases h
    rfl

end Eval

end Interop
