import Interop.Proofs.Coercion.Conformance

/-!
# Instances

The best rank says that a value wraps an instance of the type. It is given to proxies only, and what such a proxy wraps
comes through a conversion to the type as it is, also where the type is a union: ranking a proxy changes nothing, so the
member that is chosen is one that the proxy was ranked best for.

* **`bestRank_eq`**, **`firstBest_spec`**: the rank of a union, and the member that is chosen.
* **`ByTables.outcome_convert`**: values that are neither objects nor functions are converted by tables.
* **`convert_of_nontrivial`**: a proxy of an instance becomes what it wraps, through unions of any depth.
* **`givesAt_rankOf_pos`**: what is no proxy is no instance of any type.
* **`convert_of_instance`**: both together.
-/

namespace Interop

variable {s s₁ : Store} {v : Script} {n : Native}

/-! ## The best rank -/

/-- Nothing is better than the rank of a value that fits as it is. -/
theorem Rank.eq_nontrivial_of_value_le {rank : Rank} (h : rank.value ≤ Rank.nontrivial.value) : rank = .nontrivial := by
  cases rank
  exact congrArg Rank.mk (Nat.le_zero.mp h)

theorem Rank.best_cases (a b : Rank) : a.best b = a ∨ a.best b = b := by
  unfold best
  split
  · exact .inl rfl
  · exact .inr rfl

/-- The best rank among some is one of them. -/
theorem Rank.mem_of_foldr_best {ranks : List Rank} {best : Rank} (h : ranks.foldr Rank.best .none = best)
    (hbest : best ≠ .none) : best ∈ ranks := by
  induction ranks generalizing best with
  | nil => exact absurd h.symm hbest
  | cons rank rest ih =>
    rw [List.foldr_cons] at h
    rcases Rank.best_cases rank (rest.foldr Rank.best .none) with hfirst | hrest
    · rw [← h, hfirst]
      exact List.mem_cons_self
    · exact List.mem_cons_of_mem _ (ih (hrest.symm.trans h) hbest)

/-- The rank of a union is the best of the ranks of its members. -/
theorem bestRank_eq (v : Script) (members : List Descriptor) :
    bestRank v members = members.mapM (rankOf v) >>= fun ranks => pure (ranks.foldr Rank.best .none) := by
  induction members with
  | nil => rw [bestRank, List.mapM_nil, pure_bind, List.foldr_nil]
  | cons d ds ih =>
    rw [bestRank, ih, List.mapM_cons]
    simp only [bind_assoc, pure_bind, List.foldr_cons]

theorem eq_nil_of_firstBest {ranks : List Rank} {place : Nat} (h : firstBest place ranks = none) : ranks = [] := by
  cases ranks with
  | nil => rfl
  | cons first rest =>
    rw [firstBest] at h
    split at h
    · cases h
    · split at h <;> cases h

/-- **The place that is chosen has the rank that is chosen, and no other rank is better.** -/
theorem firstBest_spec {ranks : List Rank} {place j : Nat} {rank : Rank} (h : firstBest place ranks = some (j, rank)) :
    ∃ i, j = place + i ∧ ranks[i]? = some rank ∧ ∀ other ∈ ranks, rank.value ≤ other.value := by
  induction ranks generalizing place j rank with
  | nil => cases h
  | cons first rest ih =>
    rw [firstBest] at h
    split at h
    · next hnone =>
      cases h
      rw [eq_nil_of_firstBest hnone]
      exact ⟨0, rfl, rfl, List.forall_mem_singleton.mpr (Nat.le_refl _)⟩
    · next i r hrest =>
      obtain ⟨k, rfl, hget, hleast⟩ := ih hrest
      split at h
      · next hle =>
        cases h
        refine ⟨0, rfl, rfl, List.forall_mem_cons.mpr ⟨Nat.le_refl _, ?_⟩⟩
        exact fun other hother => Nat.le_trans hle (hleast other hother)
      · next hlt =>
        cases h
        exact ⟨k + 1, by omega, hget, List.forall_mem_cons.mpr ⟨Nat.le_of_not_le hlt, hleast⟩⟩

/-- A type other than a union has been ranked as the target that it is. -/
theorem exists_target_of_rankOf {d : Descriptor} (hd : ∀ members, d = .union members → False) {rank : Rank}
    (h : (rankOf v d).outcome s = (.ok rank, s₁)) :
    ∃ target, s.types.targetOf d = .ok target ∧ (rankTarget v target).outcome s = (.ok rank, s₁) := by
  rw [rankOf_eq hd, Eval.outcome_get_bind] at h
  obtain ⟨_, _, hstop⟩ | ⟨target, s₂, hresult, hrank⟩ := Eval.outcome_bind_cases h
  · cases hstop
  rw [Eval.outcome_ofResult] at hresult
  obtain ⟨htarget, rfl⟩ := Prod.mk.inj hresult
  exact ⟨target, htarget, hrank⟩

/-! ## Computations that leave the store as it is -/

namespace Eval

/-- In one store, a computation changes nothing. -/
def StaysAt (x : Eval α) (s : Store) : Prop := (x.outcome s).2 = s

/-- Two halves that leave the store as it is make a whole that does. -/
theorem StaysAt.bind {x : Eval α} {f : α → Eval β} (hx : x.StaysAt s) (hf : ∀ a, (f a).StaysAt s) :
    (x >>= f).StaysAt s := by
  rcases hrun : x.outcome s with ⟨stop | a, s₁⟩ <;> rw [StaysAt, hrun] at hx <;> obtain rfl := hx
  · rw [StaysAt, outcome_bind_of_error hrun]
  · rw [StaysAt, outcome_bind_of_ok hrun]
    exact hf a

/-- What a traversal gives, place by place, where no element changes the store. -/
theorem getElem?_of_mapM {f : α → Eval β} {xs : List α} {ys : List β} (hf : ∀ x ∈ xs, (f x).StaysAt s)
    (h : (xs.mapM f).outcome s = (.ok ys, s₁)) :
    s₁ = s ∧ ∀ (i : Nat) y, ys[i]? = some y → ∃ x, xs[i]? = some x ∧ (f x).outcome s = (.ok y, s) := by
  induction xs generalizing ys s₁ with
  | nil =>
    rw [List.mapM_nil] at h
    cases h
    exact ⟨rfl, nofun⟩
  | cons x xs ih =>
    obtain ⟨hx, hxs⟩ := List.forall_mem_cons.mp hf
    rw [List.mapM_cons] at h
    obtain ⟨_, _, hstop⟩ | ⟨first, s₂, hfirst, hafter⟩ := outcome_bind_cases h
    · cases hstop
    -- the first round leaves the store, so the rest of the loop runs in it as well
    obtain rfl : s₂ = s := by rwa [StaysAt, hfirst] at hx
    obtain ⟨_, _, hstop⟩ | ⟨rest, s₃, hrest, hlast⟩ := outcome_bind_cases hafter
    · cases hstop
    obtain ⟨rfl, hplaces⟩ := ih hxs hrest
    cases hlast
    refine ⟨rfl, fun i y hy => ?_⟩
    cases i with
    | zero =>
      obtain rfl : first = y := Option.some.inj hy
      exact ⟨x, rfl, hfirst⟩
    | succ i => exact hplaces i y hy

end Eval

/-! ## Proxies -/

/-- A proxy is ranked by its kind and what it wraps. -/
theorem rankTarget_staysAt (hv : s.unwrap? v = some n) (target : Target) : (rankTarget v target).StaysAt s := by
  obtain ⟨r, p, rfl, hp, -⟩ := Store.exists_proxy_of_unwrap? hv
  unfold rankTarget
  rw [Eval.StaysAt, Eval.outcome_get_bind, Store.kindOf_proxy hp]
  split
  · rfl
  · cases p.kind <;> rfl

/-- A proxy is ranked by the table of classes or as the value it wraps. -/
theorem rankTarget_of_unwrap? (hv : s.unwrap? v = some n) {target : Target} (hany : target ≠ .any) :
    (rankTarget v target).outcome s = (.ok (rankClass target), s) ∨
      ∃ isArray, (rankTarget v target).outcome s = (.ok (s.rankWrapped n isArray target), s) := by
  obtain ⟨r, p, rfl, hp, -⟩ := Store.exists_proxy_of_unwrap? hv
  unfold rankTarget
  rw [Eval.outcome_get_bind, Store.kindOf_proxy hp, hv]
  split
  · exact absurd rfl hany
  · cases p.kind with
    | ofClass => exact .inl rfl
    | ofArray => exact .inr ⟨true, rfl⟩
    | _ => exact .inr ⟨false, rfl⟩

mutual

/-- Ranking a proxy changes nothing. -/
theorem rankOf_staysAt (hv : s.unwrap? v = some n) : (d : Descriptor) → (rankOf v d).StaysAt s
  | .union members => by
    rw [rankOf]
    exact bestRank_staysAt hv members
  | .unspecified | .plain _ | .array _ | .parameterized _ _ | .enumeration _ | .interface _ _ | .typeVar _ _
  | .stringLiteral _ | .numberLiteral _ | .booleanLiteral _ | .objectShape _ | .functionShape _ _ => by
    rw [rankOf_eq (by simp)]
    refine Eval.StaysAt.bind rfl fun s₁ => Eval.StaysAt.bind ?_ fun target => rankTarget_staysAt hv target
    rw [Eval.StaysAt, Eval.outcome_ofResult]

theorem bestRank_staysAt (hv : s.unwrap? v = some n) : (members : List Descriptor) → (bestRank v members).StaysAt s
  | [] => rfl
  | d :: ds => by
    rw [bestRank]
    exact (rankOf_staysAt hv d).bind fun _ => (bestRank_staysAt hv ds).bind fun _ => rfl

end

/-- Proxies are objects of the script and have an identity. -/
theorem Store.isSome_identity?_of_unwrap? (hv : s.unwrap? v = some n) : v.identity?.isSome = true := by
  obtain ⟨r, p, rfl, -, -⟩ := exists_proxy_of_unwrap? hv
  rfl

/-- A value without a rank is described, and refused. -/
theorem outcome_convertBy_unranked {d : Descriptor} {target : Target} (htarget : s.types.targetOf d = .ok target)
    {rank : Rank} (hrank : (rankTarget v target).outcome s = (.ok rank, s₁)) (hnone : rank.isNone = true)
    (parts : PartConverters) : (convertBy d parts v).outcome s = (cannotConvert v d : Eval Native).outcome s₁ := by
  rw [convertBy, Eval.outcome_get_bind, htarget, Eval.outcome_bind_of_ok (Eval.outcome_ofResult _ _),
    Eval.outcome_bind_of_ok hrank]
  dsimp only
  rw [hnone, if_pos rfl]

/-- Once an object or function has been ranked, a proxy is converted by what it wraps, and anything else by what it
is. -/
theorem outcome_convertBy (hidentity : v.identity?.isSome = true) {d : Descriptor} {target : Target}
    (htarget : s.types.targetOf d = .ok target) (hany : target ≠ .any) {rank : Rank}
    (hrank : (rankTarget v target).outcome s = (.ok rank, s₁)) (hsome : rank.isNone = false) (parts : PartConverters) :
    (convertBy d parts v).outcome s =
      (match s.unwrap? v with
      | some native => convertWrapped v native rank target parts (cannotConvert v d)
      | none => convertGeneric v target parts (cannotConvert v d)).outcome s₁ := by
  rw [convertBy, Eval.outcome_get_bind, htarget, Eval.outcome_bind_of_ok (Eval.outcome_ofResult _ _),
    Eval.outcome_bind_of_ok hrank]
  dsimp only
  rw [hsome, if_neg Bool.false_ne_true]
  split
  · exact absurd rfl hany
  · cases v with
    | object r => rfl
    | callable r => rfl
    | _ => cases hidentity

/-- Booleans, numbers and strings are ranked by one table and converted by another. -/
inductive ByTables : Script → (Target → Rank) → (Target → Eval Native → Eval Native) → Prop where
  | boolean (b : Bool) : ByTables (.boolean b) rankBoolean (convertBoolean b)
  | number (x : Double) : ByTables (.number x) rankNumber (convertNumber x)
  | string (text : String) : ByTables (.string text) rankString (convertString text)

/-- Where the first table has a rank the second one decides. -/
theorem ByTables.outcome_convert {ranks : Target → Rank} {converts : Target → Eval Native → Eval Native}
    (h : ByTables v ranks converts) {d : Descriptor} {target : Target} (htarget : s.types.targetOf d = .ok target)
    (hsome : (ranks target).isNone = false) :
    (convert d v).outcome s = (converts target (cannotConvert v d)).outcome s := by
  have hunion : ∀ members, d = .union members → False := by
    rintro members rfl
    cases htarget
    cases h <;> cases hsome
  have hany : target ≠ .any := by
    rintro rfl
    cases h <;> cases hsome
  have hrank : (rankTarget v target).outcome s = (.ok (ranks target), s) := by
    unfold rankTarget
    rw [Eval.outcome_get_bind]
    split
    · exact absurd rfl hany
    · cases h <;> rfl
  -- with a rank the test on it passes, and the table is what is left
  obtain ⟨parts, hconvert⟩ := exists_convertBy hunion v
  rw [hconvert, convertBy, Eval.outcome_get_bind, htarget, Eval.outcome_bind_of_ok (Eval.outcome_ofResult _ _),
    Eval.outcome_bind_of_ok hrank]
  dsimp only
  rw [hsome, if_neg Bool.false_ne_true]
  split
  · exact absurd rfl hany
  · cases h <;> rfl

/-- Types other than unions: the rank that says that a proxy wraps an instance lets the value through. -/
theorem convert_of_nontrivial_target (hv : s.unwrap? v = some n) {d : Descriptor}
    (hd : ∀ members, d = .union members → False) (h : (rankOf v d).outcome s = (.ok .nontrivial, s)) :
    (convert d v).outcome s = (.ok n, s) := by
  obtain ⟨target, htarget, hrank⟩ := exists_target_of_rankOf hd h
  obtain ⟨parts, hconvert⟩ := exists_convertBy hd v
  have hany : target ≠ .any := by
    rintro rfl
    cases hrank
  rw [hconvert, outcome_convertBy (Store.isSome_identity?_of_unwrap? hv) htarget hany hrank rfl parts, hv]
  rfl

/-- In a union with such a rank, a member with such a rank is chosen. -/
theorem exists_chosen_of_nontrivial (hv : s.unwrap? v = some n) {members : List Descriptor}
    (h : (bestRank v members).outcome s = (.ok .nontrivial, s)) :
    ∃ ranks i d, (members.mapM (rankOf v)).outcome s = (.ok ranks, s) ∧ firstBest 0 ranks = some (i, .nontrivial) ∧
      members[i]? = some d ∧ (rankOf v d).outcome s = (.ok .nontrivial, s) := by
  rw [bestRank_eq] at h
  obtain ⟨_, _, hstop⟩ | ⟨ranks, s₁, hranks, hbest⟩ := Eval.outcome_bind_cases h
  · cases hstop
  obtain ⟨rfl, hplaces⟩ := Eval.getElem?_of_mapM (fun d _ => rankOf_staysAt hv d) hranks
  have hmem : Rank.nontrivial ∈ ranks := by
    rw [Eval.outcome_pure] at hbest
    exact Rank.mem_of_foldr_best (Except.ok.inj (Prod.mk.inj hbest).1) nofun
  cases hchosen : firstBest 0 ranks with
  | none =>
    rw [eq_nil_of_firstBest hchosen] at hmem
    cases hmem
  | some chosen =>
    obtain ⟨j, rank⟩ := chosen
    obtain ⟨i, hj, hget, hleast⟩ := firstBest_spec hchosen
    obtain rfl : j = i := hj.trans (Nat.zero_add i)
    obtain rfl := Rank.eq_nontrivial_of_value_le (hleast _ hmem)
    obtain ⟨d, hd, hrank⟩ := hplaces j _ hget
    exact ⟨ranks, j, d, hranks, hchosen, hd, hrank⟩

mutual

/-- **A proxy of an instance becomes what it wraps**, through unions of any depth. -/
theorem convert_of_nontrivial (hv : s.unwrap? v = some n) : (d : Descriptor) →
    (rankOf v d).outcome s = (.ok .nontrivial, s) → (convert d v).outcome s = (.ok n, s)
  | .union members, h => by
    rw [rankOf] at h
    obtain ⟨ranks, i, d, hranks, hchosen, hd, hrank⟩ := exists_chosen_of_nontrivial hv h
    rw [convert, Eval.outcome_bind_of_ok h, if_neg (by decide), Eval.outcome_bind_of_ok hranks, hchosen]
    exact convertAt_of_nontrivial hv members i d hd hrank
  | .unspecified, h | .plain _, h | .array _, h | .parameterized _ _, h | .enumeration _, h | .interface _ _, h
  | .typeVar _ _, h | .stringLiteral _, h | .numberLiteral _, h | .booleanLiteral _, h | .objectShape _, h
  | .functionShape _ _, h => convert_of_nontrivial_target hv (by simp) h

/-- A union takes a proxy as the native that it wraps where one member does. -/
theorem convertAt_of_nontrivial (hv : s.unwrap? v = some n) : (members : List Descriptor) → ∀ i d,
    members[i]? = some d → (rankOf v d).outcome s = (.ok .nontrivial, s) →
      (convertAt members i v).outcome s = (.ok n, s)
  | [], _, _, hd, _ => by cases hd
  | member :: _, 0, d, hd, h => by
    obtain rfl : member = d := Option.some.inj hd
    rw [convertAt]
    exact convert_of_nontrivial hv member h
  | _ :: members, i + 1, d, hd, h => by
    rw [convertAt]
    exact convertAt_of_nontrivial hv members i d hd h

end

/-! ## Values that are no proxies -/

/-- A script object or function that is no proxy is ranked as what it is. -/
theorem rankTarget_of_generic (hidentity : v.identity?.isSome = true) (hv : s.unwrap? v = none) {target : Target}
    (hany : target ≠ .any) : (rankTarget v target).outcome s = (rankScript (s.kindOf v) target).outcome s := by
  unfold rankTarget
  rw [Eval.outcome_get_bind]
  split
  · exact absurd rfl hany
  · cases v with
    | callable r => rfl
    | object r =>
      rw [Store.unwrap?] at hv
      rw [Store.kindOf]
      cases hobject : s.object r with
      | proxy p => rw [hobject] at hv; cases hv
      | plain properties => rfl
      | array elements => rfl
    | _ => cases hidentity

/-- The tables of ranks do not say of any value that it is an instance. -/
theorem rankTables_pos (target : Target) : 0 < (rankBoolean target).value ∧ 0 < (rankNumber target).value ∧
    0 < (rankString target).value ∧ 0 < (rankClass target).value ∧ 0 < (rankGeneric target).value := by
  cases target with
  | numeric kind => cases kind <;> decide
  | _ => exact ⟨Nat.succ_pos _, Nat.succ_pos _, Nat.succ_pos _, Nat.succ_pos _, Nat.succ_pos _⟩

/-- No script value has the rank of a perfect fit: only proxies do. -/
theorem givesAt_rankScript_pos (kind : ValueKind) (target : Target) :
    (rankScript kind target).GivesAt s fun rank _ => 0 < rank.value := by
  have himplements : ∀ d isFunction, (do pure (if ← canImplement d isFunction then .exact else .none) :
      Eval Rank).GivesAt s fun rank _ => 0 < rank.value := by
    intro d isFunction
    refine Eval.GivesAt.bind_any fun able s₁ => Eval.GivesAt.pure ?_
    cases able <;> exact Nat.succ_pos _
  rw [rankScript.eq_def]
  split
  case h_6 d => exact himplements d true
  case h_7 d => exact himplements d false
  case h_8 => exact Eval.GivesAt.pure (rankTables_pos target).2.2.2.2
  all_goals exact Eval.GivesAt.pure (Nat.succ_pos _)

/-- Only a proxy is ranked as an instance. -/
theorem givesAt_rankTarget_pos (hv : s.unwrap? v = none) (target : Target) :
    (rankTarget v target).GivesAt s fun rank _ => 0 < rank.value := by
  obtain ⟨hboolean, hnumber, hstring, hclass, -⟩ := rankTables_pos target
  unfold rankTarget
  refine Eval.GivesAt.read ?_
  rw [hv]
  split
  · exact Eval.GivesAt.pure (Nat.succ_pos _)
  · split
    · split <;> exact Eval.GivesAt.pure (Nat.succ_pos _)
    · refine Eval.GivesAt.pure ?_
      split <;> exact Nat.succ_pos _
    · exact Eval.GivesAt.pure hboolean
    · exact Eval.GivesAt.pure hnumber
    · exact Eval.GivesAt.pure hstring
    · exact Eval.GivesAt.pure hclass
    · exact Eval.GivesAt.pure (Nat.succ_pos _)
    · exact Eval.GivesAt.pure (Nat.succ_pos _)
    · exact givesAt_rankScript_pos _ target

mutual

theorem givesAt_rankOf_pos : (d : Descriptor) → ∀ {s : Store}, s.unwrap? v = none →
    (rankOf v d).GivesAt s fun rank _ => 0 < rank.value
  | .union members, _, hv => by
    rw [rankOf]
    exact givesAt_bestRank_pos members hv
  | .unspecified, _, hv | .plain _, _, hv | .array _, _, hv | .parameterized _ _, _, hv | .enumeration _, _, hv
  | .interface _ _, _, hv | .typeVar _ _, _, hv | .stringLiteral _, _, hv | .numberLiteral _, _, hv
  | .booleanLiteral _, _, hv | .objectShape _, _, hv | .functionShape _ _, _, hv => by
    intro rank s₁ h
    obtain ⟨target, -, hrank⟩ := exists_target_of_rankOf (by simp) h
    exact givesAt_rankTarget_pos hv target rank s₁ hrank

theorem givesAt_bestRank_pos : (members : List Descriptor) → ∀ {s : Store}, s.unwrap? v = none →
    (bestRank v members).GivesAt s fun rank _ => 0 < rank.value
  | [], _, _ => by
    rw [bestRank]
    exact Eval.GivesAt.pure (Nat.succ_pos _)
  | d :: ds, s, hv => by
    rw [bestRank]
    -- ranking one member does not make a proxy of the value
    have hfirst : (rankOf v d).GivesAt s fun first s₁ => 0 < first.value ∧ s₁.unwrap? v = none := by
      intro first s₁ h
      refine ⟨givesAt_rankOf_pos d hv first s₁ h, ?_⟩
      rw [((rankOf_repeatable v d).settles h).unwrap?_eq, hv]
    refine hfirst.bind fun first s₁ ⟨hpos, hv₁⟩ => ?_
    refine (givesAt_bestRank_pos ds hv₁).bind fun others s₂ hothers => Eval.GivesAt.pure ?_
    rcases Rank.best_cases first others with heq | heq <;> rw [heq]
    · exact hpos
    · exact hothers

end

/-- **A value that is ranked as an instance is a proxy, and becomes what it wraps.** -/
theorem convert_of_instance {d : Descriptor} (h : (rankOf v d).outcome s = (.ok .nontrivial, s₁)) :
    s₁ = s ∧ ∃ n, s.unwrap? v = some n ∧ (convert d v).outcome s = (.ok n, s) := by
  cases hv : s.unwrap? v with
  | none => exact absurd (givesAt_rankOf_pos d hv _ s₁ h) (Nat.lt_irrefl 0)
  | some n =>
    obtain rfl : s₁ = s := by
      have hstays := rankOf_staysAt hv d
      rwa [Eval.StaysAt, h] at hstays
    exact ⟨rfl, n, rfl, convert_of_nontrivial hv d h⟩

end Interop
