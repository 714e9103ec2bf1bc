import Interop.Proofs.Coercion.Agreement

/-!
# Unions

A union hands a value to one of its members: the first one of those with the best rank. Ranks see kinds and classes,
conversions also content, so among members with the same rank one may refuse what another takes; the union then answers
as the one that comes first.

* **`givesAt_rankOf_le`**: no rank is worse than having none, so a union has a rank where one of its members has.
* **`Store.BestMember`**, **`Store.FirstBest`**: the members that no other is ranked better than, and the first of them.
* **`outcome_convert_union`**: a union does what its first best member does, once all members are ranked.
* **`convert_union_acceptsBest`**: a union takes what one of its best members takes exactly if the first of these does.
-/

namespace Interop

variable {s s₁ : Store} {v : Script} {members : List Descriptor} {d : Descriptor}

/-! ## No rank is worse than none -/

theorem rankTables_le (target : Target) : (rankBoolean target).value ≤ Rank.none.value ∧
    (rankNumber target).value ≤ Rank.none.value ∧ (rankString target).value ≤ Rank.none.value ∧
    (rankClass target).value ≤ Rank.none.value ∧ (rankGeneric target).value ≤ Rank.none.value := by
  cases target with
  | numeric kind => cases kind <;> decide
  | _ => simp only [rankBoolean, rankNumber, rankString, rankClass, rankGeneric]; decide

theorem Store.rankWrapped_le (s : Store) (n : Native) (isArray : Bool) (target : Target) :
    (s.rankWrapped n isArray target).value ≤ Rank.none.value := by
  rw [rankWrapped.eq_def]
  split
  · decide
  · split
    · decide
    · next kind _ => cases kind <;> cases isArray <;> decide
    · split
      · split <;> decide
      · decide
    · decide

theorem givesAt_rankScript_le (kind : ValueKind) (target : Target) :
    (rankScript kind target).GivesAt s fun rank _ => rank.value ≤ Rank.none.value := by
  have himplements : ∀ d isFunction, (do pure (if ← canImplement d isFunction then .exact else .none) :
      Eval Rank).GivesAt s fun rank _ => rank.value ≤ Rank.none.value := by
    intro d isFunction
    refine Eval.GivesAt.bind_any fun able s₁ => Eval.GivesAt.pure ?_
    cases able <;> decide
  rw [rankScript.eq_def]
  split
  case h_6 d => exact himplements d true
  case h_7 d => exact himplements d false
  case h_8 => exact Eval.GivesAt.pure (rankTables_le target).2.2.2.2
  all_goals exact Eval.GivesAt.pure (by decide)

theorem givesAt_rankTarget_le (v : Script) (target : Target) :
    (rankTarget v target).GivesAt s fun rank _ => rank.value ≤ Rank.none.value := by
  obtain ⟨hboolean, hnumber, hstring, hclass, -⟩ := rankTables_le target
  have hwrapped : ∀ isArray, (((s.unwrap? v).map fun n => s.rankWrapped n isArray target).getD .none).value
      ≤ Rank.none.value := by
    intro isArray
    cases s.unwrap? v with
    | none => exact Nat.le_refl _
    | some n => exact s.rankWrapped_le n isArray target
  unfold rankTarget
  refine Eval.GivesAt.read ?_
  split
  · exact Eval.GivesAt.pure (by decide)
  · split
    · split <;> exact Eval.GivesAt.pure (by decide)
    · refine Eval.GivesAt.pure ?_
      split <;> decide
    · exact Eval.GivesAt.pure hboolean
    · exact Eval.GivesAt.pure hnumber
    · exact Eval.GivesAt.pure hstring
    · exact Eval.GivesAt.pure hclass
    · exact Eval.GivesAt.pure (hwrapped false)
    · exact Eval.GivesAt.pure (hwrapped true)
    · exact givesAt_rankScript_le _ target

mutual

/-- **No rank is worse than none.** -/
theorem givesAt_rankOf_le (v : Script) : (d : Descriptor) → ∀ {s : Store},
    (rankOf v d).GivesAt s fun rank _ => rank.value ≤ Rank.none.value
  | .union members, _ => by
    rw [rankOf]
    exact givesAt_bestRank_le v members
  | .unspecified, _ | .plain _, _ | .array _, _ | .parameterized _ _, _ | .enumeration _, _ | .interface _ _, _
  | .typeVar _ _, _ | .stringLiteral _, _ | .numberLiteral _, _ | .booleanLiteral _, _ | .objectShape _, _
  | .functionShape _ _, _ => by
    rw [rankOf_eq (by simp)]
    exact Eval.GivesAt.read (Eval.GivesAt.bind_any fun target _ => givesAt_rankTarget_le v target)

theorem givesAt_bestRank_le (v : Script) : (members : List Descriptor) → ∀ {s : Store},
    (bestRank v members).GivesAt s fun rank _ => rank.value ≤ Rank.none.value
  | [], _ => by
    rw [bestRank]
    exact Eval.GivesAt.pure (Nat.le_refl _)
  | d :: ds, _ => by
    rw [bestRank]
    refine (givesAt_rankOf_le v d).bind fun first s₁ hfirst => ?_
    refine (givesAt_bestRank_le v ds).bind fun others s₂ hothers => Eval.GivesAt.pure ?_
    rcases Rank.best_cases first others with heq | heq <;> rw [heq]
    · exact hfirst
    · exact hothers

end

/-- The best of some ranks is at least as good as each. -/
theorem Rank.value_foldr_best_le {ranks : List Rank} {rank : Rank} (h : rank ∈ ranks) :
    (ranks.foldr Rank.best .none).value ≤ rank.value := by
  induction ranks with
  | nil => cases h
  | cons first rest ih =>
    rw [List.foldr_cons, Rank.best]
    rcases List.mem_cons.mp h with rfl | hrest
    · split <;> omega
    · have := ih hrest
      split <;> omega

/-! ## Ranked members -/

/-- Once all members have been ranked, their ranks are their grades, and ranking them again changes nothing. -/
theorem outcome_rankOf_of_mapM {ranks : List Rank} (hranks : (members.mapM (rankOf v)).outcome s = (.ok ranks, s₁)) :
    ranks = members.map (s₁.grade v) ∧ ∀ d ∈ members, (rankOf v d).outcome s₁ = (.ok (s₁.grade v d), s₁) := by
  induction members generalizing s ranks with
  | nil =>
    rw [List.mapM_nil] at hranks
    cases hranks
    exact ⟨rfl, nofun⟩
  | cons d ds ih =>
    rw [List.mapM_cons] at hranks
    obtain ⟨_, _, hstop⟩ | ⟨first, s₂, hfirst, hafter⟩ := Eval.outcome_bind_cases hranks
    · cases hstop
    obtain ⟨_, _, hstop⟩ | ⟨rest, s₃, hrest, hlast⟩ := Eval.outcome_bind_cases hafter
    · cases hstop
    cases hlast
    obtain ⟨rfl, hall⟩ := ih hrest
    -- what the other members look up leaves the rank of the first one as it is
    have hagain : (rankOf v d).outcome s₁ = (.ok first, s₁) :=
      (rankOf_repeatable v d).repeats hfirst ((Eval.Repeatable.mapM (rankOf_repeatable v) ds).settles hrest)
    obtain rfl := Store.grade_of_outcome hagain
    exact ⟨rfl, List.forall_mem_cons.mpr ⟨hagain, hall⟩⟩

/-- A member that no other member is ranked better than. -/
def Store.BestMember (s : Store) (v : Script) (members : List Descriptor) (d : Descriptor) : Prop :=
  d ∈ members ∧ ∀ e ∈ members, (s.grade v d).value ≤ (s.grade v e).value

/-- The first one of these: the members before it are ranked worse, and the ones after it no better. -/
def Store.FirstBest (s : Store) (v : Script) (members : List Descriptor) (d : Descriptor) : Prop :=
  ∃ before after, members = before ++ d :: after ∧ (∀ e ∈ before, (s.grade v d).value < (s.grade v e).value) ∧
    ∀ e ∈ after, (s.grade v d).value ≤ (s.grade v e).value

theorem Store.FirstBest.bestMember (h : s.FirstBest v members d) : s.BestMember v members d := by
  obtain ⟨before, after, rfl, hbefore, hafter⟩ := h
  refine ⟨List.mem_append_right _ List.mem_cons_self, List.forall_mem_append.mpr ⟨?_, ?_⟩⟩
  · exact fun e he => Nat.le_of_lt (hbefore e he)
  · exact List.forall_mem_cons.mpr ⟨Nat.le_refl _, hafter⟩

/-- A union that is not empty has a first best member. -/
theorem Store.exists_firstBest (s : Store) (v : Script) {members : List Descriptor} (h : members ≠ []) :
    ∃ d, s.FirstBest v members d := by
  induction members with
  | nil => exact absurd rfl h
  | cons first rest ih =>
    by_cases hrest : rest = []
    · exact ⟨first, [], [], by rw [hrest]; rfl, nofun, nofun⟩
    · obtain ⟨d, hd⟩ := ih hrest
      by_cases hle : (s.grade v first).value ≤ (s.grade v d).value
      · exact ⟨first, [], rest, rfl, nofun, fun e he => Nat.le_trans hle (hd.bestMember.2 e he)⟩
      · obtain ⟨before, after, rfl, hbefore, hafter⟩ := hd
        exact ⟨d, first :: before, after, rfl, List.forall_mem_cons.mpr ⟨Nat.lt_of_not_le hle, hbefore⟩, hafter⟩

/-! ## The member that is chosen -/

/-- The place that is chosen among ranks: the ones before it are worse, and the ones after it no better. -/
theorem firstBest_append {rank : Rank} {before after : List Rank} (hbefore : ∀ r ∈ before, rank.value < r.value)
    (hafter : ∀ r ∈ after, rank.value ≤ r.value) (place : Nat) :
    firstBest place (before ++ rank :: after) = some (place + before.length, rank) := by
  induction before generalizing place with
  | nil =>
    rw [List.nil_append, firstBest]
    split
    · rfl
    · next j r hrest =>
      obtain ⟨i, -, hget, -⟩ := firstBest_spec hrest
      rw [if_pos (hafter r (List.mem_of_getElem? hget))]
      rfl
  | cons first before ih =>
    obtain ⟨hfirst, hothers⟩ := List.forall_mem_cons.mp hbefore
    rw [List.cons_append, firstBest, ih hothers]
    dsimp only
    rw [if_neg (Nat.not_le_of_lt hfirst), List.length_cons]
    congr 2
    omega

/-- Conversion to the member at a position is conversion to it. -/
theorem convertAt_append (before : List Descriptor) (d : Descriptor) (after : List Descriptor) (v : Script) :
    convertAt (before ++ d :: after) before.length v = convert d v := by
  induction before with
  | nil => rw [List.nil_append, List.length_nil, convertAt]
  | cons first before ih => rw [List.cons_append, List.length_cons, convertAt, ih]

/-- A member without a rank takes nothing. -/
theorem grade_ne_none_of_succeedsAt (hrank : (rankOf v d).outcome s = (.ok (s.grade v d), s))
    (h : (convert d v).SucceedsAt s) : s.grade v d ≠ .none := by
  intro hnone
  rw [hnone] at hrank
  obtain ⟨n, s', hok⟩ := h
  rw [outcome_convert_of_unranked hrank] at hok
  exact givesAt_cannotConvert (P := fun _ _ => False) n s' hok

/-- **A union does what its first best member does**, in the store that ranking all members leaves. -/
theorem outcome_convert_union {ranks : List Rank} (hranks : (members.mapM (rankOf v)).outcome s = (.ok ranks, s₁))
    (hfirst : s₁.FirstBest v members d) (hsome : s₁.grade v d ≠ .none) :
    (convert (.union members) v).outcome s = (convert d v).outcome s₁ := by
  obtain ⟨rfl, hgrades⟩ := outcome_rankOf_of_mapM hranks
  have hmem := hfirst.bestMember.1
  have hbest : (bestRank v members).outcome s = (.ok ((members.map (s₁.grade v)).foldr Rank.best .none), s₁) := by
    rw [bestRank_eq, Eval.outcome_bind_of_ok hranks, Eval.outcome_pure]
  have hranked : ((members.map (s₁.grade v)).foldr Rank.best .none).isNone = false := by
    rw [Rank.isNone, beq_eq_false_iff_ne]
    intro hnone
    -- the rank of the union is no worse than the rank of the member, which is not worse than none either
    have hle := Rank.value_foldr_best_le (List.mem_map_of_mem (f := s₁.grade v) hmem)
    rw [hnone] at hle
    have hge := givesAt_rankOf_le v d _ _ (hgrades d hmem)
    exact hsome (congrArg Rank.mk (Nat.le_antisymm hge hle))
  have hagain : (members.mapM (rankOf v)).outcome s₁ = (.ok (members.map (s₁.grade v)), s₁) :=
    (Eval.Repeatable.mapM (rankOf_repeatable v) members).repeats hranks (.refl s₁)
  rw [convert, Eval.outcome_bind_of_ok hbest, hranked, if_neg Bool.false_ne_true, Eval.outcome_bind_of_ok hagain]
  obtain ⟨before, after, rfl, hbefore, hafter⟩ := hfirst
  have hchosen : firstBest 0 ((before ++ d :: after).map (s₁.grade v)) = some (before.length, s₁.grade v d) := by
    rw [List.map_append, List.map_cons, firstBest_append (List.forall_mem_map.mpr hbefore)
      (List.forall_mem_map.mpr hafter), Nat.zero_add, List.length_map]
  rw [hchosen]
  dsimp only
  rw [convertAt_append]

/-- **A union takes what one of its best members takes exactly if the first of these does.** For every value and every
union whose members can all be ranked, and where some best member takes the value: the union does what its first best
member does, failure or success; so it takes the value, with what a best member makes of it, exactly if the first best
member takes it. -/
theorem convert_union_acceptsBest {ranks : List Rank} (hranks : (members.mapM (rankOf v)).outcome s = (.ok ranks, s₁))
    (haccepts : ∃ d, s₁.BestMember v members d ∧ (convert d v).SucceedsAt s₁) :
    (∀ d, s₁.FirstBest v members d → (convert (.union members) v).outcome s = (convert d v).outcome s₁) ∧
      ((∃ d n s₂, s₁.BestMember v members d ∧ (convert d v).outcome s₁ = (.ok n, s₂) ∧
          (convert (.union members) v).outcome s = (.ok n, s₂)) ↔
        ∃ d, s₁.FirstBest v members d ∧ (convert d v).SucceedsAt s₁) := by
  obtain ⟨best, hbest, htakes⟩ := haccepts
  have hgrade := grade_ne_none_of_succeedsAt ((outcome_rankOf_of_mapM hranks).2 best hbest.1) htakes
  have hunion : ∀ d, s₁.FirstBest v members d →
      (convert (.union members) v).outcome s = (convert d v).outcome s₁ := by
    intro d hd
    refine outcome_convert_union hranks hd fun hnone => hgrade ?_
    -- all best members have one rank
    rw [← hnone]
    exact congrArg Rank.mk (Nat.le_antisymm (hbest.2 d hd.bestMember.1) (hd.bestMember.2 best hbest.1))
  refine ⟨hunion, ?_, ?_⟩
  · rintro ⟨_, n, s₂, -, -, hok⟩
    obtain ⟨d, hd⟩ := s₁.exists_firstBest v (List.ne_nil_of_mem hbest.1)
    exact ⟨d, hd, n, s₂, (hunion d hd).symm.trans hok⟩
  · rintro ⟨d, hd, n, s₂, hok⟩
    exact ⟨d, n, s₂, hd.bestMember, hok, (hunion d hd).trans hok⟩

/-- Of two literals with the same rank the first one is asked. It refuses the text of the second one, and with it the
union does, although the second one takes the text; the other way round the union takes it too. -/
theorem convert_union_acceptsBest_literals :
    ((Store.standard {} false).BestMember (.string "b") [.stringLiteral "a", .stringLiteral "b"] (.stringLiteral "b") ∧
      (convert (.stringLiteral "b") (.string "b")).SucceedsAt (.standard {} false)) ∧
    ¬ (convert (.union [.stringLiteral "a", .stringLiteral "b"]) (.string "b")).SucceedsAt (.standard {} false) ∧
    (convert (.union [.stringLiteral "b", .stringLiteral "a"]) (.string "b")).SucceedsAt (.standard {} false) := by
  have hgrade : ∀ text, (Store.standard {} false).grade (.string "b") (.stringLiteral text) = .exact := fun _ => rfl
  have htakes : (convert (.stringLiteral "b") (.string "b")).SucceedsAt (.standard {} false) := ⟨_, _, rfl⟩
  have hrefuses : ¬ (convert (.stringLiteral "a") (.string "b")).SucceedsAt (.standard {} false) :=
    fun ⟨_, _, hok⟩ => nomatch hok
  have hab : (Store.standard {} false).BestMember (.string "b") [.stringLiteral "a", .stringLiteral "b"]
      (.stringLiteral "b") := ⟨by simp, by simp [hgrade]⟩
  have hba : (Store.standard {} false).BestMember (.string "b") [.stringLiteral "b", .stringLiteral "a"]
      (.stringLiteral "b") := ⟨by simp, by simp [hgrade]⟩
  refine ⟨⟨hab, htakes⟩, ?_, ?_⟩
  · obtain ⟨hfirst, -⟩ := convert_union_acceptsBest (s := .standard {} false) rfl ⟨_, hab, htakes⟩
    rw [Eval.SucceedsAt, hfirst (.stringLiteral "a") ⟨[], _, rfl, List.forall_mem_nil _, by simp [hgrade]⟩]
    exact hrefuses
  · obtain ⟨-, htaken⟩ := convert_union_acceptsBest (s := .standard {} false) rfl ⟨_, hba, htakes⟩
    obtain ⟨d, n, s₂, -, -, hok⟩ :=
      htaken.mpr ⟨.stringLiteral "b", ⟨[], _, rfl, List.forall_mem_nil _, by simp [hgrade]⟩, htakes⟩
    exact ⟨n, s₂, hok⟩

end Interop
