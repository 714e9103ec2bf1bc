import Interop.Dispatch.Ranking
import Interop.Proofs.TypeTable.Assignability

/-!
# The best candidates cover all others

Candidates are folded into the best ones, and a newcomer is compared with the current best ones only. That loses
nothing because being nowhere better is transitive:

* **`Covers`**: one candidate covers another if the other is nowhere better. Position by position this is a choice
  between the same parameter type, a lower rank, and a parameter type that is at least as specific.
* **`RankedBy`**: the ranks of a candidate are those of its parameter types, under one grading for each argument.
  Without it transitivity fails, since a position with the same parameter types says nothing about ranks.
* **`covers_trans`**: from transitivity of assignability.
* **`takeIn_cases`**: everything that taking in a newcomer can do.
* **`bestCandidates_covered`**: every candidate is covered by one of the best ones, by induction on the fold.
* **`bestCandidates_champion`**: a candidate that is preferred to all others is the only best one.
-/

namespace Interop

namespace Preference

@[simp] theorem both_first (a b : Preference) : (a.both b).first = (a.first || b.first) := rfl

@[simp] theorem both_second (a b : Preference) : (a.both b).second = (a.second || b.second) := rfl

/-- The second is better, or nothing tells the two apart, exactly when the first is nowhere better. -/
theorem first_eq_false_iff {p : Preference} : p.first = false ↔ p = .toSecond ∨ p = .equal := by
  obtain ⟨first, second⟩ := p
  cases first <;> cases second <;> simp [toSecond, equal]

/-- A preference for the first is one that the second has no part in. -/
theorem eq_toFirst_iff {p : Preference} : p = .toFirst ↔ p.first = true ∧ p.second = false := by
  obtain ⟨first, second⟩ := p
  simp [toFirst]

theorem eq_toSecond_iff {p : Preference} : p = .toSecond ↔ p.first = false ∧ p.second = true := by
  obtain ⟨first, second⟩ := p
  simp [toSecond]

end Preference

namespace TypeTable

/-! ## One position -/

/-- At one position the first candidate is nowhere better than the second: they have the same parameter type, or the
second has the lower rank, or both are instances and the second parameter type is at least as specific. -/
theorem preferAt_first_eq_false_iff (t : TypeTable) (d₁ d₂ : Descriptor) (r₁ r₂ : Rank) :
    (t.preferAt d₁ d₂ r₁ r₂).first = false ↔
      d₁.canonical = d₂.canonical ∨ r₂.value < r₁.value ∨
        (r₁ = .nontrivial ∧ r₂ = .nontrivial ∧ t.isAssignable d₁ d₂ = true) := by
  rw [preferAt]
  by_cases hsame : (d₁ == d₂) = true
  · simp [hsame, Preference.equal, Descriptor.beq_iff.mp hsame]
  have hne : ¬ d₁.canonical = d₂.canonical := fun h => hsame (Descriptor.beq_iff.mpr h)
  rw [if_neg hsame]
  by_cases hlt : r₁.value < r₂.value
  · -- the first rank is lower, so neither of the last two can hold
    have hzero : r₁ = .nontrivial → r₂ ≠ .nontrivial := by
      rintro rfl rfl
      exact absurd hlt (Nat.lt_irrefl _)
    simp only [hlt, if_true, Preference.toFirst, hne, false_or]
    have : ¬ r₂.value < r₁.value := by omega
    simp only [this, false_or]
    tauto
  rw [if_neg hlt]
  by_cases hgt : r₂.value < r₁.value
  · simp [hgt, Preference.toSecond]
  rw [if_neg hgt]
  have heq : r₁ = r₂ := by
    cases r₁; cases r₂; simp only [Rank.mk.injEq] at *; omega
  subst heq
  -- equal ranks: only among perfect fits do the types decide
  by_cases hzero : r₁ = .nontrivial
  · rw [if_pos hzero]
    by_cases hup : t.isAssignable d₁ d₂ = true
    · simp [hup, Preference.toSecond, hzero]
    · rw [if_neg hup]
      split <;> simp_all [Preference.toFirst, Preference.undecided]
  · simp [hzero, hne, Preference.undecided]

/-- A position at which the second candidate is nowhere better says the opposite when the two change places. -/
theorem preferAt_swap {t : TypeTable} {d₁ d₂ : Descriptor} {r₁ r₂ : Rank}
    (h : (t.preferAt d₁ d₂ r₁ r₂).second = false) :
    (t.preferAt d₂ d₁ r₂ r₁).first = false ∧
      (t.preferAt d₂ d₁ r₂ r₁).second = (t.preferAt d₁ d₂ r₁ r₂).first := by
  rw [preferAt] at h ⊢
  rw [preferAt, Descriptor.beq_comm d₂ d₁]
  by_cases hsame : (d₁ == d₂) = true
  · simp [hsame, Preference.equal]
  rw [if_neg hsame] at h ⊢
  rw [if_neg hsame]
  by_cases hlt : r₁.value < r₂.value
  · have hgt : ¬ r₂.value < r₁.value := by omega
    simp [hlt, hgt, Preference.toFirst, Preference.toSecond]
  rw [if_neg hlt] at h ⊢
  by_cases hgt : r₂.value < r₁.value
  · simp [hgt, Preference.toSecond] at h
  rw [if_neg hgt] at h ⊢
  rw [if_neg hlt]
  have heq : r₁ = r₂ := by
    cases r₁; cases r₂; simp only [Rank.mk.injEq] at *; omega
  subst heq
  -- equal ranks are told apart among instances only, by the more specific type
  by_cases hzero : r₁ = .nontrivial
  · rw [if_pos hzero] at h ⊢
    rw [if_pos hzero]
    by_cases hup : t.isAssignable d₁ d₂ = true
    · simp [hup, Preference.toSecond] at h
    · rw [if_neg hup] at h ⊢
      by_cases hdown : t.isAssignable d₂ d₁ = true
      · simp [hup, hdown, Preference.toFirst, Preference.toSecond]
      · simp [hdown, Preference.undecided] at h
  · simp [hzero, Preference.undecided] at h

/-! ## All positions

The ranks of a candidate are those of its parameter types under one grading for each argument, and a grading does not
tell types apart that are the same. -/

/-- Gradings that give descriptors that are the same one rank. -/
def Lawful (grades : List (Descriptor → Rank)) : Prop :=
  ∀ grade ∈ grades, ∀ d d' : Descriptor, d.canonical = d'.canonical → grade d = grade d'

/-- The ranks of parameter types, one grading for each. -/
def gradesOf (grades : List (Descriptor → Rank)) (params : List Descriptor) : List Rank :=
  List.zipWith (fun grade d => grade d) grades params

/-- The candidate has one parameter type for each argument, with its rank. -/
structure RankedBy (grades : List (Descriptor → Rank)) (w : RankedCandidate) : Prop where
  length : w.params.length = grades.length
  ranks : w.ranks = gradesOf grades w.params

/-- The other candidate is nowhere better. -/
def Covers (t : TypeTable) (a b : RankedCandidate) : Prop := (t.prefer b a).first = false

/-- Being nowhere better is transitive at one position. -/
theorem preferAt_first_trans {t : TypeTable} (hroot : t.parents Standard.object = []) {grade : Descriptor → Rank}
    (hgrade : ∀ d d' : Descriptor, d.canonical = d'.canonical → grade d = grade d') {a b c : Descriptor}
    (hba : (t.preferAt b a (grade b) (grade a)).first = false)
    (hcb : (t.preferAt c b (grade c) (grade b)).first = false) :
    (t.preferAt c a (grade c) (grade a)).first = false := by
  rw [preferAt_first_eq_false_iff] at hba hcb ⊢
  rcases hba with hsame | hlt | ⟨hb, ha, hup⟩
  · rw [hgrade _ _ hsame, hsame, isAssignable_congr t rfl hsame] at hcb
    exact hcb
  · rcases hcb with hsame | hlt' | ⟨hc, hb, -⟩
    · exact .inr (.inl (hgrade _ _ hsame ▸ hlt))
    · exact .inr (.inl (Nat.lt_trans hlt hlt'))
    · -- nothing ranks below an instance
      rw [hb] at hlt
      exact absurd hlt (Nat.not_lt_zero _)
  · rcases hcb with hsame | hlt' | ⟨hc, -, hup'⟩
    · refine .inr (.inr ⟨(hgrade _ _ hsame).trans hb, ha, ?_⟩)
      rw [isAssignable_congr t hsame rfl]
      exact hup
    · rw [hb, ← ha] at hlt'
      exact .inr (.inl hlt')
    · exact .inr (.inr ⟨hc, ha, isAssignable_trans hroot hup' hup⟩)

/-- Over all positions: not being beaten at any of them is passed on from candidate to candidate. -/
theorem preferPositions_first_trans {t : TypeTable} (hroot : t.parents Standard.object = []) :
    ∀ {grades : List (Descriptor → Rank)} {as bs cs : List Descriptor}, Lawful grades →
      as.length = grades.length → bs.length = grades.length → cs.length = grades.length →
      (t.preferPositions bs as (gradesOf grades bs) (gradesOf grades as)).first = false →
      (t.preferPositions cs bs (gradesOf grades cs) (gradesOf grades bs)).first = false →
      (t.preferPositions cs as (gradesOf grades cs) (gradesOf grades as)).first = false
  | [], as, bs, cs, _, ha, _, hc, _, _ => by
    obtain rfl : as = [] := List.length_eq_zero_iff.mp ha
    obtain rfl : cs = [] := List.length_eq_zero_iff.mp hc
    rfl
  | grade :: grades, a :: as, b :: bs, c :: cs, hlawful, ha, hb, hc, hba, hcb => by
    simp only [gradesOf, List.zipWith_cons_cons, preferPositions, Preference.both_first, Bool.or_eq_false_iff]
      at hba hcb ⊢
    simp only [List.length_cons, Nat.add_right_cancel_iff] at ha hb hc
    have hhead : ∀ d d' : Descriptor, d.canonical = d'.canonical → grade d = grade d' :=
      hlawful grade List.mem_cons_self
    have htail : Lawful grades := fun g hg => hlawful g (List.mem_cons_of_mem _ hg)
    exact ⟨preferAt_first_trans hroot hhead hba.1 hcb.1,
      preferPositions_first_trans hroot htail ha hb hc hba.2 hcb.2⟩

/-- **Coverage is transitive** among candidates ranked for the same arguments. -/
theorem covers_trans {t : TypeTable} (hroot : t.parents Standard.object = []) {grades : List (Descriptor → Rank)}
    (hlawful : Lawful grades) {a b c : RankedCandidate} (ha : RankedBy grades a) (hb : RankedBy grades b)
    (hc : RankedBy grades c) (hab : t.Covers a b) (hbc : t.Covers b c) : t.Covers a c := by
  rw [Covers, prefer, ha.ranks, hb.ranks] at hab
  rw [Covers, prefer, hb.ranks, hc.ranks] at hbc
  rw [Covers, prefer, ha.ranks, hc.ranks]
  exact preferPositions_first_trans hroot hlawful ha.length hb.length hc.length hab hbc

/-- Equal types in equal places give no preference. -/
theorem preferPositions_self (t : TypeTable) :
    ∀ (types : List Descriptor) (ranks : List Rank), t.preferPositions types types ranks ranks = .equal
  | [], _ => by rw [preferPositions]; simp
  | _ :: _, [] => by rw [preferPositions]; simp
  | d :: types, r :: ranks => by
    have hhead : t.preferAt d d r r = .equal := by
      rw [preferAt, if_pos (Descriptor.beq_iff.mpr rfl)]
    rw [preferPositions, hhead, preferPositions_self t types ranks]
    rfl

theorem covers_refl (t : TypeTable) (a : RankedCandidate) : t.Covers a a := by
  rw [Covers, prefer, preferPositions_self]
  rfl

/-- A comparison that the second does not win is turned around when the two change places. -/
theorem preferPositions_swap {t : TypeTable} : ∀ {as bs : List Descriptor} {rs qs : List Rank},
    (t.preferPositions as bs rs qs).second = false →
      (t.preferPositions bs as qs rs).first = false ∧
        (t.preferPositions bs as qs rs).second = (t.preferPositions as bs rs qs).first
  | a :: as, b :: bs, r :: rs, q :: qs, h => by
    simp only [preferPositions, Preference.both_first, Preference.both_second, Bool.or_eq_false_iff] at h ⊢
    obtain ⟨hfirst, hsecond⟩ := preferAt_swap h.1
    obtain ⟨hfirst', hsecond'⟩ := preferPositions_swap h.2
    exact ⟨⟨hfirst, hfirst'⟩, by rw [hsecond, hsecond']⟩
  | [], _, _, _, _ => by simp [preferPositions, Preference.equal]
  | _ :: _, [], _, _, _ => by simp [preferPositions, Preference.equal]
  | _ :: _, _ :: _, [], _, _ => by simp [preferPositions, Preference.equal]
  | _ :: _, _ :: _, _ :: _, [], _ => by simp [preferPositions, Preference.equal]

/-- A preference for the first becomes one for the second when the two change places. -/
theorem prefer_toSecond_of_toFirst {t : TypeTable} {a b : RankedCandidate} (h : t.prefer a b = .toFirst) :
    t.prefer b a = .toSecond := by
  obtain ⟨hfirst, hsecond⟩ := Preference.eq_toFirst_iff.mp h
  obtain ⟨hfirst', hsecond'⟩ := preferPositions_swap hsecond
  exact Preference.eq_toSecond_iff.mpr ⟨hfirst', hsecond'.trans hfirst⟩

/-! ## Taking in a newcomer

The comparison goes through the best candidates in order. It ends at the first one with the parameters of the newcomer,
or at the first undecided one, and every candidate before that is decided one way or the other. -/

/-- The comparison of a newcomer with another candidate has a winner. -/
def Decided (t : TypeTable) (newcomer other : RankedCandidate) : Prop :=
  t.prefer newcomer other = .toFirst ∨ t.prefer newcomer other = .toSecond

/-- A decided comparison moves on to the next candidate and is counted. -/
theorem compareWith_cons_of_decided {t : TypeTable} {newcomer incumbent : RankedCandidate}
    (h : t.Decided newcomer incumbent) (rest : List RankedCandidate) (place better worse : Nat) :
    t.compareWith newcomer place better worse (incumbent :: rest)
      = t.compareWith newcomer (place + 1) (better + if t.prefer newcomer incumbent = .toFirst then 1 else 0)
          (worse + if t.prefer newcomer incumbent = .toSecond then 1 else 0) rest := by
  rw [compareWith]
  rcases h with h | h <;> simp [h, Preference.toFirst, Preference.toSecond, Preference.undecided]

/-- Where the comparison of a newcomer with the best candidates ends, and what it has counted by then. -/
theorem compareWith_spec (t : TypeTable) (newcomer : RankedCandidate) :
    ∀ (best : List RankedCandidate) (place better worse : Nat),
      match t.compareWith newcomer place better worse best with
      | .twin found => ∃ before twin after, best = before ++ twin :: after ∧ found = place + before.length ∧
          t.prefer newcomer twin = .equal ∧ ∀ b ∈ before, t.Decided newcomer b
      | .counted better' worse' => ∃ before after, best = before ++ after ∧ (∀ b ∈ before, t.Decided newcomer b) ∧
          (after = [] ∨ ∃ b rest, after = b :: rest ∧ t.prefer newcomer b = .undecided) ∧
          better' = better + before.countP (t.prefer newcomer · = .toFirst) ∧
          worse' = worse + before.countP (t.prefer newcomer · = .toSecond) := by
  intro best
  induction best with
  | nil =>
    intro place better worse
    exact ⟨[], [], rfl, by simp, .inl rfl, by simp, by simp⟩
  | cons incumbent rest ih =>
    intro place better worse
    by_cases hdecided : t.Decided newcomer incumbent
    · rw [compareWith_cons_of_decided hdecided]
      have hrest := ih (place + 1) (better + if t.prefer newcomer incumbent = .toFirst then 1 else 0)
        (worse + if t.prefer newcomer incumbent = .toSecond then 1 else 0)
      -- the comparison of the others says the rest, one place further on
      split at hrest
      · obtain ⟨before, twin, after, rfl, rfl, hequal, hbefore⟩ := hrest
        refine ⟨incumbent :: before, twin, after, rfl, ?_, hequal, ?_⟩
        · rw [List.length_cons]; omega
        · exact List.forall_mem_cons.mpr ⟨hdecided, hbefore⟩
      · obtain ⟨before, after, rfl, hbefore, hend, rfl, rfl⟩ := hrest
        refine ⟨incumbent :: before, after, rfl, List.forall_mem_cons.mpr ⟨hdecided, hbefore⟩, hend, ?_, ?_⟩
        · simp only [List.countP_cons, decide_eq_true_eq]; omega
        · simp only [List.countP_cons, decide_eq_true_eq]; omega
    · rw [Decided, not_or] at hdecided
      rw [compareWith]
      by_cases hundecided : t.prefer newcomer incumbent = .undecided
      · simp only [hundecided, if_true]
        exact ⟨[], incumbent :: rest, rfl, by simp, .inr ⟨incumbent, rest, rfl, hundecided⟩, by simp, by simp⟩
      · -- of the four preferences only equality is left
        have hequal : t.prefer newcomer incumbent = .equal := by
          revert hdecided hundecided
          generalize t.prefer newcomer incumbent = p
          obtain ⟨first, second⟩ := p
          cases first <;> cases second <;>
            simp [Preference.toFirst, Preference.toSecond, Preference.undecided, Preference.equal]
        simp only [hundecided, hdecided.1, hdecided.2, if_false]
        exact ⟨[], incumbent, rest, rfl, rfl, hequal, by simp⟩

/-- A count that reaches the length of a longer list has gone through all of that list. -/
theorem countP_eq_length_append {p : RankedCandidate → Bool} {before after : List RankedCandidate}
    (h : before.countP p = (before ++ after).length) : after = [] ∧ ∀ b ∈ before, p b = true := by
  have hle : before.countP p ≤ before.length := List.countP_le_length
  rw [List.length_append] at h
  exact ⟨List.length_eq_zero_iff.mp (by omega), List.countP_eq_length.mp (by omega)⟩

/-- **Everything that taking in a newcomer can do.** It replaces all the best candidates, is left out, takes or does not
take the place of one with its parameters, or joins them. It joins them if there are none, if one is undecided, or if
it is better than some of them and worse than others. -/
theorem takeIn_cases (t : TypeTable) (best : List RankedCandidate) (newcomer : RankedCandidate) :
    ((∀ b ∈ best, t.prefer newcomer b = .toFirst) ∧ best ≠ [] ∧ t.takeIn best newcomer = [newcomer]) ∨
    ((∀ b ∈ best, t.prefer newcomer b = .toSecond) ∧ best ≠ [] ∧ t.takeIn best newcomer = best) ∨
    (∃ before twin after, best = before ++ twin :: after ∧ t.prefer newcomer twin = .equal ∧
      (∀ b ∈ before, t.Decided newcomer b) ∧
      t.takeIn best newcomer = before ++ (if t.replaces newcomer twin then newcomer else twin) :: after) ∨
    ((best = [] ∨ (∃ b ∈ best, t.prefer newcomer b = .undecided) ∨
        ((∃ b ∈ best, t.prefer newcomer b = .toFirst) ∧ ∃ b ∈ best, t.prefer newcomer b = .toSecond)) ∧
      t.takeIn best newcomer = best ++ [newcomer]) := by
  have hspec := t.compareWith_spec newcomer best 0 0 0
  rw [takeIn]
  cases hstanding : t.compareWith newcomer 0 0 0 best with
  | twin found =>
    rw [hstanding] at hspec
    obtain ⟨before, twin, after, rfl, rfl, hequal, hbefore⟩ := hspec
    refine .inr (.inr (.inl ⟨before, twin, after, rfl, hequal, hbefore, ?_⟩))
    -- the twin stands at the place that was found, so that is where the newcomer would be put
    have hget : (before ++ twin :: after)[0 + before.length]? = some twin := by simp
    simp only [hget]
    split
    · rw [Nat.zero_add, List.set_append_right _ _ (Nat.le_refl _)]
      simp
    · rfl
  | counted better worse =>
    rw [hstanding] at hspec
    obtain ⟨before, after, rfl, hbefore, hend, rfl, rfl⟩ := hspec
    simp only [Nat.zero_add, Bool.and_eq_true, Bool.not_eq_true', List.isEmpty_eq_false_iff, beq_iff_eq]
    by_cases hfirst : before ++ after ≠ [] ∧
        before.countP (t.prefer newcomer · = .toFirst) = (before ++ after).length
    · obtain ⟨rfl, hall⟩ := countP_eq_length_append hfirst.2
      rw [if_pos hfirst]
      exact .inl ⟨by simpa using hall, hfirst.1, rfl⟩
    rw [if_neg hfirst]
    by_cases hsecond : before ++ after ≠ [] ∧
        before.countP (t.prefer newcomer · = .toSecond) = (before ++ after).length
    · obtain ⟨rfl, hall⟩ := countP_eq_length_append hsecond.2
      rw [if_pos hsecond]
      exact .inr (.inl ⟨by simpa using hall, hsecond.1, rfl⟩)
    rw [if_neg hsecond]
    refine .inr (.inr (.inr ⟨?_, rfl⟩))
    -- the comparison stopped at an undecided one, or went through all
    rcases hend with rfl | ⟨b, rest, rfl, hundecided⟩
    · -- all are decided, but neither all for the newcomer nor all against it
      by_cases hempty : before = []
      · exact .inl (by simp [hempty])
      simp only [List.append_nil, ne_eq, hempty, not_false_eq_true, true_and, List.countP_eq_length,
        decide_eq_true_eq, not_forall] at hfirst hsecond ⊢
      obtain ⟨x, hx, hnot⟩ := hfirst
      obtain ⟨y, hy, hnot'⟩ := hsecond
      exact .inr (.inr ⟨⟨y, hy, (hbefore y hy).resolve_right hnot'⟩, x, hx, (hbefore x hx).resolve_left hnot⟩)
    · exact .inr (.inl ⟨b, by simp, hundecided⟩)

/-! ## The fold

What is proved of a run of `takeIn` is said of every list it starts from, with the candidates that were taken in to
make it. -/

theorem mem_takeIn {t : TypeTable} {best : List RankedCandidate} {newcomer b : RankedCandidate}
    (h : b ∈ t.takeIn best newcomer) : b = newcomer ∨ b ∈ best := by
  rcases t.takeIn_cases best newcomer with ⟨-, -, heq⟩ | ⟨-, -, heq⟩ | ⟨before, twin, after, rfl, -, -, heq⟩ | ⟨-, heq⟩
  · rw [heq] at h
    exact .inl (List.mem_singleton.mp h)
  · rw [heq] at h
    exact .inr h
  · rw [heq] at h
    split at h <;> simp only [List.mem_append, List.mem_cons] at h ⊢ <;> tauto
  · rw [heq, List.mem_append, List.mem_singleton] at h
    exact h.symm

theorem takeIn_ne_nil (t : TypeTable) (best : List RankedCandidate) (newcomer : RankedCandidate) :
    t.takeIn best newcomer ≠ [] := by
  rcases t.takeIn_cases best newcomer with
    ⟨-, -, heq⟩ | ⟨-, hne, heq⟩ | ⟨before, twin, after, rfl, -, -, heq⟩ | ⟨-, heq⟩
  · simp [heq]
  · rw [heq]; exact hne
  · simp [heq]
  · simp [heq]

/-- The newcomer and all the best candidates are covered after one step. -/
theorem takeIn_covers_of_mem {t : TypeTable} {best : List RankedCandidate} {newcomer d : RankedCandidate}
    (hd : d = newcomer ∨ d ∈ best) : ∃ b ∈ t.takeIn best newcomer, t.Covers b d := by
  rcases t.takeIn_cases best newcomer with
    ⟨hall, -, heq⟩ | ⟨hall, hne, heq⟩ | ⟨before, twin, after, rfl, hequal, -, heq⟩ | ⟨-, heq⟩
  · rw [heq]
    refine ⟨newcomer, by simp, ?_⟩
    rcases hd with rfl | hd
    · exact t.covers_refl _
    · rw [Covers, prefer_toSecond_of_toFirst (hall d hd)]
      rfl
  · rw [heq]
    rcases hd with rfl | hd
    · obtain ⟨b, hb⟩ := List.exists_mem_of_ne_nil best hne
      refine ⟨b, hb, ?_⟩
      rw [Covers, hall b hb]
      rfl
    · exact ⟨d, hd, t.covers_refl d⟩
  · rw [heq]
    -- the two with one list of parameters cover each other, whichever stays
    have hcovers : t.Covers twin newcomer ∧ t.Covers newcomer twin := by
      refine ⟨?_, (preferPositions_swap ?_).1⟩
      · rw [Covers, hequal]
        rfl
      · show (t.prefer newcomer twin).second = false
        rw [hequal]
        rfl
    rcases hd with rfl | hd
    · refine ⟨_, List.mem_append_right _ List.mem_cons_self, ?_⟩
      split
      · exact t.covers_refl _
      · exact hcovers.1
    · rcases List.mem_append.mp hd with hd | hd
      · exact ⟨d, List.mem_append_left _ hd, t.covers_refl d⟩
      · rcases List.mem_cons.mp hd with rfl | hd
        · refine ⟨_, List.mem_append_right _ List.mem_cons_self, ?_⟩
          split
          · exact hcovers.2
          · exact t.covers_refl _
        · exact ⟨d, List.mem_append_right _ (List.mem_cons_of_mem _ hd), t.covers_refl d⟩
  · rw [heq]
    refine ⟨d, ?_, t.covers_refl d⟩
    rw [List.mem_append, List.mem_singleton]
    exact hd.symm

/-- All that is left after a run was there before or came by. -/
theorem mem_foldl_takeIn {t : TypeTable} {b : RankedCandidate} :
    ∀ {candidates best : List RankedCandidate}, b ∈ candidates.foldl t.takeIn best → b ∈ best ∨ b ∈ candidates
  | [], best, h => .inl h
  | c :: candidates, best, h => by
    have hrest : b ∈ candidates.foldl t.takeIn (t.takeIn best c) := h
    rcases mem_foldl_takeIn hrest with hb | hb
    · rcases mem_takeIn hb with rfl | hb
      · exact .inr List.mem_cons_self
      · exact .inl hb
    · exact .inr (List.mem_cons_of_mem _ hb)

/-- No candidate is best only where there is none. -/
theorem bestCandidates_eq_nil_iff (t : TypeTable) (candidates : List RankedCandidate) :
    t.bestCandidates candidates = [] ↔ candidates = [] := by
  rcases List.eq_nil_or_concat candidates with rfl | ⟨before, last, rfl⟩
  · simp [bestCandidates]
  · simp [bestCandidates, List.foldl_append, takeIn_ne_nil]

section Coverage

variable {t : TypeTable} (hroot : t.parents Standard.object = []) {grades : List (Descriptor → Rank)}
  (hlawful : Lawful grades)
include hroot hlawful

/-- A run keeps coverage: the candidates it takes in are covered, and whatever was covered before still is. -/
theorem foldl_takeIn_covers : ∀ {candidates best : List RankedCandidate} {c : RankedCandidate},
    (∀ d ∈ candidates, RankedBy grades d) → (∀ b ∈ best, RankedBy grades b) → RankedBy grades c →
    (c ∈ candidates ∨ ∃ b ∈ best, t.Covers b c) → ∃ b ∈ candidates.foldl t.takeIn best, t.Covers b c
  | [], best, c, _, _, _, hc => by simpa using hc
  | newcomer :: candidates, best, c, hcandidates, hbest, hranked, hc => by
    have hbest' : ∀ b ∈ t.takeIn best newcomer, RankedBy grades b := by
      intro b hb
      rcases mem_takeIn hb with rfl | hb
      · exact hcandidates b List.mem_cons_self
      · exact hbest b hb
    have hrest : ∀ d ∈ candidates, RankedBy grades d := fun d hd => hcandidates d (List.mem_cons_of_mem _ hd)
    show ∃ b ∈ candidates.foldl t.takeIn (t.takeIn best newcomer), t.Covers b c
    refine foldl_takeIn_covers hrest hbest' hranked ?_
    rcases hc with hc | ⟨d, hd, hdc⟩
    · rcases List.mem_cons.mp hc with rfl | hc
      · exact .inr (takeIn_covers_of_mem (.inl rfl))
      · exact .inl hc
    · -- covered by one of the best candidates, which is covered in turn
      obtain ⟨b, hb, hbd⟩ : ∃ b ∈ t.takeIn best newcomer, t.Covers b d := takeIn_covers_of_mem (.inr hd)
      exact .inr ⟨b, hb, covers_trans hroot hlawful (hbest' b hb) (hbest d hd) hranked hbd hdc⟩

/-- **Every candidate is covered by one of the best ones.** -/
theorem bestCandidates_covered {candidates : List RankedCandidate} (hranked : ∀ d ∈ candidates, RankedBy grades d)
    {c : RankedCandidate} (hc : c ∈ candidates) : ∃ b ∈ t.bestCandidates candidates, t.Covers b c :=
  foldl_takeIn_covers hroot hlawful hranked (by simp) (hranked c hc) (.inl hc)

end Coverage

/-! ## A candidate preferred to all others -/

/-- A newcomer that beats all incumbents stays alone. -/
theorem takeIn_of_forall_toFirst {t : TypeTable} {best : List RankedCandidate} {newcomer : RankedCandidate}
    (h : ∀ b ∈ best, t.prefer newcomer b = .toFirst) : t.takeIn best newcomer = [newcomer] := by
  rcases t.takeIn_cases best newcomer with
    ⟨-, -, heq⟩ | ⟨hsecond, hne, -⟩ | ⟨before, twin, after, rfl, hequal, -, -⟩ |
      ⟨rfl | ⟨b, hb, hother⟩ | ⟨-, b, hb, hother⟩, heq⟩
  · exact heq
  · obtain ⟨b, hb⟩ := List.exists_mem_of_ne_nil best hne
    exact absurd ((h b hb).symm.trans (hsecond b hb)) (by decide)
  · exact absurd ((h twin (by simp)).symm.trans hequal) (by decide)
  · exact heq
  · exact absurd ((h b hb).symm.trans hother) (by decide)
  · exact absurd ((h b hb).symm.trans hother) (by decide)

/-- A newcomer that is beaten leaves the one incumbent alone. -/
theorem takeIn_singleton_of_toSecond {t : TypeTable} {only newcomer : RankedCandidate}
    (h : t.prefer newcomer only = .toSecond) : t.takeIn [only] newcomer = [only] := by
  rw [takeIn, compareWith_cons_of_decided (.inr h), h]
  simp [compareWith, Preference.toFirst, Preference.toSecond]

/-- **A candidate that is preferred to those before it and after it** is the only one left, wherever it stands. -/
theorem bestCandidates_champion {t : TypeTable} {before after : List RankedCandidate} {champion : RankedCandidate}
    (hbefore : ∀ c ∈ before, t.prefer champion c = .toFirst) (hafter : ∀ c ∈ after, t.prefer champion c = .toFirst) :
    t.bestCandidates (before ++ champion :: after) = [champion] := by
  -- it drives out what was there
  have htaken : t.takeIn (before.foldl t.takeIn []) champion = [champion] := by
    refine takeIn_of_forall_toFirst fun b hb => ?_
    exact hbefore b ((mem_foldl_takeIn hb).resolve_left (by simp))
  rw [bestCandidates, List.foldl_append, List.foldl_cons, htaken]
  -- and nothing that comes later gets in
  clear htaken
  induction after with
  | nil => rfl
  | cons c after ih =>
    have hc : t.prefer c champion = .toSecond := prefer_toSecond_of_toFirst (hafter c List.mem_cons_self)
    rw [List.foldl_cons, takeIn_singleton_of_toSecond hc]
    exact ih fun d hd => hafter d (List.mem_cons_of_mem _ hd)

end TypeTable

end Interop
