import Interop.Proofs.Dispatch.Ties

/-!
# The order of the candidates

A candidate that is preferred to all others wins wherever it stands. But a candidate may cover all others, so that
nobody is better anywhere, without being preferred to them: at a position with different types that can each stand for
the other, whoever comes first is taken for the more specific one. Then the order decides.

* **`TypeTable.Decisive`**: who covers all others is preferred to them. Candidates that are told apart are decisive.
* **`TypeTable.bestCandidates_orderFree_iff`**: candidates with different parameters have the same single best one in
  every order exactly when they are decisive. Two orders show the one direction: in the first the covering candidate
  comes before all others, in the second the one that it is not preferred to comes before it.
* **`chooseBest_orderFree_iff`**: the same of the choice.
-/

namespace Interop

namespace TypeTable

/-! ## A single best candidate in every order -/

/-- Who covers all others is preferred to them. -/
def Decisive (t : TypeTable) (candidates : List RankedCandidate) : Prop :=
  ∀ w ∈ candidates, (∀ v ∈ candidates, v ≠ w → t.prefer v w = .toSecond) →
    ∀ v ∈ candidates, v ≠ w → t.prefer w v = .toFirst

/-- Candidates no two of which have the same parameters. -/
def Distinct (candidates : List RankedCandidate) : Prop :=
  candidates.Pairwise fun v w => Descriptor.sameAll v.params w.params = false

/-- Two different candidates of such a list differ in a parameter. -/
theorem Distinct.of_mem {candidates : List RankedCandidate} (h : Distinct candidates) {v w : RankedCandidate}
    (hv : v ∈ candidates) (hw : w ∈ candidates) (hne : v ≠ w) : Descriptor.sameAll v.params w.params = false := by
  have : Std.Symm fun v w : RankedCandidate => Descriptor.sameAll v.params w.params = false :=
    ⟨fun _ _ hvw => (Descriptor.sameAll_comm _ _).trans hvw⟩
  exact List.Pairwise.forall h hv hw hne

/-- Being told apart does not depend on the order. -/
theorem Distinct.perm {candidates others : List RankedCandidate} (h : Distinct candidates)
    (hperm : others.Perm candidates) : Distinct others :=
  (hperm.pairwise_iff fun {_ _} hvw => (Descriptor.sameAll_comm _ _).trans hvw).mpr h

theorem Distinct.nodup {candidates : List RankedCandidate} (h : Distinct candidates) : candidates.Nodup := by
  refine h.imp ?_
  rintro v _ hvw rfl
  rw [(Descriptor.sameAll_iff _ _).mpr rfl] at hvw
  cases hvw

/-- A candidate that covers all others and comes first is never joined. -/
theorem bestCandidates_of_covers_rest {t : TypeTable} {w : RankedCandidate} {rest : List RankedCandidate}
    (h : ∀ v ∈ rest, t.prefer v w = .toSecond) : t.bestCandidates (w :: rest) = [w] := by
  have hstays : ∀ {later : List RankedCandidate}, (∀ v ∈ later, t.prefer v w = .toSecond) →
      later.foldl t.takeIn [w] = [w] := by
    intro later hlater
    induction later with
    | nil => rfl
    | cons v later ih =>
      obtain ⟨hv, hlater⟩ := List.forall_mem_cons.mp hlater
      rw [List.foldl_cons, takeIn_singleton_of_toSecond hv]
      exact ih hlater
  exact hstays h

/-- One step keeps a candidate that covers the newcomer, and those beside it. -/
theorem mem_takeIn_of_toSecond {t : TypeTable} {best : List RankedCandidate} {w newcomer : RankedCandidate}
    (hw : w ∈ best) (h : t.prefer newcomer w = .toSecond) :
    w ∈ t.takeIn best newcomer ∧ best.length ≤ (t.takeIn best newcomer).length := by
  rcases t.takeIn_cases best newcomer with
    ⟨hall, -, -⟩ | ⟨-, -, heq⟩ | ⟨before, twin, after, rfl, hequal, -, heq⟩ | ⟨-, heq⟩
  · exact absurd (h.symm.trans (hall w hw)) (by decide)
  · rw [heq]
    exact ⟨hw, Nat.le_refl _⟩
  · -- it is not the twin of the newcomer
    have hne : w ≠ twin := by
      rintro rfl
      exact absurd (h.symm.trans hequal) (by decide)
    rw [heq]
    refine ⟨?_, by simp⟩
    simp only [List.mem_append, List.mem_cons] at hw ⊢
    tauto
  · rw [heq]
    exact ⟨List.mem_append_left _ hw, by simp⟩

/-- A candidate that covers all others and comes right after one that it is not preferred to is not the single best
one. -/
theorem bestCandidates_of_challenger {t : TypeTable} {v w : RankedCandidate} {rest : List RankedCandidate}
    (hne : w ∉ v :: rest) (hrest : ∀ x ∈ rest, t.prefer x w = .toSecond) (hequal : t.prefer w v ≠ .equal)
    (hfirst : t.prefer w v ≠ .toFirst) : t.bestCandidates (v :: w :: rest) ≠ [w] := by
  show rest.foldl t.takeIn (t.takeIn (t.takeIn [] v) w) ≠ [w]
  have hv : t.takeIn [] v = [v] := rfl
  rw [hv]
  by_cases hsecond : t.prefer w v = .toSecond
  · -- it is left out, and does not come back
    rw [takeIn_singleton_of_toSecond hsecond]
    intro heq
    have hmem : w ∈ rest.foldl t.takeIn [v] := by simp [heq]
    rcases mem_foldl_takeIn hmem with hv | hrest
    · exact hne (List.mem_singleton.mp hv ▸ List.mem_cons_self)
    · exact hne (List.mem_cons_of_mem _ hrest)
  · -- it joins the other one, and nobody can drive out the two of them
    have hjoins : t.takeIn [v] w = [v, w] := by
      have hundecided : t.prefer w v = .undecided := Preference.eq_of_ne hfirst hsecond hequal
      simp [takeIn, compareWith, hundecided]
    rw [hjoins]
    have hkeeps : ∀ {later best : List RankedCandidate}, (∀ x ∈ later, t.prefer x w = .toSecond) → w ∈ best →
        best.length ≤ (later.foldl t.takeIn best).length := by
      intro later
      induction later with
      | nil => exact fun _ _ => Nat.le_refl _
      | cons x later ih =>
        intro best hlater hmem
        obtain ⟨hx, hlater⟩ := List.forall_mem_cons.mp hlater
        obtain ⟨hmem', hlength⟩ := mem_takeIn_of_toSecond hmem hx
        exact hlength.trans (ih hlater hmem')
    have htwo : [v, w].length ≤ (rest.foldl t.takeIn [v, w]).length := hkeeps hrest (by simp)
    intro heq
    rw [heq] at htwo
    simp at htwo

section Orders

variable {t : TypeTable} {grades : List (Descriptor → Rank)} {candidates : List RankedCandidate}

/-- A single best candidate covers all others. -/
theorem covers_of_bestCandidates_eq (hroot : t.parents Standard.object = []) (hlawful : Lawful grades)
    (hranked : ∀ w ∈ candidates, RankedBy grades w) (hdistinct : Distinct candidates) {w : RankedCandidate}
    (h : t.bestCandidates candidates = [w]) :
    w ∈ candidates ∧ ∀ v ∈ candidates, v ≠ w → t.prefer v w = .toSecond := by
  have hbest : w ∈ t.bestCandidates candidates := by simp [h]
  have hw : w ∈ candidates := (mem_foldl_takeIn hbest).resolve_left List.not_mem_nil
  refine ⟨hw, fun v hv hne => ?_⟩
  obtain ⟨b, hb, hcovers⟩ := bestCandidates_covered hroot hlawful hranked hv
  rw [h, List.mem_singleton] at hb
  subst hb
  rcases Preference.first_eq_false_iff.mp hcovers with hsecond | hequal
  · exact hsecond
  · -- only candidates with the same parameters are equal
    have hsame := (prefer_eq_equal_iff (hranked v hv) (hranked b hw)).mp hequal
    rw [hdistinct.of_mem hv hw hne] at hsame
    cases hsame

/-- Among decisive candidates, one that is the single best one in some order is so in every order. -/
theorem Decisive.bestCandidates_eq (hroot : t.parents Standard.object = []) (hlawful : Lawful grades)
    (hranked : ∀ w ∈ candidates, RankedBy grades w) (hdistinct : Distinct candidates)
    (hdecisive : t.Decisive candidates) {others : List RankedCandidate} (hperm : others.Perm candidates)
    {w : RankedCandidate} (h : t.bestCandidates candidates = [w]) : t.bestCandidates others = [w] := by
  obtain ⟨hw, hcovers⟩ := covers_of_bestCandidates_eq hroot hlawful hranked hdistinct h
  have hfirst := hdecisive w hw hcovers
  -- it drives out those before it and keeps out those after it
  obtain ⟨before, after, rfl⟩ := List.append_of_mem (hperm.mem_iff.mpr hw)
  have hnodup := (hdistinct.perm hperm).nodup
  rw [List.nodup_append, List.nodup_cons] at hnodup
  obtain ⟨-, ⟨hafter, -⟩, hbefore⟩ := hnodup
  refine bestCandidates_champion (fun v hv => ?_) fun v hv => ?_
  · exact hfirst v (hperm.subset (List.mem_append_left _ hv)) (hbefore v hv w List.mem_cons_self)
  · refine hfirst v (hperm.subset (List.mem_append_right _ (List.mem_cons_of_mem _ hv))) ?_
    rintro rfl
    exact hafter hv

/-- **The order of the candidates does not matter** to who is the single best one, exactly where they are decisive. -/
theorem bestCandidates_orderFree_iff (hroot : t.parents Standard.object = []) (hlawful : Lawful grades)
    (hranked : ∀ w ∈ candidates, RankedBy grades w) (hdistinct : Distinct candidates) :
    (∀ others : List RankedCandidate, others.Perm candidates → ∀ w,
      t.bestCandidates others = [w] ↔ t.bestCandidates candidates = [w]) ↔ t.Decisive candidates := by
  constructor
  · intro hfree w hw hcovers v hv hne
    by_contra hfirst
    -- one order with the covering candidate in front, one with the other right before it
    obtain ⟨before, after, rfl⟩ := List.append_of_mem hw
    have hv' : v ∈ before ++ after := by
      simp only [List.mem_append, List.mem_cons] at hv ⊢
      tauto
    obtain ⟨front, back, hsplit⟩ := List.append_of_mem hv'
    have hperm : (w :: v :: (front ++ back)).Perm (before ++ w :: after) := by
      refine List.Perm.trans (List.Perm.cons w ?_) List.perm_middle.symm
      rw [hsplit]
      exact List.perm_middle.symm
    have hnodup : (w :: v :: (front ++ back)).Nodup := hperm.nodup_iff.mpr hdistinct.nodup
    have hrest : ∀ x ∈ v :: (front ++ back), t.prefer x w = .toSecond := by
      intro x hx
      refine hcovers x (hperm.subset (List.mem_cons_of_mem _ hx)) ?_
      rintro rfl
      exact (List.nodup_cons.mp hnodup).1 hx
    have hone : t.bestCandidates (before ++ w :: after) = [w] :=
      (hfree _ hperm w).mp (bestCandidates_of_covers_rest hrest)
    have hequal : t.prefer w v ≠ .equal := by
      intro heq
      have hsame := (prefer_eq_equal_iff (hranked w hw) (hranked v hv)).mp heq
      rw [hdistinct.of_mem hw hv (Ne.symm hne)] at hsame
      cases hsame
    have hother : t.bestCandidates (v :: w :: (front ++ back)) ≠ [w] :=
      bestCandidates_of_challenger (List.nodup_cons.mp hnodup).1
        (fun x hx => hrest x (List.mem_cons_of_mem _ hx)) hequal hfirst
    exact hother ((hfree _ ((List.Perm.swap w v _).trans hperm) w).mpr hone)
  · intro hdecisive others hperm w
    have hranked' : ∀ v ∈ others, RankedBy grades v := fun v hv => hranked v (hperm.subset hv)
    have hdecisive' : t.Decisive others := by
      intro w hw hcovers v hv hne
      refine hdecisive w (hperm.subset hw) (fun x hx => ?_) v (hperm.subset hv) hne
      exact hcovers x (hperm.symm.subset hx)
    exact ⟨hdecisive'.bestCandidates_eq hroot hlawful hranked' (hdistinct.perm hperm) hperm.symm,
      hdecisive.bestCandidates_eq hroot hlawful hranked hdistinct hperm⟩

end Orders

/-! ## Places

Who is preferred to whom does not depend on where the candidates stand. -/

end TypeTable

/-- The candidate, moved to a place. -/
def RankedCandidate.moved (place : Nat) (w : RankedCandidate) : RankedCandidate := { w with index := place }

namespace TypeTable

variable {t : TypeTable} {place : Nat}

/-- Places take no part in the comparison with those that are best so far. -/
theorem compareWith_map_moved (newcomer : RankedCandidate) : ∀ (best : List RankedCandidate) (n better worse : Nat),
    t.compareWith (newcomer.moved place) n better worse (best.map (·.moved place))
      = t.compareWith newcomer n better worse best
  | [], _, _, _ => rfl
  | incumbent :: rest, n, better, worse => by
    have hprefer : t.prefer (newcomer.moved place) (incumbent.moved place) = t.prefer newcomer incumbent := rfl
    simp only [List.map_cons, compareWith, hprefer, compareWith_map_moved newcomer rest]

theorem takeIn_map_moved (best : List RankedCandidate) (newcomer : RankedCandidate) :
    t.takeIn (best.map (·.moved place)) (newcomer.moved place) = (t.takeIn best newcomer).map (·.moved place) := by
  rw [takeIn, takeIn, compareWith_map_moved]
  cases t.compareWith newcomer 0 0 0 best with
  | counted better worse =>
    simp only [List.isEmpty_map, List.length_map]
    split
    · rfl
    · split
      · rfl
      · rw [List.map_append]
        rfl
  | twin n =>
    simp only [List.getElem?_map]
    cases best[n]? with
    | none => rfl
    | some incumbent =>
      have hreplaces : t.replaces (newcomer.moved place) (incumbent.moved place) = t.replaces newcomer incumbent := rfl
      simp only [Option.map_some, hreplaces]
      split
      · rw [List.map_set]
      · rfl

theorem bestCandidates_map_moved (candidates : List RankedCandidate) :
    t.bestCandidates (candidates.map (·.moved place)) = (t.bestCandidates candidates).map (·.moved place) := by
  have hfold : ∀ (later best : List RankedCandidate),
      (later.map (·.moved place)).foldl t.takeIn (best.map (·.moved place))
        = (later.foldl t.takeIn best).map (·.moved place) := by
    intro later
    induction later with
    | nil => exact fun _ => rfl
    | cons newcomer later ih =>
      intro best
      rw [List.map_cons, List.foldl_cons, List.foldl_cons, takeIn_map_moved, ih]
  exact hfold candidates []

end TypeTable

/-- A candidate ranks alike at all places. -/
theorem rankCandidate_place (place : Nat) (c : Callable) (args : List Script) :
    rankCandidate place c args = Option.map (·.moved place) <$> rankCandidate 0 c args := by
  refine Eval.ext fun s => ?_
  rw [Eval.outcome_map, rankCandidate, rankCandidate, Eval.outcome_get_bind, Eval.outcome_get_bind]
  cases c.paramsFor? (args.map s.kindOf) with
  | none => rfl
  | some params =>
    simp only [Eval.outcome_bind]
    rcases (rankAll args params).outcome s with ⟨stop | ranks, s'⟩
    · rfl
    · simp only [Eval.outcome_pure]
      split <;> rfl

theorem candidate_of_rankCandidate {place : Nat} {c : Callable} {args : List Script} {w : RankedCandidate}
    {s s' : Store} (h : (rankCandidate place c args).outcome s = (.ok (some w), s')) : w.candidate = c := by
  rw [rankCandidate, Eval.outcome_get_bind] at h
  cases hparams : c.paramsFor? (args.map s.kindOf) with
  | none =>
    rw [hparams] at h
    cases h
  | some params =>
    rw [hparams] at h
    obtain ⟨_, _, hstop⟩ | ⟨ranks, s₁, -, hpure⟩ := Eval.outcome_bind_cases h
    · cases hstop
    obtain ⟨hw, rfl⟩ := Prod.mk.inj hpure
    split at hw <;> cases hw
    rfl

namespace Store

theorem weigh_place (s : Store) (args : List Script) (place : Nat) (c : Callable) :
    s.weigh args place c = (s.weigh args 0 c).map (·.moved place) := by
  rw [weigh, weigh, rankCandidate_place, Eval.outcome_map]
  rcases ((rankCandidate 0 c args).outcome s).1 with stop | candidate <;> rfl

/-- A candidate that weighs something can be told from it. -/
theorem candidate_of_weigh {s : Store} {args : List Script} {place : Nat} {c : Callable} {w : RankedCandidate}
    (h : s.weigh args place c = some w) : w.candidate = c := by
  rw [weigh] at h
  rcases hrun : (rankCandidate place c args).outcome s with ⟨stop | candidate, s'⟩ <;> rw [hrun] at h
  · cases h
  · obtain rfl : candidate = some w := h
    exact candidate_of_rankCandidate hrun

end Store

/-! ## The choice in every order -/

/-- The candidates that are weighed, without their places. -/
def Store.contenders (s : Store) (set : OverloadSet) (args : List Script) : List RankedCandidate :=
  set.candidates.filterMap (s.weigh args 0)

/-- In another order the same candidates contend. -/
theorem Store.contenders_perm {set other : OverloadSet} (h : other.candidates.Perm set.candidates) (s : Store)
    (args : List Script) : (s.contenders other args).Perm (s.contenders set args) := h.filterMap _

/-- Every order of the contenders comes from an order of the candidates: those that do not contend come last. -/
theorem Store.exists_perm_contenders {s : Store} {set : OverloadSet} {args : List Script}
    {others : List RankedCandidate} (h : others.Perm (s.contenders set args)) :
    ∃ other : OverloadSet, other.candidates.Perm set.candidates ∧ s.contenders other args = others := by
  let contends : Callable → Bool := fun c => (s.weigh args 0 c).isSome
  -- what a candidate weighs says which candidate it is
  have hback : ∀ candidates : List Callable,
      (candidates.filterMap (s.weigh args 0)).map (·.candidate) = candidates.filter contends := by
    intro candidates
    induction candidates with
    | nil => rfl
    | cons c rest ih =>
      cases hweigh : s.weigh args 0 c with
      | none => simp [contends, hweigh, ih]
      | some w => simp [contends, hweigh, ih, candidate_of_weigh hweigh]
  have hagain : ∀ later : List RankedCandidate, (∀ w ∈ later, w ∈ s.contenders set args) →
      (later.map (·.candidate)).filterMap (s.weigh args 0) = later := by
    intro later hlater
    induction later with
    | nil => rfl
    | cons w later ih =>
      obtain ⟨hw, hlater⟩ := List.forall_mem_cons.mp hlater
      obtain ⟨c, -, hweigh⟩ := List.mem_filterMap.mp hw
      obtain rfl := candidate_of_weigh hweigh
      rw [List.map_cons, List.filterMap_cons, hweigh, ih hlater]
  have hrest : (set.candidates.filter fun c => !contends c).filterMap (s.weigh args 0) = [] := by
    rw [List.filterMap_eq_nil_iff]
    intro c hc
    simpa [contends] using (List.mem_filter.mp hc).2
  refine ⟨⟨set.name, others.map (·.candidate) ++ set.candidates.filter fun c => !contends c⟩, ?_, ?_⟩
  · refine List.Perm.trans (List.Perm.append_right _ ?_) (List.filter_append_perm contends set.candidates)
    rw [← hback]
    exact h.map _
  · rw [contenders, List.filterMap_append, hrest, List.append_nil]
    exact hagain others fun w hw => h.subset hw

/-- Two choices, among the same candidates in two orders, that take the same candidate or are of the same kind. -/
def Resolution.Agrees (set other : OverloadSet) : Resolution → Resolution → Prop
  | .resolved i, .resolved j => ∃ c, set.candidates[i]? = some c ∧ other.candidates[j]? = some c
  | .ambiguous _, .ambiguous _ => True
  | .noMatch, .noMatch => True
  | _, _ => False

/-- In every order of the candidates a choice is made, and it agrees with the given one. -/
def Store.OrderFree (s : Store) (set : OverloadSet) (args : List Script) (r : Resolution) : Prop :=
  ∀ other : OverloadSet, other.candidates.Perm set.candidates →
    ∃ r', (chooseBest other args).outcome s = (.ok r', s) ∧ r.Agrees set other r'

/-- Which applicable candidate covers all others is preferred to them. -/
def Store.Decisive (s : Store) (set : OverloadSet) (args : List Script) : Prop :=
  ∀ w, s.Applicable set args w →
    (∀ v, s.Applicable set args v → v.index ≠ w.index → s.types.prefer v w = .toSecond) →
    ∀ v, s.Applicable set args v → v.index ≠ w.index → s.types.prefer w v = .toFirst

/-- Candidates that are told apart are decisive. -/
theorem Store.decisive_of_toldApart {s : Store} {set : OverloadSet} {args : List Script}
    (hapart : ∀ v w, s.Applicable set args v → s.Applicable set args w → s.types.ToldApart v w) :
    s.Decisive set args := by
  intro w hw hcovers v hv hne
  exact TypeTable.prefer_toFirst_of_toSecond (hapart v w hv hw) (hcovers v hv hne)

/-- Different contenders are those that come from different places. -/
theorem Store.Applicable.moved_ne_iff {s : Store} {set : OverloadSet} {args : List Script}
    (hdistinct : ∀ v w, s.Applicable set args v → s.Applicable set args w → v.index ≠ w.index →
      Descriptor.sameAll v.params w.params = false) {v w : RankedCandidate} (hv : s.Applicable set args v)
    (hw : s.Applicable set args w) :
    v.moved 0 ≠ w.moved 0 ↔ v.index ≠ w.index := by
  refine not_congr ⟨fun hmoved => ?_, fun hplace => by rw [hv.eq_of_index hw hplace]⟩
  by_contra hne
  have hparams : v.params = w.params := congrArg (·.params) hmoved
  have hsame := hdistinct v w hv hw hne
  rw [hparams, (Descriptor.sameAll_iff _ _).mpr rfl] at hsame
  cases hsame

/-- Candidates that all rank are weighed, in any order. -/
theorem exists_weighed_of_ranked {s : Store} {args : List Script} : ∀ {candidates : List Callable} (place : Nat),
    (∀ c ∈ candidates, ∃ found, (rankCandidate 0 c args).outcome s = (.ok found, s)) →
      ∃ weighed, (applicable args place candidates).outcome s = (.ok weighed, s)
  | [], _, _ => ⟨[], rfl⟩
  | c :: rest, place, h => by
    obtain ⟨⟨found, hfirst⟩, hrest⟩ := List.forall_mem_cons.mp h
    have hplaced : (rankCandidate place c args).outcome s = (.ok (found.map (·.moved place)), s) := by
      rw [rankCandidate_place, Eval.outcome_map, hfirst]
      rfl
    obtain ⟨others, hothers⟩ := exists_weighed_of_ranked (place + 1) hrest
    refine ⟨(found.map (·.moved place)).toList ++ others, ?_⟩
    rw [applicable, Eval.outcome_bind_of_ok hplaced, Eval.outcome_bind_of_ok hothers]
    rfl

section Choice

variable {set : OverloadSet} {args : List Script} {s s' : Store} {weighed : List RankedCandidate}
  (h : (applicable args 0 set.candidates).outcome s = (.ok weighed, s'))
include h

/-- What was weighed are the contenders, at their places. -/
theorem map_moved_weighed : weighed.map (·.moved 0) = s'.contenders set args := by
  obtain ⟨rfl, -⟩ := outcome_applicable h (.refl s')
  have hplace : ∀ p : Callable × Nat,
      (s'.weigh args p.2 p.1).map (·.moved 0) = s'.weigh args 0 p.1 := by
    intro p
    rw [s'.weigh_place args 0 p.1, s'.weigh_place args p.2 p.1, Option.map_map]
    rfl
  have hfst : (set.candidates.zipIdx 0).map Prod.fst = set.candidates := List.zipIdx_map_fst 0 set.candidates
  rw [List.map_filterMap, Store.contenders]
  nth_rewrite 2 [← hfst]
  rw [List.filterMap_map]
  exact List.filterMap_congr fun p _ => hplace p

/-- In another order the same candidates are weighed. -/
theorem exists_weighed_of_perm {other : OverloadSet} (hperm : other.candidates.Perm set.candidates) :
    ∃ weighed', (applicable args 0 other.candidates).outcome s' = (.ok weighed', s') := by
  obtain ⟨-, hsettled⟩ := outcome_applicable h (.refl s')
  refine exists_weighed_of_ranked 0 fun c hc => ?_
  obtain ⟨i, hi⟩ := List.getElem?_of_mem (hperm.subset hc)
  have hranked := hsettled c i (by simpa [List.mk_mem_zipIdx_iff_getElem?] using hi)
  rw [rankCandidate_place, Eval.outcome_map] at hranked
  rcases hrun : (rankCandidate 0 c args).outcome s' with ⟨stop | found, s₁⟩ <;> rw [hrun] at hranked
  · cases hranked
  · obtain rfl : s₁ = s' := (Prod.mk.inj hranked).2
    exact ⟨found, rfl⟩

/-- The choice is decided by the best of those that were weighed. -/
theorem chooseBest_of_weighed :
    (chooseBest set args).outcome s = (.ok (.ofBest (s'.types.bestCandidates weighed)), s') := by
  rw [chooseBest, Eval.outcome_bind_of_ok h]
  rfl

/-- No candidate is best only where none contends. -/
theorem eq_nil_iff_contenders : s'.types.bestCandidates weighed = [] ↔ s'.contenders set args = [] := by
  rw [TypeTable.bestCandidates_eq_nil_iff, ← map_moved_weighed h, List.map_eq_nil_iff]

/-- A candidate that was weighed stands at its place, and contends. -/
theorem weigh_of_mem_weighed {w : RankedCandidate} (hw : w ∈ weighed) :
    set.candidates[w.index]? = some w.candidate ∧ s'.weigh args 0 w.candidate = some (w.moved 0) := by
  obtain ⟨c, hc, hranked⟩ := (mem_weighed_iff h).mp hw
  obtain rfl := candidate_of_rankCandidate hranked
  have hweigh : s'.weigh args w.index w.candidate = some w := (outcome_eq_weigh hranked (.refl s')).1.symm
  refine ⟨hc, ?_⟩
  rw [s'.weigh_place] at hweigh
  obtain ⟨v, hv, hmoved⟩ := Option.map_eq_some_iff.mp hweigh
  rw [s'.weigh_place, hv, ← hmoved]
  rfl

/-- The one best contender, where there is one, decides whether choices in two orders agree. -/
theorem agrees_iff {other : OverloadSet} {weighed' : List RankedCandidate}
    (hperm : other.candidates.Perm set.candidates)
    (h' : (applicable args 0 other.candidates).outcome s' = (.ok weighed', s')) :
    Resolution.Agrees set other (.ofBest (s'.types.bestCandidates weighed))
        (.ofBest (s'.types.bestCandidates weighed')) ↔
      ∀ w, s'.types.bestCandidates (s'.contenders other args) = [w] ↔
        s'.types.bestCandidates (s'.contenders set args) = [w] := by
  have hnil : s'.types.bestCandidates weighed' = [] ↔ s'.types.bestCandidates weighed = [] := by
    rw [eq_nil_iff_contenders h, eq_nil_iff_contenders h']
    have hlength := (s'.contenders_perm hperm args).length_eq
    rw [← List.length_eq_zero_iff, ← List.length_eq_zero_iff, hlength]
  have hmem : ∀ b ∈ s'.types.bestCandidates weighed, b ∈ weighed := fun b hb => by
    simpa using TypeTable.mem_foldl_takeIn hb
  have hmem' : ∀ b ∈ s'.types.bestCandidates weighed', b ∈ weighed' := fun b hb => by
    simpa using TypeTable.mem_foldl_takeIn hb
  rw [← map_moved_weighed h, ← map_moved_weighed h', TypeTable.bestCandidates_map_moved,
    TypeTable.bestCandidates_map_moved]
  -- none, one or several in the first order, against none, one or several in the second
  rcases hbest : s'.types.bestCandidates weighed with _ | ⟨b, _ | ⟨b₁, bs⟩⟩ <;>
    rcases hbest' : s'.types.bestCandidates weighed' with _ | ⟨b', _ | ⟨b₁', bs'⟩⟩ <;>
    simp only [hbest, hbest', reduceCtorEq, iff_false, iff_true, not_true_eq_false] at hnil <;>
    simp only [Resolution.ofBest, Resolution.Agrees, List.map_cons, List.map_nil, List.cons.injEq, reduceCtorEq,
      and_false, and_true, implies_true, false_iff, iff_false, forall_eq']
  -- one best candidate in both orders: it is the same contender
  obtain ⟨hplace, hweigh⟩ := weigh_of_mem_weighed h (hmem b (by simp [hbest]))
  obtain ⟨hplace', hweigh'⟩ := weigh_of_mem_weighed h' (hmem' b' (by simp [hbest']))
  constructor
  · rintro ⟨c, hc, hc'⟩
    obtain rfl := Option.some.inj (hplace.symm.trans hc)
    rw [Option.some.inj (hplace'.symm.trans hc'), hweigh] at hweigh'
    simp [Option.some.inj hweigh']
  · intro hsame
    have hmoved : b.moved 0 = b'.moved 0 := (hsame _).mp rfl
    have hcandidate : b.candidate = b'.candidate := congrArg (·.candidate) hmoved
    exact ⟨b.candidate, hplace, hcandidate ▸ hplace'⟩

variable (hdistinct : ∀ v w, s'.Applicable set args v → s'.Applicable set args w → v.index ≠ w.index →
  Descriptor.sameAll v.params w.params = false)
include hdistinct

theorem distinct_contenders : TypeTable.Distinct (s'.contenders set args) := by
  rw [← map_moved_weighed h, TypeTable.Distinct, List.pairwise_map]
  refine (weighed_pairwise h).imp_of_mem fun {v w} hv hw hne => ?_
  exact hdistinct v w ((mem_weighed_iff h).mp hv) ((mem_weighed_iff h).mp hw) hne

/-- Whether a candidate decides the choice is a matter of the contenders, whose places do not count. -/
theorem decisive_iff_contenders : s'.types.Decisive (s'.contenders set args) ↔ s'.Decisive set args := by
  have hprefer : ∀ v w : RankedCandidate, s'.types.prefer (v.moved 0) (w.moved 0) = s'.types.prefer v w :=
    fun _ _ => rfl
  rw [← map_moved_weighed h, TypeTable.Decisive, Store.Decisive]
  simp only [List.forall_mem_map, hprefer, mem_weighed_iff h]
  refine forall₂_congr fun w hw => ?_
  have hothers : ∀ p : Preference → Prop, ∀ q : RankedCandidate → Preference,
      (∀ v, s'.Applicable set args v → v.moved 0 ≠ w.moved 0 → p (q v)) ↔
        ∀ v, s'.Applicable set args v → v.index ≠ w.index → p (q v) := fun p q =>
    forall₂_congr fun v hv => by rw [hv.moved_ne_iff hdistinct hw]
  rw [hothers (· = .toSecond) (s'.types.prefer · w), hothers (· = .toFirst) (s'.types.prefer w ·)]

end Choice

/--
**When the order of the candidates does not matter.** Where no two applicable candidates have the same parameters, every
order of the candidates gives the same choice exactly when the applicable candidates are decisive.
-/
theorem chooseBest_orderFree_iff {set : OverloadSet} {args : List Script} {s s' : Store} {r : Resolution}
    (hroot : s.types.parents Standard.object = [])
    (h : (chooseBest set args).outcome s = (.ok r, s'))
    (hdistinct : ∀ v w, s'.Applicable set args v → s'.Applicable set args w → v.index ≠ w.index →
      Descriptor.sameAll v.params w.params = false) :
    s'.OrderFree set args r ↔ s'.Decisive set args := by
  obtain ⟨weighed, hrun, rfl⟩ := exists_weighed_of_chosen h
  have hroot' := parents_object_of_weighed hrun hroot
  have hranked : ∀ w ∈ s'.contenders set args, TypeTable.RankedBy (args.map s'.grade) w := by
    rw [← map_moved_weighed hrun, List.forall_mem_map]
    intro w hw
    have hw' := rankedBy_of_mem_weighed hrun hw
    exact ⟨hw'.length, hw'.ranks⟩
  -- orders of the candidates are orders of the contenders
  have hfree : s'.OrderFree set args (.ofBest (s'.types.bestCandidates weighed)) ↔
      ∀ others : List RankedCandidate, others.Perm (s'.contenders set args) → ∀ w,
        s'.types.bestCandidates others = [w] ↔ s'.types.bestCandidates (s'.contenders set args) = [w] := by
    constructor
    · intro hfree others hperm
      obtain ⟨other, hother, rfl⟩ := Store.exists_perm_contenders hperm
      obtain ⟨weighed', hrun'⟩ := exists_weighed_of_perm hrun hother
      obtain ⟨r', hchoice, hagrees⟩ := hfree other hother
      obtain rfl : r' = .ofBest (s'.types.bestCandidates weighed') :=
        Except.ok.inj (Prod.mk.inj (hchoice.symm.trans (chooseBest_of_weighed hrun'))).1
      exact (agrees_iff hrun hother hrun').mp hagrees
    · intro hfree other hother
      obtain ⟨weighed', hrun'⟩ := exists_weighed_of_perm hrun hother
      refine ⟨_, chooseBest_of_weighed hrun', (agrees_iff hrun hother hrun').mpr ?_⟩
      exact hfree _ (s'.contenders_perm hother args)
  rw [hfree, TypeTable.bestCandidates_orderFree_iff hroot' (s'.lawful_grades args) hranked
    (distinct_contenders hrun hdistinct)]
  exact decisive_iff_contenders hrun hdistinct

/-- A generic class, and an object of it. -/
def Store.boxes : Store :=
  { Store.declare (.standard {} false) { name := "demo.Box", kind := .ofClass, typeParams := ["T"] } with
    natives := #[.record "demo.Box" none []]
    objects := #[.proxy ⟨.ofInstance, .object ⟨0⟩, .plain "demo.Box", none⟩] }

def boxOrObject : List Descriptor := [.plain "demo.Box", .object]

def boxOfStringOrBox : List Descriptor := [.parameterized (.plain "demo.Box") [.string], .plain "demo.Box"]

/-- A box is preferred to any object in every order. Boxes of strings and boxes are different types, and each can stand
for the other: each of the two is chosen where it comes first. -/
theorem chooseBest_orderFree_boxes :
    Store.boxes.types.parents Standard.object = [] ∧
    (chooseBest (drawing boxOrObject) [.object ⟨0⟩]).outcome .boxes = (.ok (.resolved 0), .boxes) ∧
    Store.boxes.OrderFree (drawing boxOrObject) [.object ⟨0⟩] (.resolved 0) ∧
    (chooseBest (drawing boxOfStringOrBox) [.object ⟨0⟩]).outcome .boxes = (.ok (.resolved 0), .boxes) ∧
    ¬ Store.boxes.OrderFree (drawing boxOfStringOrBox) [.object ⟨0⟩] (.resolved 0) := by
  have hroot : Store.boxes.types.parents Standard.object = [] := by rfl
  have hplain : (applicable [.object ⟨0⟩] 0 (drawing boxOrObject).candidates).outcome .boxes
      = (.ok (drawn boxOrObject), .boxes) := by rfl
  have hgeneric : (applicable [.object ⟨0⟩] 0 (drawing boxOfStringOrBox).candidates).outcome .boxes
      = (.ok (drawn boxOfStringOrBox), .boxes) := by rfl
  have hchosen : (chooseBest (drawing boxOrObject) [.object ⟨0⟩]).outcome .boxes = (.ok (.resolved 0), .boxes) :=
    chooseBest_of_weighed hplain
  have hchosen' : (chooseBest (drawing boxOfStringOrBox) [.object ⟨0⟩]).outcome .boxes
      = (.ok (.resolved 0), .boxes) := chooseBest_of_weighed hgeneric
  have hdistinct : ∀ types ∈ [boxOrObject, boxOfStringOrBox], ∀ v ∈ drawn types, ∀ w ∈ drawn types,
      v.index ≠ w.index → Descriptor.sameAll v.params w.params = false := by decide +kernel
  refine ⟨hroot, hchosen, ?_, hchosen', ?_⟩
  · have hapart : ∀ v ∈ drawn boxOrObject, ∀ w ∈ drawn boxOrObject, Store.boxes.types.ToldApart v w := by
      decide +kernel
    have hiff := chooseBest_orderFree_iff hroot hchosen fun v w hv hw =>
      hdistinct _ (by simp) v ((mem_weighed_iff hplain).mpr hv) w ((mem_weighed_iff hplain).mpr hw)
    exact hiff.mpr (Store.decisive_of_toldApart fun v w hv hw =>
      hapart v ((mem_weighed_iff hplain).mpr hv) w ((mem_weighed_iff hplain).mpr hw))
  · have hiff := chooseBest_orderFree_iff hroot hchosen' fun v w hv hw =>
      hdistinct _ (by simp) v ((mem_weighed_iff hgeneric).mpr hv) w ((mem_weighed_iff hgeneric).mpr hw)
    -- the first covers the second, and is not preferred to it
    have hcovers : ∃ w ∈ drawn boxOfStringOrBox,
        (∀ v ∈ drawn boxOfStringOrBox, v.index ≠ w.index → Store.boxes.types.prefer v w = .toSecond) ∧
        ∃ v ∈ drawn boxOfStringOrBox, v.index ≠ w.index ∧ Store.boxes.types.prefer w v ≠ .toFirst := by
      decide +kernel
    obtain ⟨w, hw, hcovers, v, hv, hne, hnot⟩ := hcovers
    intro hfree
    refine hnot (hiff.mp hfree w ((mem_weighed_iff hgeneric).mp hw) (fun x hx => ?_) v
      ((mem_weighed_iff hgeneric).mp hv) hne)
    exact hcovers x ((mem_weighed_iff hgeneric).mpr hx)

end Interop
