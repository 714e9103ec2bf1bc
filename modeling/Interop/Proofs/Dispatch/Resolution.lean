import Interop.Dispatch.Resolution
import Interop.Proofs.Coercion.Ranking
import Interop.Proofs.Dispatch.Ranking
import Interop.Store.Declare

/-!
# The candidate that is chosen

`chooseBest` ranks the candidates one after the other and folds those that can take the arguments. Ranking is
repeatable, so all of them may be thought of as ranked in the store that is left, and there the ranks come from one
grading for each argument. That is what the theory of the fold asks for.

* **`Store.weigh`**: how a candidate ranks in a settled store.
* **`outcome_applicable`**: the candidates that are folded are those that weigh something.
* **`rankedBy_of_rankCandidate`**: their ranks are grades of their parameter types.
* **`chooseBest_undominated`**: who is chosen.
-/

namespace Interop

/-! ## Ranking a candidate -/

/-- Expanded parameters are as many as the arguments. -/
theorem Callable.length_paramsFor? {c : Callable} {kinds : List ValueKind} {params : List Descriptor}
    (h : c.paramsFor? kinds = some params) : params.length = kinds.length := by
  unfold paramsFor? at h
  split at h
  · split at h
    · obtain rfl := Option.some.inj h
      omega
    · cases h
  · dsimp only at h
    split at h
    · cases h
    · split at h
      · obtain rfl := Option.some.inj h
        omega
      · -- the last parameter is repeated for what the fixed ones leave over
        obtain ⟨last, hlast, component, -, rfl⟩ : ∃ last, c.params[c.params.length - 1]? = some last ∧
            ∃ component, last.component? = some component ∧
              c.params.take (c.params.length - 1) ++
                List.replicate (kinds.length - (c.params.length - 1)) component = params := by
          simpa [Option.bind_eq_bind, Option.bind_eq_some_iff] using h
        rw [List.length_append, List.length_take, List.length_replicate]
        omega

/-- Ranking the arguments again gives the same ranks. -/
theorem rankAll_repeatable : (args : List Script) → (params : List Descriptor) → (rankAll args params).Repeatable
  | arg :: args, param :: params => by
    rw [rankAll]
    exact (rankOf_repeatable arg param).bind fun _ => (rankAll_repeatable args params).bind fun _ => .pure _
  | [], _ => .pure _
  | _ :: _, [] => .pure _

theorem rankCandidate_repeatable (index : Nat) (c : Callable) (args : List Script) :
    (rankCandidate index c args).Repeatable := by
  rw [rankCandidate]
  refine .get_bind (fun _ _ _ => rfl) fun s => ?_
  cases c.paramsFor? (args.map s.kindOf) with
  | none => exact .pure none
  | some params => exact (rankAll_repeatable args params).bind fun _ => .pure _

/-- The ranks of arguments are the grades of the parameter types, taken at any later time. -/
theorem ranks_eq_gradesOf {s'' : Store} : ∀ {args : List Script} {params : List Descriptor} {ranks : List Rank}
    {s s' : Store}, (rankAll args params).outcome s = (.ok ranks, s') → s'.Later s'' →
      ranks = TypeTable.gradesOf (args.map s''.grade) params
  | arg :: args, param :: params, ranks, s, s', h, hlater => by
    rw [rankAll] at h
    obtain ⟨_, _, hstop⟩ | ⟨rank, s₁, hfirst, hrest⟩ := Eval.outcome_bind_cases h
    · cases hstop
    obtain ⟨_, _, hstop⟩ | ⟨others, s₂, hothers, hpure⟩ := Eval.outcome_bind_cases hrest
    · cases hstop
    cases hpure
    -- the first rank has been settled before the others were asked for
    have hsettles : s₁.Later s'' := ((rankAll_repeatable args params).settles hothers).later.trans hlater
    have hgrade : s''.grade arg param = rank :=
      Store.grade_of_outcome ((rankOf_repeatable arg param).again hfirst hsettles)
    rw [List.map_cons, TypeTable.gradesOf, List.zipWith_cons_cons, hgrade, ranks_eq_gradesOf hothers hlater]
    rfl
  | [], _, ranks, s, s', h, _ => by
    cases h
    rfl
  | _ :: _, [], ranks, s, s', h, _ => by
    cases h
    rfl

/-- The gradings of arguments do not tell types apart that are the same. -/
theorem Store.lawful_grades (s : Store) (args : List Script) : TypeTable.Lawful (args.map s.grade) := by
  intro grade hgrade d d' hsame
  obtain ⟨arg, -, rfl⟩ := List.mem_map.mp hgrade
  exact s.grade_congr arg hsame

/-- A candidate that can take the arguments carries its place, itself, and the grades of its parameter types. -/
theorem rankedBy_of_rankCandidate {index : Nat} {c : Callable} {args : List Script} {w : RankedCandidate}
    {s s' s'' : Store} (h : (rankCandidate index c args).outcome s = (.ok (some w), s')) (hlater : s'.Later s'') :
    w.index = index ∧ TypeTable.RankedBy (args.map s''.grade) w := by
  rw [rankCandidate, Eval.outcome_get_bind] at h
  cases hparams : c.paramsFor? (args.map s.kindOf) with
  | none =>
    rw [hparams] at h
    cases h
  | some params =>
    rw [hparams] at h
    dsimp only at h
    obtain ⟨_, _, hstop⟩ | ⟨ranks, s₁, hranks, hpure⟩ := Eval.outcome_bind_cases h
    · cases hstop
    obtain ⟨hw, rfl⟩ := Prod.mk.inj hpure
    split at hw
    · cases hw
    · cases hw
      exact ⟨rfl, by simpa using Callable.length_paramsFor? hparams, ranks_eq_gradesOf hranks hlater⟩

/-! ## All candidates -/

theorem applicable_repeatable (args : List Script) :
    (index : Nat) → (candidates : List Callable) → (applicable args index candidates).Repeatable
  | _, [] => .pure _
  | index, c :: rest => by
    rw [applicable]
    exact (rankCandidate_repeatable index c args).bind fun _ =>
      (applicable_repeatable args (index + 1) rest).bind fun _ => .pure _

/-- How a candidate ranks, in a store where everything that ranking asks for is settled. -/
def Store.weigh (s : Store) (args : List Script) (index : Nat) (c : Callable) : Option RankedCandidate :=
  ((rankCandidate index c args).outcome s).1.toOption.join

/-- What a candidate weighed when it was ranked, it weighs in every later store. -/
theorem outcome_eq_weigh {args : List Script} {index : Nat} {c : Callable} {s s' s'' : Store}
    {candidate : Option RankedCandidate} (h : (rankCandidate index c args).outcome s = (.ok candidate, s'))
    (hlater : s'.Later s'') :
    candidate = s''.weigh args index c ∧
      (rankCandidate index c args).outcome s'' = (.ok (s''.weigh args index c), s'') := by
  have hagain := (rankCandidate_repeatable index c args).again h hlater
  have hweigh : s''.weigh args index c = candidate := by
    rw [Store.weigh, hagain]
    rfl
  exact ⟨hweigh.symm, hweigh ▸ hagain⟩

/-- A candidate that is weighed keeps its place. -/
theorem Store.index_of_weigh {s : Store} {args : List Script} {index : Nat} {c : Callable} {w : RankedCandidate}
    (h : s.weigh args index c = some w) : w.index = index := by
  rw [weigh] at h
  rcases hrun : (rankCandidate index c args).outcome s with ⟨stop | candidate, s'⟩ <;> rw [hrun] at h
  · cases h
  · obtain rfl : candidate = some w := h
    exact (rankedBy_of_rankCandidate hrun (.refl s')).1

/-- All candidates rank, each as it does at any later time, or one that does not rank ends it all. -/
theorem outcome_applicable {args : List Script} {s'' : Store} :
    ∀ {candidates : List Callable} {index : Nat} {s s' : Store} {result : Except Stop (List RankedCandidate)},
      (applicable args index candidates).outcome s = (result, s') → s'.Later s'' →
      match result with
      | .ok weighed => weighed = (candidates.zipIdx index).filterMap (fun (c, i) => s''.weigh args i c) ∧
          ∀ c i, (c, i) ∈ candidates.zipIdx index →
            (rankCandidate i c args).outcome s'' = (.ok (s''.weigh args i c), s'')
      | .error stop => ∃ c i, (c, i) ∈ candidates.zipIdx index ∧
          (rankCandidate i c args).outcome s'' = (.error stop, s'')
  | [], index, s, s', result, h, _ => by
    cases h
    exact ⟨rfl, by simp⟩
  | c :: rest, index, s, s', result, h, hlater => by
    rw [applicable] at h
    obtain ⟨stop, hfirst, rfl⟩ | ⟨candidate, s₁, hfirst, hrest⟩ := Eval.outcome_bind_cases h
    · exact ⟨c, index, by simp, (rankCandidate_repeatable index c args).again hfirst hlater⟩
    obtain ⟨stop, hothers, rfl⟩ | ⟨others, s₂, hothers, hpure⟩ := Eval.outcome_bind_cases hrest
    · obtain ⟨c', i, hmem, hstop⟩ := outcome_applicable hothers hlater
      exact ⟨c', i, by rw [List.zipIdx_cons]; exact List.mem_cons_of_mem _ hmem, hstop⟩
    cases hpure
    -- the others are ranked after the first, which settles nothing anew
    have hsettles : s₁.Later s'' :=
      ((applicable_repeatable args (index + 1) rest).settles hothers).later.trans hlater
    obtain ⟨rfl, hagain⟩ := outcome_eq_weigh hfirst hsettles
    obtain ⟨rfl, hranked⟩ := outcome_applicable hothers hlater
    rw [List.zipIdx_cons]
    refine ⟨?_, fun c' i hmem => ?_⟩
    · rw [List.filterMap_cons]
      dsimp only
      cases s''.weigh args index c <;> rfl
    · rcases List.mem_cons.mp hmem with heq | hmem
      · cases heq
        exact hagain
      · exact hranked c' i hmem

/-! ## The choice

A candidate is applicable when ranking it in the store that the choice leaves gives something. Ranking it there gives
what it gave during the choice. -/

/-- The candidate of a set that stands at `w.index` can take the arguments, and ranks as `w`. -/
def Store.Applicable (s : Store) (set : OverloadSet) (args : List Script) (w : RankedCandidate) : Prop :=
  ∃ c, set.candidates[w.index]? = some c ∧ (rankCandidate w.index c args).outcome s = (.ok (some w), s)

/-- What a choice among the candidates that can take the arguments has to be. -/
structure Store.Undominated (s : Store) (set : OverloadSet) (args : List Script) (r : Resolution) : Prop where
  /-- There is no match exactly when no candidate is applicable. -/
  noMatch_iff : r = .noMatch ↔ ∀ w, ¬ s.Applicable set args w
  /-- Who is chosen is applicable, and no other candidate is preferred to it. -/
  unbeaten : ∀ i, r = .resolved i → ∃ w, s.Applicable set args w ∧ w.index = i ∧
    ∀ v, s.Applicable set args v → v.index ≠ i →
      s.types.prefer v w = .toSecond ∨ s.types.prefer v w = .equal
  /-- Who is preferred to all others is chosen. -/
  champion : ∀ w, s.Applicable set args w →
    (∀ v, s.Applicable set args v → v.index ≠ w.index → s.types.prefer w v = .toFirst) → r = .resolved w.index

section Choice

variable {set : OverloadSet} {args : List Script} {s s' : Store} {weighed : List RankedCandidate}
  (h : (applicable args 0 set.candidates).outcome s = (.ok weighed, s'))
include h

/-- The list of those that were weighed holds exactly the applicable candidates. -/
theorem mem_weighed_iff {w : RankedCandidate} : w ∈ weighed ↔ s'.Applicable set args w := by
  obtain ⟨rfl, hsettled⟩ := outcome_applicable h (.refl s')
  rw [List.mem_filterMap]
  constructor
  · rintro ⟨⟨c, i⟩, hmem, hweigh⟩
    have hranked := hsettled c i hmem
    dsimp only at hweigh
    rw [hweigh] at hranked
    obtain ⟨rfl, -⟩ := rankedBy_of_rankCandidate hranked (.refl s')
    exact ⟨c, by simpa [List.mk_mem_zipIdx_iff_getElem?] using hmem, hranked⟩
  · rintro ⟨c, hc, hranked⟩
    refine ⟨(c, w.index), by simpa [List.mk_mem_zipIdx_iff_getElem?] using hc, ?_⟩
    exact (outcome_eq_weigh hranked (.refl s')).1.symm

theorem weighed_pairwise : weighed.Pairwise (·.index ≠ ·.index) := by
  obtain ⟨rfl, hsettled⟩ := outcome_applicable h (.refl s')
  have hplaces : (set.candidates.zipIdx 0).Pairwise (·.2 ≠ ·.2) := by
    rw [← List.pairwise_map, List.zipIdx_map_snd]
    exact List.nodup_range'
  refine hplaces.filterMap _ fun p q hne v hv w hw => ?_
  rwa [Store.index_of_weigh hv, Store.index_of_weigh hw]

/-- The candidates that are weighed are ranked by the same gradings. -/
theorem rankedBy_of_mem_weighed {w : RankedCandidate} (hw : w ∈ weighed) :
    TypeTable.RankedBy (args.map s'.grade) w := by
  obtain ⟨c, -, hranked⟩ := (mem_weighed_iff h).mp hw
  exact (rankedBy_of_rankCandidate hranked (.refl s')).2

/-- What is made of the best of those that were weighed is undominated. -/
theorem weighed_undominated (hroot : s'.types.parents Standard.object = []) :
    s'.Undominated set args (.ofBest (s'.types.bestCandidates weighed)) := by
  have hbest : ∀ b ∈ s'.types.bestCandidates weighed, b ∈ weighed := by
    intro b hb
    simpa using TypeTable.mem_foldl_takeIn hb
  refine ⟨?_, ?_, ?_⟩
  · have hnil : (.ofBest (s'.types.bestCandidates weighed) : Resolution) = .noMatch ↔ weighed = [] := by
      rw [← TypeTable.bestCandidates_eq_nil_iff s'.types weighed]
      rcases s'.types.bestCandidates weighed with _ | ⟨b, _ | ⟨b', bs⟩⟩ <;> simp [Resolution.ofBest]
    rw [hnil, List.eq_nil_iff_forall_not_mem]
    exact forall_congr' fun w => not_congr (mem_weighed_iff h)
  · intro i hi
    rcases hone : s'.types.bestCandidates weighed with _ | ⟨b, _ | ⟨b', bs⟩⟩ <;> rw [hone] at hi <;> cases hi
    have hb : b ∈ weighed := hbest b (by simp [hone])
    refine ⟨b, (mem_weighed_iff h).mp hb, rfl, fun v hv _ => ?_⟩
    -- there is only one candidate left to cover the other
    obtain ⟨b', hb', hcovers⟩ := TypeTable.bestCandidates_covered hroot (s'.lawful_grades args)
      (fun _ => rankedBy_of_mem_weighed h) ((mem_weighed_iff h).mpr hv)
    rw [hone, List.mem_singleton] at hb'
    subst hb'
    exact Preference.first_eq_false_iff.mp hcovers
  · intro w hw hbeats
    obtain ⟨before, after, rfl⟩ := List.append_of_mem ((mem_weighed_iff h).mpr hw)
    have hothers : ∀ c ∈ before ++ after, c.index ≠ w.index := by
      have hpairwise := weighed_pairwise h
      intro c hc
      rw [List.pairwise_append, List.pairwise_cons] at hpairwise
      rcases List.mem_append.mp hc with hc | hc
      · exact hpairwise.2.2 c hc w (by simp)
      · exact (hpairwise.2.1.1 c hc).symm
    have hprefer : ∀ c ∈ before ++ after, s'.types.prefer w c = .toFirst := fun c hc =>
      hbeats c ((mem_weighed_iff h).mp (by simp at hc ⊢; tauto)) (hothers c hc)
    rw [TypeTable.bestCandidates_champion (fun c hc => hprefer c (by simp [hc])) (fun c hc => hprefer c (by simp [hc]))]
    rfl

end Choice

/--
Where the root type has no parents, the choice among any candidates for any arguments is undominated, and it is made
unless one of the candidates cannot be ranked at all.
-/
theorem chooseBest_undominated (s : Store) (hroot : s.types.parents Standard.object = []) (set : OverloadSet)
    (args : List Script) :
    match (chooseBest set args).outcome s with
    | (.ok r, s') => s'.Undominated set args r
    | (.error stop, s') => ∃ i c, set.candidates[i]? = some c ∧
        (rankCandidate i c args).outcome s' = (.error stop, s') := by
  rw [chooseBest]
  rcases hrun : (applicable args 0 set.candidates).outcome s with ⟨stop | weighed, s'⟩
  · rw [Eval.outcome_bind_of_error hrun]
    obtain ⟨c, i, hmem, hstop⟩ := outcome_applicable hrun (.refl s')
    exact ⟨i, c, by simpa [List.mk_mem_zipIdx_iff_getElem?] using hmem, hstop⟩
  · rw [Eval.outcome_bind_of_ok hrun]
    have htypes : s'.types = s.types := ((applicable_repeatable args 0 set.candidates).settles hrun).types_eq
    exact weighed_undominated hrun (htypes ▸ hroot)

/-- Three static methods of one name, for every value, for strings and for integers. -/
def shownAs : OverloadSet :=
  let taking (param : Descriptor) : Callable :=
    { name := "show", declaring := .ofName "demo.Text", params := [param], returnType := .string,
      flags := { isPublic := true, isStatic := true }, invoker := .host "show" (.argument 0) }
  ⟨"show", [taking .object, taking .string, taking (.numeric .int)]⟩

/-- All three can take a string, and the one for strings is chosen. -/
theorem chooseBest_undominated_shownAs :
    StandardType.table.parents Standard.object = [] ∧
    (chooseBest shownAs [.string "1"]).outcome (.standard {} false) = (.ok (.resolved 1), .standard {} false) ∧
    (Store.standard {} false).Undominated shownAs [.string "1"] (.resolved 1) := by
  have hroot : (Store.standard {} false).types.parents Standard.object = [] := by rfl
  have hrun : (chooseBest shownAs [.string "1"]).outcome (.standard {} false)
      = (.ok (.resolved 1), .standard {} false) := by rfl
  have hchoice := chooseBest_undominated (.standard {} false) hroot shownAs [.string "1"]
  rw [hrun] at hchoice
  exact ⟨hroot, hrun, hchoice⟩

end Interop
