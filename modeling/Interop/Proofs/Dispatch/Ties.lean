import Interop.Proofs.Dispatch.Resolution

/-!
# What an ambiguity report lists

When several candidates are best, their places are reported. A newcomer is compared with the best candidates in order,
up to the first undecided one, and one that joins them drives nobody out. So a report may keep a candidate after one
that is preferred to it has come in, and may hold two candidates with the same parameters.

* **`TypeTable.ToldApart`**: no position has different types that can each stand for the other. Between candidates that
  are told apart, preference is mirrored when they change places (`prefer_mirror`).
* **`TypeTable.prefer_eq_equal_iff`**: nothing tells candidates apart exactly when they have the same parameters.
* **`Store.ListsTied`**: a report that lists the tied best candidates and no others.
* **`chooseBest_listsTied_iff`**: when a report does so.
-/

namespace Interop

namespace Preference

/-- The preference when the two candidates change places. -/
def mirror (p : Preference) : Preference := ⟨p.second, p.first⟩

@[simp] theorem mirror_both (a b : Preference) : (a.both b).mirror = a.mirror.both b.mirror := rfl

theorem eq_of_ne {p : Preference} (hfirst : p ≠ .toFirst) (hsecond : p ≠ .toSecond) (hequal : p ≠ .equal) :
    p = .undecided := by
  obtain ⟨first, second⟩ := p
  cases first <;> cases second <;> simp_all [toFirst, toSecond, equal, undecided]

end Preference

namespace TypeTable

/-! ## Changing places -/

theorem preferAt_mirror {t : TypeTable} {d₁ d₂ : Descriptor}
    (h : t.isAssignable d₁ d₂ = true → t.isAssignable d₂ d₁ = true → (d₁ == d₂) = true) (r₁ r₂ : Rank) :
    t.preferAt d₂ d₁ r₂ r₁ = (t.preferAt d₁ d₂ r₁ r₂).mirror := by
  rw [preferAt, preferAt, Descriptor.beq_comm d₂ d₁]
  by_cases hsame : (d₁ == d₂) = true
  · simp [hsame, Preference.equal, Preference.mirror]
  have hone : ¬ (t.isAssignable d₁ d₂ = true ∧ t.isAssignable d₂ d₁ = true) := fun hboth => hsame (h hboth.1 hboth.2)
  rcases Nat.lt_trichotomy r₁.value r₂.value with hlt | heq | hgt
  · have hnot : ¬ r₂.value < r₁.value := by omega
    simp [hsame, hlt, hnot, Preference.toFirst, Preference.toSecond, Preference.mirror]
  · -- equal ranks: among instances the more specific type, of which there is at most one
    obtain rfl : r₁ = r₂ := by
      cases r₁
      cases r₂
      exact congrArg Rank.mk heq
    by_cases hup : t.isAssignable d₁ d₂ = true
    · have hdown : t.isAssignable d₂ d₁ = false := by simpa [hup] using hone
      simp only [hsame, hup, hdown, Nat.lt_irrefl, if_false, if_true, Bool.false_eq_true]
      split <;> rfl
    · simp only [hsame, hup, Nat.lt_irrefl, if_false, Bool.false_eq_true]
      split
      · split <;> rfl
      · rfl
  · have hnot : ¬ r₁.value < r₂.value := by omega
    simp [hsame, hgt, hnot, Preference.toFirst, Preference.toSecond, Preference.mirror]

/-- Types in the same position that can each stand for the other are the same. -/
def ToldApart (t : TypeTable) (a b : RankedCandidate) : Prop :=
  ∀ p ∈ a.params.zip b.params,
    t.isAssignable p.1 p.2 = true → t.isAssignable p.2 p.1 = true → (p.1 == p.2) = true

instance (t : TypeTable) (a b : RankedCandidate) : Decidable (t.ToldApart a b) :=
  inferInstanceAs (Decidable (∀ p ∈ a.params.zip b.params,
    t.isAssignable p.1 p.2 = true → t.isAssignable p.2 p.1 = true → (p.1 == p.2) = true))

theorem preferPositions_mirror {t : TypeTable} : ∀ {as bs : List Descriptor} {rs qs : List Rank},
    (∀ p ∈ as.zip bs, t.isAssignable p.1 p.2 = true → t.isAssignable p.2 p.1 = true → (p.1 == p.2) = true) →
      t.preferPositions bs as qs rs = (t.preferPositions as bs rs qs).mirror
  | a :: as, b :: bs, r :: rs, q :: qs, h => by
    rw [List.zip_cons_cons, List.forall_mem_cons] at h
    rw [preferPositions, preferPositions, Preference.mirror_both, preferAt_mirror h.1, preferPositions_mirror h.2]
  | [], _, _, _, _ => by simp [preferPositions, Preference.equal, Preference.mirror]
  | _ :: _, [], _, _, _ => by simp [preferPositions, Preference.equal, Preference.mirror]
  | _ :: _, _ :: _, [], _, _ => by simp [preferPositions, Preference.equal, Preference.mirror]
  | _ :: _, _ :: _, _ :: _, [], _ => by simp [preferPositions, Preference.equal, Preference.mirror]

/-- **Preference is mirrored** between candidates that are told apart. -/
theorem prefer_mirror {t : TypeTable} {a b : RankedCandidate} (h : t.ToldApart a b) :
    t.prefer b a = (t.prefer a b).mirror := preferPositions_mirror h

theorem prefer_toFirst_of_toSecond {t : TypeTable} {a b : RankedCandidate} (hapart : t.ToldApart a b)
    (h : t.prefer a b = .toSecond) : t.prefer b a = .toFirst := by
  rw [prefer_mirror hapart, h]
  rfl

/-! ## The same parameters -/

theorem preferAt_eq_equal_iff {t : TypeTable} {d₁ d₂ : Descriptor} {r₁ r₂ : Rank} :
    t.preferAt d₁ d₂ r₁ r₂ = .equal ↔ (d₁ == d₂) = true := by
  rw [preferAt]
  by_cases hsame : (d₁ == d₂) = true
  · simp [hsame]
  · -- every other outcome has a winner or leaves it open
    rw [if_neg hsame]
    refine iff_of_false ?_ hsame
    split
    · decide
    · split
      · decide
      · split
        · split
          · decide
          · split <;> decide
        · decide

theorem preferPositions_eq_equal_iff {t : TypeTable} : ∀ {as bs : List Descriptor} {rs qs : List Rank},
    as.length = rs.length → bs.length = qs.length → as.length = bs.length →
      (t.preferPositions as bs rs qs = .equal ↔ Descriptor.sameAll as bs = true)
  | [], [], [], [], _, _, _ => by simp [preferPositions, Descriptor.sameAll]
  | a :: as, b :: bs, r :: rs, q :: qs, has, hbs, hab => by
    simp only [List.length_cons, Nat.add_right_cancel_iff] at has hbs hab
    have hboth : ∀ x y : Preference, x.both y = .equal ↔ x = .equal ∧ y = .equal := by
      rintro ⟨_ | _, _ | _⟩ ⟨_ | _, _ | _⟩ <;> decide
    rw [preferPositions, hboth, preferAt_eq_equal_iff, preferPositions_eq_equal_iff has hbs hab, Descriptor.sameAll,
      Bool.and_eq_true]
    exact Iff.rfl

theorem length_gradesOf {grades : List (Descriptor → Rank)} {params : List Descriptor}
    (h : params.length = grades.length) : (gradesOf grades params).length = params.length := by
  rw [gradesOf, List.length_zipWith]
  omega

/-- **Nothing tells candidates apart exactly when they have the same parameters.** -/
theorem prefer_eq_equal_iff {t : TypeTable} {grades : List (Descriptor → Rank)} {a b : RankedCandidate}
    (ha : RankedBy grades a) (hb : RankedBy grades b) :
    t.prefer a b = .equal ↔ Descriptor.sameAll a.params b.params = true := by
  have hranksA : a.params.length = a.ranks.length := by rw [ha.ranks, length_gradesOf ha.length]
  have hranksB : b.params.length = b.ranks.length := by rw [hb.ranks, length_gradesOf hb.length]
  exact preferPositions_eq_equal_iff hranksA hranksB (ha.length.trans hb.length.symm)

/-! ## No place twice -/

theorem nodup_takeIn {t : TypeTable} {best : List RankedCandidate} {newcomer : RankedCandidate}
    (hbest : (best.map (·.index)).Nodup) (hnew : newcomer.index ∉ best.map (·.index)) :
    ((t.takeIn best newcomer).map (·.index)).Nodup := by
  rcases t.takeIn_cases best newcomer with
    ⟨-, -, heq⟩ | ⟨-, -, heq⟩ | ⟨before, twin, after, rfl, -, -, heq⟩ | ⟨-, heq⟩ <;> rw [heq]
  · exact List.nodup_singleton _
  · exact hbest
  · split
    · -- the newcomer stands where the twin stood
      simp only [List.map_append, List.map_cons, List.nodup_append, List.nodup_cons, List.mem_append, List.mem_cons]
        at hbest hnew ⊢
      grind
    · exact hbest
  · rw [List.map_append, List.nodup_append]
    refine ⟨hbest, List.nodup_singleton _, ?_⟩
    rintro i hi _ hsingle rfl
    rw [List.map_singleton, List.mem_singleton] at hsingle
    exact hnew (hsingle ▸ hi)

theorem nodup_foldl_takeIn {t : TypeTable} : ∀ {candidates best : List RankedCandidate},
    ((best ++ candidates).map (·.index)).Nodup → ((candidates.foldl t.takeIn best).map (·.index)).Nodup
  | [], best, h => by simpa using h
  | newcomer :: candidates, best, h => by
    rw [List.foldl_cons]
    refine nodup_foldl_takeIn ?_
    simp only [List.map_append, List.map_cons, List.nodup_append, List.nodup_cons] at h ⊢
    obtain ⟨hbest, ⟨hnew, hrest⟩, hapart⟩ := h
    have hfresh : newcomer.index ∉ best.map (·.index) := fun hmem => hapart _ hmem _ List.mem_cons_self rfl
    refine ⟨nodup_takeIn hbest hfresh, hrest, ?_⟩
    intro i hi j hj
    obtain ⟨b, hb, rfl⟩ := List.mem_map.mp hi
    rcases mem_takeIn hb with rfl | hb
    · rintro rfl
      exact hnew hj
    · exact hapart _ (List.mem_map_of_mem hb) j (List.mem_cons_of_mem _ hj)

end TypeTable

/-! ## The report -/

/-- A report lists applicable candidates, each once, to which no applicable candidate is preferred and no two of which
have the same parameters; and every candidate to which none is preferred is listed, or has the parameters of one that
is. -/
structure Store.ListsTied (s : Store) (set : OverloadSet) (args : List Script) (indices : List Nat) : Prop where
  nodup : indices.Nodup
  applicable : ∀ i ∈ indices, ∃ w, s.Applicable set args w ∧ w.index = i
  unbeaten : ∀ v w, s.Applicable set args v → s.Applicable set args w → w.index ∈ indices →
    s.types.prefer v w ≠ .toFirst
  distinct : ∀ v w, s.Applicable set args v → s.Applicable set args w → v.index ∈ indices → w.index ∈ indices →
    v.index ≠ w.index → Descriptor.sameAll v.params w.params = false
  complete : ∀ w, s.Applicable set args w → (∀ v, s.Applicable set args v → s.types.prefer v w ≠ .toFirst) →
    w.index ∈ indices ∨
      ∃ v, s.Applicable set args v ∧ v.index ∈ indices ∧ Descriptor.sameAll v.params w.params = true

/-- One place has one candidate. -/
theorem Store.Applicable.eq_of_index {s : Store} {set : OverloadSet} {args : List Script} {v w : RankedCandidate}
    (hv : s.Applicable set args v) (hw : s.Applicable set args w) (h : v.index = w.index) : v = w := by
  obtain ⟨c, hc, hrankedV⟩ := hv
  obtain ⟨c', hc', hrankedW⟩ := hw
  rw [h, hc'] at hc
  cases hc
  rw [h, hrankedW] at hrankedV
  cases hrankedV
  rfl

section Report

variable {set : OverloadSet} {args : List Script} {s s' : Store}

/-- What a choice was made of: the candidates that were weighed, and the best of them. -/
theorem exists_weighed_of_chosen {r : Resolution} (h : (chooseBest set args).outcome s = (.ok r, s')) :
    ∃ weighed, (applicable args 0 set.candidates).outcome s = (.ok weighed, s') ∧
      r = .ofBest (s'.types.bestCandidates weighed) := by
  rw [chooseBest] at h
  obtain ⟨stop, -, hstop⟩ | ⟨weighed, s₁, hrun, hrest⟩ := Eval.outcome_bind_cases h
  · cases hstop
  · cases hrest
    exact ⟨weighed, hrun, rfl⟩

theorem Resolution.eq_of_ofBest {best : List RankedCandidate} {indices : List Nat}
    (h : Resolution.ambiguous indices = .ofBest best) : indices = best.map (·.index) := by
  rcases best with _ | ⟨b, _ | ⟨b', bs⟩⟩ <;> cases h
  rfl

variable {weighed : List RankedCandidate} (hrun : (applicable args 0 set.candidates).outcome s = (.ok weighed, s'))
include hrun

theorem parents_object_of_weighed (hroot : s.types.parents Standard.object = []) :
    s'.types.parents Standard.object = [] := by
  rw [((applicable_repeatable args 0 set.candidates).settles hrun).types_eq]
  exact hroot

theorem applicable_of_mem_best {b : RankedCandidate} (hb : b ∈ s'.types.bestCandidates weighed) :
    s'.Applicable set args b :=
  (mem_weighed_iff hrun).mp ((TypeTable.mem_foldl_takeIn hb).resolve_left List.not_mem_nil)

theorem nodup_best : ((s'.types.bestCandidates weighed).map (·.index)).Nodup := by
  have hweighed : (weighed.map (·.index)).Nodup := List.pairwise_map.mpr (weighed_pairwise hrun)
  apply TypeTable.nodup_foldl_takeIn
  exact hweighed

variable (hroot : s'.types.parents Standard.object = [])
include hroot

/-- Every applicable candidate is covered by a listed one. -/
theorem exists_listed_covers {v : RankedCandidate} (hv : s'.Applicable set args v) :
    ∃ b, s'.Applicable set args b ∧ b.index ∈ (s'.types.bestCandidates weighed).map (·.index) ∧
      s'.types.Covers b v := by
  obtain ⟨b, hb, hcovers⟩ := TypeTable.bestCandidates_covered hroot (s'.lawful_grades args)
    (fun _ => rankedBy_of_mem_weighed hrun) ((mem_weighed_iff hrun).mpr hv)
  exact ⟨b, applicable_of_mem_best hrun hb, List.mem_map_of_mem hb, hcovers⟩

/-- Where the listed candidates are undecided among each other, none is preferred to a listed one: it would be covered
by another listed candidate, which is then nowhere worse either. -/
theorem unbeaten_of_undecided
    (hundecided : ∀ v w, s'.Applicable set args v → s'.Applicable set args w →
      v.index ∈ (s'.types.bestCandidates weighed).map (·.index) →
      w.index ∈ (s'.types.bestCandidates weighed).map (·.index) → v.index ≠ w.index →
      s'.types.prefer v w = .undecided)
    {v w : RankedCandidate} (hv : s'.Applicable set args v) (hw : s'.Applicable set args w)
    (hlisted : w.index ∈ (s'.types.bestCandidates weighed).map (·.index)) : s'.types.prefer v w ≠ .toFirst := by
  intro hfirst
  have hranked : ∀ x, s'.Applicable set args x → TypeTable.RankedBy (args.map s'.grade) x :=
    fun x hx => rankedBy_of_mem_weighed hrun ((mem_weighed_iff hrun).mpr hx)
  obtain ⟨b, hb, hblisted, hcovers⟩ := exists_listed_covers hrun hroot hv
  by_cases hsame : b.index = w.index
  · -- the listed candidate would cover the one that is preferred to it
    obtain rfl := hb.eq_of_index hw hsame
    rw [TypeTable.Covers, hfirst] at hcovers
    cases hcovers
  · have hvw : s'.types.Covers v w := by
      rw [TypeTable.Covers, TypeTable.prefer_toSecond_of_toFirst hfirst]
      rfl
    have hbw : s'.types.Covers b w := TypeTable.covers_trans hroot (s'.lawful_grades args) (hranked b hb)
      (hranked v hv) (hranked w hw) hcovers hvw
    rw [TypeTable.Covers, hundecided w b hw hb hlisted hblisted (Ne.symm hsame)] at hbw
    cases hbw

end Report

/--
**When an ambiguity report is right.** Among candidates that are told apart, a report lists the tied best candidates and
no others exactly when the candidates that it lists are undecided among each other.
-/
theorem chooseBest_listsTied_iff {set : OverloadSet} {args : List Script} {s s' : Store} {indices : List Nat}
    (hroot : s.types.parents Standard.object = [])
    (h : (chooseBest set args).outcome s = (.ok (.ambiguous indices), s'))
    (hapart : ∀ v w, s'.Applicable set args v → s'.Applicable set args w → s'.types.ToldApart v w) :
    s'.ListsTied set args indices ↔
      ∀ v w, s'.Applicable set args v → s'.Applicable set args w → v.index ∈ indices → w.index ∈ indices →
        v.index ≠ w.index → s'.types.prefer v w = .undecided := by
  obtain ⟨weighed, hrun, hchosen⟩ := exists_weighed_of_chosen h
  obtain rfl := Resolution.eq_of_ofBest hchosen
  have hroot' := parents_object_of_weighed hrun hroot
  have hequal : ∀ v w, s'.Applicable set args v → s'.Applicable set args w →
      (s'.types.prefer v w = .equal ↔ Descriptor.sameAll v.params w.params = true) := fun v w hv hw =>
    TypeTable.prefer_eq_equal_iff (rankedBy_of_mem_weighed hrun ((mem_weighed_iff hrun).mpr hv))
      (rankedBy_of_mem_weighed hrun ((mem_weighed_iff hrun).mpr hw))
  constructor
  · -- two listed candidates have a preference for neither, since neither is beaten and they differ
    intro hlists v w hv hw hvlisted hwlisted hne
    apply Preference.eq_of_ne
    · exact hlists.unbeaten v w hv hw hwlisted
    · intro hsecond
      have hfirst := TypeTable.prefer_toFirst_of_toSecond (hapart v w hv hw) hsecond
      exact hlists.unbeaten w v hw hv hvlisted hfirst
    · intro hsame
      have hdistinct := hlists.distinct v w hv hw hvlisted hwlisted hne
      rw [(hequal v w hv hw).mp hsame] at hdistinct
      cases hdistinct
  · intro hundecided
    refine
      { nodup := nodup_best hrun
        applicable := ?_
        unbeaten := fun v w hv hw hlisted => unbeaten_of_undecided hrun hroot' hundecided hv hw hlisted
        distinct := ?_
        complete := ?_ }
    · -- what is listed is applicable, no two listed ones are the same, and who is unbeaten is covered by a listed one
      intro i hi
      obtain ⟨b, hb, rfl⟩ := List.mem_map.mp hi
      exact ⟨b, applicable_of_mem_best hrun hb, rfl⟩
    · intro v w hv hw hvlisted hwlisted hne
      by_contra hsame
      have hsame' := (hequal v w hv hw).mpr (by simpa using hsame)
      rw [hundecided v w hv hw hvlisted hwlisted hne] at hsame'
      cases hsame'
    · intro w hw hunbeaten
      obtain ⟨b, hb, hlisted, hcovers⟩ := exists_listed_covers hrun hroot' hw
      rcases Preference.first_eq_false_iff.mp hcovers with hsecond | hsame
      · -- the listed candidate that covers it would be preferred to it
        have hfirst := TypeTable.prefer_toFirst_of_toSecond (hapart w b hw hb) hsecond
        exact absurd hfirst (hunbeaten b hb)
      · have hparams : Descriptor.sameAll b.params w.params = true := by
          rw [Descriptor.sameAll_comm]
          exact (hequal w b hw hb).mp hsame
        exact .inr ⟨b, hb, hlisted, hparams⟩

/-- Two interfaces, a class that implements the first, and an object of a subclass that implements the second. -/
def Store.shapes : Store :=
  let named : TypeSpec := { name := "demo.Named", kind := .ofInterface }
  let shape : TypeSpec := { name := "demo.Shape", kind := .ofInterface }
  let base : TypeSpec := { name := "demo.Base", kind := .ofClass, interfaces := [.interface "demo.Named" false] }
  let circle : TypeSpec :=
    { name := "demo.Circle", kind := .ofClass, superclass := some (.plain "demo.Base"),
      interfaces := [.interface "demo.Shape" false] }
  { [named, shape, base, circle].foldl Store.declare (.standard {} false) with
    natives := #[.record "demo.Circle" none []]
    objects := #[.proxy ⟨.ofInstance, .object ⟨0⟩, .plain "demo.Circle", none⟩] }

/-- Static methods of one name, each with one parameter. -/
def drawing (types : List Descriptor) : OverloadSet :=
  ⟨"draw", types.map fun type =>
    { name := "draw", declaring := .ofName "demo.Canvas", params := [type], returnType := .void,
      flags := { isPublic := true, isStatic := true }, invoker := .host "draw" (.constant .void) }⟩

/-- How its candidates rank for an instance of all the types. -/
def drawn (types : List Descriptor) : List RankedCandidate :=
  (drawing types).candidates.zipIdx.map fun (c, i) => ⟨i, c, c.params, [.nontrivial]⟩

def namedOrShape : List Descriptor := [.interface "demo.Named" false, .interface "demo.Shape" false]

def namedShapeOrBase : List Descriptor := namedOrShape ++ [.plain "demo.Base"]

/-- A circle is a shape and is named, and the report lists the two interfaces. The base class comes in third; it is
preferred to the interface that it implements, which is listed all the same. -/
theorem chooseBest_listsTied_shapes :
    Store.shapes.types.parents Standard.object = [] ∧
    (chooseBest (drawing namedOrShape) [.object ⟨0⟩]).outcome .shapes = (.ok (.ambiguous [0, 1]), .shapes) ∧
    Store.shapes.ListsTied (drawing namedOrShape) [.object ⟨0⟩] [0, 1] ∧
    (chooseBest (drawing namedShapeOrBase) [.object ⟨0⟩]).outcome .shapes = (.ok (.ambiguous [0, 1, 2]), .shapes) ∧
    ¬ Store.shapes.ListsTied (drawing namedShapeOrBase) [.object ⟨0⟩] [0, 1, 2] := by
  have hroot : Store.shapes.types.parents Standard.object = [] := by rfl
  have htwo : (applicable [.object ⟨0⟩] 0 (drawing namedOrShape).candidates).outcome .shapes
      = (.ok (drawn namedOrShape), .shapes) := by rfl
  have hthree : (applicable [.object ⟨0⟩] 0 (drawing namedShapeOrBase).candidates).outcome .shapes
      = (.ok (drawn namedShapeOrBase), .shapes) := by rfl
  have hreport : (chooseBest (drawing namedOrShape) [.object ⟨0⟩]).outcome .shapes
      = (.ok (.ambiguous [0, 1]), .shapes) := by
    rw [chooseBest, Eval.outcome_bind_of_ok htwo]
    rfl
  have hreport' : (chooseBest (drawing namedShapeOrBase) [.object ⟨0⟩]).outcome .shapes
      = (.ok (.ambiguous [0, 1, 2]), .shapes) := by
    rw [chooseBest, Eval.outcome_bind_of_ok hthree]
    rfl
  refine ⟨hroot, hreport, ?_, hreport', ?_⟩
  · have hapart : ∀ v ∈ drawn namedOrShape, ∀ w ∈ drawn namedOrShape, Store.shapes.types.ToldApart v w := by
      decide +kernel
    have hundecided : ∀ v ∈ drawn namedOrShape, ∀ w ∈ drawn namedOrShape, v.index ≠ w.index →
        Store.shapes.types.prefer v w = .undecided := by decide +kernel
    have hiff := chooseBest_listsTied_iff hroot hreport fun v w hv hw =>
      hapart v ((mem_weighed_iff htwo).mpr hv) w ((mem_weighed_iff htwo).mpr hw)
    exact hiff.mpr fun v w hv hw _ _ =>
      hundecided v ((mem_weighed_iff htwo).mpr hv) w ((mem_weighed_iff htwo).mpr hw)
  · have hapart : ∀ v ∈ drawn namedShapeOrBase, ∀ w ∈ drawn namedShapeOrBase, Store.shapes.types.ToldApart v w := by
      decide +kernel
    have hdecided : ∃ v ∈ drawn namedShapeOrBase, ∃ w ∈ drawn namedShapeOrBase, v.index ∈ [0, 1, 2] ∧
        w.index ∈ [0, 1, 2] ∧ v.index ≠ w.index ∧ Store.shapes.types.prefer v w ≠ .undecided := by decide +kernel
    have hiff := chooseBest_listsTied_iff hroot hreport' fun v w hv hw =>
      hapart v ((mem_weighed_iff hthree).mpr hv) w ((mem_weighed_iff hthree).mpr hw)
    intro hlists
    obtain ⟨v, hv, w, hw, hvlisted, hwlisted, hne, hprefer⟩ := hdecided
    exact hprefer (hiff.mp hlists v w ((mem_weighed_iff hthree).mp hv) ((mem_weighed_iff hthree).mp hw) hvlisted
      hwlisted hne)

end Interop
