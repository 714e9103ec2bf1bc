import Interop.Proofs.Member.Overloads
import Interop.Proofs.Member.Scanning
import Interop.Store.Declare

/-!
# Which methods an entry has

The methods of an entry are the visible declarations that are met first, as far as they have a handle. The candidates of
a name are found in the table of the instance methods or of the static ones, also behind a field of that name, and no
property comes before them.

* **`TypeMembers.KeepsFirst`**: an entry against the declarations that are met.
* **`TypeTable.collectMembers_keepsFirst`**: the methods of an entry.
-/

namespace Interop

-- ids are compared as they stand; unfolding one means computing a digest
attribute [local irreducible] TypeId.ofName TypeId.ofSignature

/-! ## Entries -/

/-- The methods of an entry, against the visible declarations that are met, in order. -/
structure TypeMembers.KeepsFirst (entry : TypeMembers) (b : Bindings) (met : List MethodDecl)
    (kept : List (MethodDecl × Callable)) : Prop where
  /-- Candidates come in the order of their declarations. -/
  ordered : (kept.map (·.1)).Sublist met
  /-- No two candidates are of one method. -/
  distinct : kept.Pairwise fun p q => p.1.identity ≠ q.1.identity
  /-- A candidate is the declaration of its method that is met first, with its types resolved. -/
  first : ∀ p ∈ kept, Callable.ofMethod? b p.1 = .ok (some p.2) ∧
    ∃ before after, met = before ++ p.1 :: after ∧ ∀ m ∈ before, m.identity ≠ p.1.identity
  /-- Every declaration that is met first and has a handle gives a candidate. -/
  complete : ∀ before m after, met = before ++ m :: after → (∀ m' ∈ before, m'.identity ≠ m.identity) →
    m.invoker.isSome = true → ∃ c, (m, c) ∈ kept
  /-- The candidates of a name are the overloads of that name in the table of their kind, in their order. -/
  overloads : ∀ name isStatic, (entry.table isStatic).overloads? name = OverloadSet.ofMethods? name
    ((kept.filter fun p => p.1.name = name ∧ p.1.flags.isStatic = isStatic).map (·.2))
  /-- Asked for by its name and kind, a candidate is found in that table. -/
  reachable : ∀ p ∈ kept, ∃ member set, entry.find? p.1.name p.1.flags.isStatic = some (p.1.flags.isStatic, member) ∧
    member.overloads? = some set ∧ p.2 ∈ set.candidates

namespace TypeMembers

/-- The first declarations of methods, with their candidates. -/
theorem keepsFirst_of_candidates {entry : TypeMembers} {b : Bindings} {met : List MethodDecl}
    {kept : List (MethodDecl × Callable)} (h : Candidates b (firsts MethodDecl.identity met) kept)
    (hoverloads : ∀ name isStatic, (entry.table isStatic).overloads? name = OverloadSet.ofMethods? name
      ((kept.map (·.2)).filter fun c => c.name = name ∧ c.isStatic = isStatic)) :
    entry.KeepsFirst b met kept := by
  have hmade : ∀ p ∈ kept, p.2.name = p.1.name ∧ p.2.isStatic = p.1.flags.isStatic := by
    intro p hp
    rcases Callable.ofMethod?_cases (h.resolved p hp) with ⟨-, hnone⟩ | ⟨c, -, hc, hname, hflags⟩
    · cases hnone
    · cases hc
      exact ⟨hname, congrArg Flags.isStatic hflags⟩
  have hsublist : (kept.map (·.1)).Sublist (firsts MethodDecl.identity met) := by
    rw [h.declared]
    exact List.filter_sublist
  have hoverloads' : ∀ name isStatic, (entry.table isStatic).overloads? name = OverloadSet.ofMethods? name
      ((kept.filter fun p => p.1.name = name ∧ p.1.flags.isStatic = isStatic).map (·.2)) := by
    intro name isStatic
    rw [hoverloads, List.filter_map, List.filter_congr fun p hp => ?_]
    obtain ⟨hname, hstatic⟩ := hmade p hp
    simp [hname, hstatic]
  have hdistinct := (pairwise_firsts MethodDecl.identity met).sublist hsublist
  rw [List.pairwise_map] at hdistinct
  refine
    { ordered := hsublist.trans (firsts_sublist _ met)
      distinct := hdistinct
      first := fun p hp => ⟨h.resolved p hp, mem_firsts_iff.mp (hsublist.subset (List.mem_map_of_mem hp))⟩
      complete := ?_
      overloads := hoverloads'
      reachable := ?_ }
  · intro before m after hmet hbefore hhandle
    have hmem : m ∈ kept.map (·.1) := by
      rw [h.declared, List.mem_filter]
      exact ⟨mem_firsts_iff.mpr ⟨before, after, hmet, hbefore⟩, hhandle⟩
    obtain ⟨⟨_, c⟩, hc, rfl⟩ := List.mem_map.mp hmem
    exact ⟨c, hc⟩
  · intro p hp
    -- there is at least this one candidate of its name and kind
    have hmem : p.2 ∈ (kept.filter fun q => q.1.name = p.1.name ∧ q.1.flags.isStatic = p.1.flags.isStatic).map (·.2) :=
      List.mem_map_of_mem (List.mem_filter.mpr ⟨hp, by simp⟩)
    have hset := hoverloads' p.1.name p.1.flags.isStatic
    generalize (kept.filter fun q => q.1.name = p.1.name ∧ q.1.flags.isStatic = p.1.flags.isStatic).map (·.2)
      = candidates at hmem hset
    cases candidates with
    | nil => cases hmem
    | cons c rest =>
      obtain ⟨member, hmember, hmethods⟩ := Option.bind_eq_some_iff.mp hset
      refine ⟨member, _, ?_, hmethods, hmem⟩
      cases hstatic : p.1.flags.isStatic with
      | false =>
        rw [hstatic] at hmember
        have hinstance : entry.instances.find? p.1.name = some member := hmember
        simp [find?, hinstance]
      | true =>
        rw [hstatic] at hmember
        have hstatics : entry.statics.find? p.1.name = some member := hmember
        simp [find?, hstatics]

end TypeMembers

/--
**An entry has the first visible declaration of each method.** Where members are collected, and the keys of the visible
declarations tell methods apart, the candidates of the entry are the declarations with a handle that are met first, each
among the overloads of its name.
-/
theorem TypeTable.collectMembers_keepsFirst {t : TypeTable} {id : TypeId} {b : Bindings} {flag : Bool}
    {entry : TypeMembers} (h : t.collectMembers id b flag = .ok entry)
    (hkeys : ∀ m ∈ t.visibleMethods id flag, ∀ m' ∈ t.visibleMethods id flag,
      m.overrideKey = m'.overrideKey → m.identity = m'.identity) :
    ∃ kept, entry.KeepsFirst b (t.visibleMethods id flag) kept := by
  unfold collectMembers at h
  cases hfind : t.find? id with
  | none =>
    rw [hfind] at h
    cases h
  | some decl =>
    rw [hfind] at h
    -- the three scans in their order: where one of them stops, nothing is collected
    cases hmethods : t.scanMethods b flag id (t.ancestry id) with
    | error stop => simp [hmethods, bind, Except.bind] at h
    | ok methods =>
      cases hfields : t.scanFields b flag id (t.ancestry id) with
      | error stop => simp [hmethods, hfields, bind, Except.bind] at h
      | ok fields =>
        cases hconstructors : t.scanConstructors b flag id decl with
        | error stop => simp [hmethods, hfields, hconstructors, bind, Except.bind] at h
        | ok constructors =>
          simp only [hmethods, hfields, hconstructors, bind, Except.bind, Except.ok.injEq] at h
          -- the methods are what the scan kept; fields have one slot for each name, so none of them hides a method
          obtain ⟨kept, hkept, hcandidates⟩ := scanMethods_firsts hmethods hkeys
          have htidy := t.scanFields_tidy b flag id (t.ancestry id)
          rw [hfields] at htidy
          refine ⟨kept, TypeMembers.keepsFirst_of_candidates hcandidates fun name isStatic => ?_⟩
          rw [← h, ← hkept]
          cases isStatic with
          | false =>
            rw [TypeMembers.table, if_neg (by decide),
              MemberTable.overloads?_build htidy.1.nodup_names htidy.1.bare, List.filter_filter]
            exact congrArg _ (List.filter_congr fun c _ => by simp)
          | true =>
            rw [TypeMembers.table, if_pos rfl,
              MemberTable.overloads?_build htidy.2.nodup_names htidy.2.bare, List.filter_filter]
            exact congrArg _ (List.filter_congr fun c _ => by simp)

/-- Two interfaces that share a method, and a class below both of them. The class has no handle for that method, a field
of the name of its other ones, a protected method and a hidden one that hides nothing. -/
def TypeTable.cards : TypeTable :=
  let label : MethodSpec := { name := "label", returnType := .string, flags := { isAbstract := true } }
  let score (param : Descriptor) : MethodSpec := { name := "score", params := [param], code := some (.constant .void) }
  let named : TypeSpec := { name := "demo.Named", kind := .ofInterface, methods := [label] }
  let scored : TypeSpec :=
    { name := "demo.Scored", kind := .ofInterface
      methods := [label, { score .object with flags := { isAbstract := true } }] }
  let card : TypeSpec :=
    { name := "demo.Card", kind := .ofClass
      interfaces := [.interface "demo.Named" false, .interface "demo.Scored" false]
      methods := [{ label with accessible := false }, score .string, score (.numeric .int),
        { score (.numeric .long) with flags := { isStatic := true } },
        { score (.numeric .double) with flags := { isProtected := true } },
        { score .object with flags := { isHidden := true } }]
      fields := [{ name := "score", type := .numeric .int }] }
  ([named, scored, card].foldl Store.declare (.standard {} false)).types

/-- What can be asked of the class: its instance methods of a name, if there are any, by their signatures. -/
def TypeMembers.signatures (entry : TypeMembers) (name : String) : List String :=
  ((entry.instances.overloads? name).map fun set => set.candidates.map Callable.signature).getD []

/-- The class scores by its own declarations first, behind its field, by the protected one only where those are asked
for, and never by the hidden one, so the interface still counts. Nobody labels it: the declaration of `label` that is met
first has no handle. -/
theorem TypeTable.collectMembers_keepsFirst_cards :
    (∀ flag, ∀ m ∈ cards.visibleMethods (.ofName "demo.Card") flag,
      ∀ m' ∈ cards.visibleMethods (.ofName "demo.Card") flag,
        m.overrideKey = m'.overrideKey → m.identity = m'.identity) ∧
    ∀ flag, ∃ entry kept, cards.collectMembers (.ofName "demo.Card") .empty flag = .ok entry ∧
      entry.KeepsFirst .empty (cards.visibleMethods (.ofName "demo.Card") flag) kept ∧
      entry.signatures "score" = ["score(host.String)", "score(int)"] ++ (if flag then ["score(double)"] else []) ++
        ["score(host.Object)"] ∧
      entry.signatures "label" = [] := by
  have hkeys : ∀ flag, ∀ m ∈ cards.visibleMethods (.ofName "demo.Card") flag,
      ∀ m' ∈ cards.visibleMethods (.ofName "demo.Card") flag,
        m.overrideKey = m'.overrideKey → m.identity = m'.identity := by
    intro flag
    cases flag <;> decide +kernel
  have hentry : ∀ flag, ((cards.collectMembers (.ofName "demo.Card") .empty flag).toOption.map fun entry =>
      (entry.signatures "score", entry.signatures "label"))
        = some (["score(host.String)", "score(int)"] ++ (if flag then ["score(double)"] else []) ++
          ["score(host.Object)"], []) := by
    intro flag
    cases flag <;> decide +kernel
  refine ⟨hkeys, fun flag => ?_⟩
  cases hcollect : cards.collectMembers (.ofName "demo.Card") .empty flag with
  | error stop =>
    have hnone := hentry flag
    rw [hcollect] at hnone
    cases hnone
  | ok entry =>
    obtain ⟨kept, hkept⟩ := collectMembers_keepsFirst hcollect (hkeys flag)
    have hsome := hentry flag
    rw [hcollect] at hsome
    obtain ⟨hscore, hlabel⟩ := Prod.mk.inj (Option.some.inj hsome)
    exact ⟨entry, kept, rfl, hkept, hscore, hlabel⟩

end Interop
