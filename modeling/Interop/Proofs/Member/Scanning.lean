import Interop.Proofs.Member.Constants

/-!
# Scanning for methods

Methods are met along the hierarchy, those of one type in the order of their declaration. Two declarations are of one
method if they have one name and one list of erased parameter types, and of the visible declarations of a method the
first counts. A declaration without a handle still counts, although it gives no candidate.

* **`firsts`**: the first elements of each key, and what they are.
* **`foldlM_add_firsts`**: what one run over declarations adds.
* **`TypeTable.scanMethods_firsts`**: scanning keeps the first visible declarations, in order.
-/

namespace Interop

-- ids are compared as they stand; unfolding one means computing a digest
attribute [local irreducible] TypeId.ofName TypeId.ofSignature

/-! ## First elements -/

section Firsts

variable {α κ : Type} [DecidableEq κ]

/-- The elements with which a key is met for the first time. -/
def firsts (key : α → κ) : List α → List α
  | [] => []
  | x :: xs => x :: (firsts key xs).filter fun y => key y ≠ key x

variable {key : α → κ}

theorem firsts_sublist (key : α → κ) : ∀ xs : List α, (firsts key xs).Sublist xs
  | [] => .slnil
  | x :: xs => ((List.filter_sublist).trans (firsts_sublist key xs)).cons_cons x

theorem pairwise_firsts (key : α → κ) : ∀ xs : List α, (firsts key xs).Pairwise fun x y => key x ≠ key y
  | [] => .nil
  | x :: xs => by
    rw [firsts, List.pairwise_cons]
    refine ⟨fun y hy => ?_, (pairwise_firsts key xs).filter _⟩
    have hne : key y ≠ key x := of_decide_eq_true (List.mem_filter.mp hy).2
    exact hne.symm

/-- An element is among the first ones exactly when nothing of its key comes before it. -/
theorem mem_firsts_iff {x : α} : ∀ {xs : List α},
    x ∈ firsts key xs ↔ ∃ before after, xs = before ++ x :: after ∧ ∀ y ∈ before, key y ≠ key x
  | [] => by simp [firsts]
  | first :: xs => by
    -- an element behind the first one counts where its key is not that of the first
    rw [firsts, List.mem_cons, List.mem_filter, mem_firsts_iff]
    constructor
    · rintro (rfl | ⟨⟨before, after, rfl, hbefore⟩, hne⟩)
      · exact ⟨[], xs, rfl, List.forall_mem_nil _⟩
      · refine ⟨first :: before, after, rfl, List.forall_mem_cons.mpr ⟨?_, hbefore⟩⟩
        exact (of_decide_eq_true hne).symm
    · rintro ⟨_ | ⟨_, before⟩, after, heq, hbefore⟩
      · exact .inl (List.cons.inj heq).1.symm
      · obtain ⟨rfl, rfl⟩ := List.cons.inj heq
        obtain ⟨hne, hbefore⟩ := List.forall_mem_cons.mp hbefore
        exact .inr ⟨⟨before, after, rfl, hbefore⟩, decide_eq_true hne.symm⟩

/-- Keys that tell the same elements apart have the same first elements. -/
theorem firsts_congr {μ : Type} [DecidableEq μ] {other : α → μ} : ∀ {xs : List α},
    (∀ x ∈ xs, ∀ y ∈ xs, key x = key y ↔ other x = other y) → firsts key xs = firsts other xs
  | [], _ => rfl
  | x :: xs, h => by
    obtain ⟨hx, hxs⟩ := List.forall_mem_cons.mp h
    rw [firsts, firsts, firsts_congr fun y hy z hz => hxs y hy z (List.mem_cons_of_mem _ hz)]
    refine congrArg (x :: ·) (List.filter_congr fun y hy => ?_)
    have hmem : y ∈ xs := (firsts_sublist other xs).subset hy
    have hiff := hxs y hmem x List.mem_cons_self
    simp [hiff]

end Firsts

/-! ## Scanning for methods -/

/-- What tells methods apart: the name and the erased parameter types. -/
def MethodDecl.identity (m : MethodDecl) : String × List TypeId := (m.name, erasedParams m.params)

/-- The methods that types declare, in order. -/
def TypeTable.methodsAlong (t : TypeTable) (closure : List TypeId) : List MethodDecl :=
  closure.flatMap fun id => ((t.find? id).map (·.methods)).getD []

/-- The visible declarations of methods that are met at a type and its supertypes, in order. -/
def TypeTable.visibleMethods (t : TypeTable) (id : TypeId) (includeNonPublic : Bool) : List MethodDecl :=
  (t.methodsAlong (t.ancestry id)).filter (·.flags.isVisible includeNonPublic)

/-- A declaration gives a candidate of its name and flags exactly when it has a handle. -/
theorem Callable.ofMethod?_cases {b : Bindings} {m : MethodDecl} {made : Option Callable}
    (h : Callable.ofMethod? b m = .ok made) :
    (m.invoker.isSome = false ∧ made = none) ∨
      ∃ c, m.invoker.isSome = true ∧ made = some c ∧ c.name = m.name ∧ c.flags = m.flags := by
  unfold Callable.ofMethod? at h
  -- without a handle nothing is made; with one, only the types can fail
  cases hinvoker : m.invoker with
  | none =>
    rw [hinvoker] at h
    exact .inl ⟨rfl, (Except.ok.inj h).symm⟩
  | some invoker =>
    rw [hinvoker] at h
    cases hparams : m.params.mapM (resolveType b) with
    | error stop => simp [hparams, bind, Except.bind] at h
    | ok params =>
      cases hreturn : resolveType b m.returnType with
      | error stop => simp [hparams, hreturn, bind, Except.bind] at h
      | ok returnType =>
        simp only [hparams, hreturn, bind, Except.bind, Except.ok.injEq] at h
        exact .inr ⟨_, rfl, h.symm, rfl, rfl⟩

/-- Declarations with their candidates, one for each that has a handle. -/
structure Candidates (b : Bindings) (declared : List MethodDecl) (kept : List (MethodDecl × Callable)) : Prop where
  declared : kept.map (·.1) = declared.filter (·.invoker.isSome)
  resolved : ∀ p ∈ kept, Callable.ofMethod? b p.1 = .ok (some p.2)

namespace Candidates

theorem nil (b : Bindings) : Candidates b [] [] := ⟨rfl, List.forall_mem_nil _⟩

/-- A candidate is made exactly where there is a handle. -/
theorem cons {b : Bindings} {m : MethodDecl} {made : Option Callable} (hmade : Callable.ofMethod? b m = .ok made)
    {declared : List MethodDecl} {kept : List (MethodDecl × Callable)} (h : Candidates b declared kept) :
    Candidates b (m :: declared) (made.toList.map (m, ·) ++ kept) := by
  rcases Callable.ofMethod?_cases hmade with ⟨hhandle, rfl⟩ | ⟨c, hhandle, rfl, -, -⟩
  · exact ⟨by simp [hhandle, h.declared], h.resolved⟩
  · exact ⟨by simp [hhandle, h.declared], List.forall_mem_cons.mpr ⟨hmade, h.resolved⟩⟩

end Candidates

namespace TypeTable

variable {t : TypeTable} {b : Bindings} {flag : Bool}

theorem eq_of_declaredBy {root id : TypeId} {decl : Option TypeDecl} (h : t.declaredBy root id = .ok decl) :
    decl = t.find? id := by
  unfold declaredBy describe at h
  -- a type that is not described is passed over unless it is the first; a denied one is refused
  cases hfind : t.find? id with
  | none =>
    rw [hfind] at h
    dsimp only at h
    split at h
    · cases h
    · exact (Except.ok.inj h).symm
  | some d =>
    rw [hfind] at h
    dsimp only at h
    cases hdenied : d.denied <;> rw [hdenied] at h <;> cases h
    rfl

/-- Type after type is one run over the declarations of all of them. -/
theorem foldlM_methodsAlong {root : TypeId} : ∀ {closure : List TypeId} {scan scan' : MethodScan},
    closure.foldlM (fun scan id => do
      let decl ← t.declaredBy root id
      ((decl.map TypeDecl.methods).getD []).foldlM (MethodScan.add b flag) scan) scan = .ok scan' →
    (t.methodsAlong closure).foldlM (MethodScan.add b flag) scan = .ok scan'
  | [], _, _, h => h
  | id :: closure, scan, scan', h => by
    rw [List.foldlM_cons] at h
    cases hdecl : t.declaredBy root id with
    | error stop =>
      rw [hdecl] at h
      cases h
    | ok decl =>
      -- the declarations of this type come first, and the run over the others starts where it ends
      obtain rfl := eq_of_declaredBy hdecl
      rw [hdecl] at h
      rw [methodsAlong, List.flatMap_cons, List.foldlM_append]
      change List.foldlM (MethodScan.add b flag) scan (((t.find? id).map (·.methods)).getD []) >>= _ = _ at h
      cases hfirst : List.foldlM (MethodScan.add b flag) scan (((t.find? id).map (·.methods)).getD []) with
      | error stop =>
        rw [hfirst] at h
        cases h
      | ok scan₁ =>
        rw [hfirst] at h
        exact foldlM_methodsAlong h

/-- **A run over declarations** adds candidates for the first visible declaration of each key that was not met yet. -/
theorem foldlM_add_firsts : ∀ {ms : List MethodDecl} {scan scan' : MethodScan},
    ms.foldlM (MethodScan.add b flag) scan = .ok scan' →
    ∃ kept, scan'.kept = scan.kept ++ kept.map (·.2) ∧
      Candidates b ((firsts MethodDecl.overrideKey (ms.filter (·.flags.isVisible flag))).filter
        fun m => m.overrideKey ∉ scan.seen) kept
  | [], scan, scan', h => by
    cases h
    exact ⟨[], by simp, .nil b⟩
  | m :: ms, scan, scan', h => by
    rw [List.foldlM_cons, MethodScan.add] at h
    by_cases hvisible : m.flags.isVisible flag = true
    · rw [List.filter_cons, if_pos hvisible, firsts]
      by_cases hseen : m.overrideKey ∈ scan.seen
      · -- the key was met before, so it does not matter that it is met again
        rw [if_pos (by simp [hseen])] at h
        have hrest : ms.foldlM (MethodScan.add b flag) scan = .ok scan' := h
        obtain ⟨kept, hkept, hcandidates⟩ := foldlM_add_firsts hrest
        refine ⟨kept, hkept, ?_⟩
        rw [List.filter_cons_of_neg (by simp [hseen]), List.filter_filter]
        refine List.filter_congr (fun m' _ => ?_) ▸ hcandidates
        by_cases hnew : m'.overrideKey ∈ scan.seen
        · simp [hnew]
        · have hother : m'.overrideKey ≠ m.overrideKey := fun heq => hnew (heq ▸ hseen)
          simp [hnew, hother]
      · -- a new key: from now on it is seen, whether or not its declaration has a handle
        rw [if_neg (by simp [hvisible, hseen])] at h
        cases hmade : Callable.ofMethod? b m with
        | error stop =>
          rw [hmade] at h
          cases h
        | ok made =>
          rw [hmade] at h
          obtain ⟨kept, hkept, hcandidates⟩ := foldlM_add_firsts h
          refine ⟨made.toList.map (m, ·) ++ kept, ?_, ?_⟩
          · rw [hkept]
            simp [Function.comp_def]
          · rw [List.filter_cons_of_pos (by simp [hseen]), List.filter_filter]
            refine Candidates.cons hmade ?_
            refine List.filter_congr (fun m' _ => ?_) ▸ hcandidates
            simp [Bool.and_comm]
    · -- nobody sees the declaration, so it does not stand in the way of a later one
      rw [if_pos (by simp [hvisible])] at h
      have hrest : ms.foldlM (MethodScan.add b flag) scan = .ok scan' := h
      rw [List.filter_cons, if_neg hvisible]
      exact foldlM_add_firsts hrest

/-- **Scanning keeps the first visible declaration of each method**, where keys tell methods apart. -/
theorem scanMethods_firsts {root : TypeId} {closure : List TypeId} {scan : MethodScan}
    (h : t.scanMethods b flag root closure = .ok scan)
    (hkeys : ∀ m ∈ (t.methodsAlong closure).filter (·.flags.isVisible flag),
      ∀ m' ∈ (t.methodsAlong closure).filter (·.flags.isVisible flag),
        m.overrideKey = m'.overrideKey → m.identity = m'.identity) :
    ∃ kept, scan.kept = kept.map (·.2) ∧
      Candidates b (firsts MethodDecl.identity ((t.methodsAlong closure).filter (·.flags.isVisible flag))) kept := by
  obtain ⟨kept, hkept, hcandidates⟩ := foldlM_add_firsts (foldlM_methodsAlong h)
  refine ⟨kept, hkept, ?_⟩
  -- a key is made of what tells methods apart, so one direction holds anyway
  have hsame : ∀ m m' : MethodDecl, m.identity = m'.identity → m.overrideKey = m'.overrideKey := by
    intro m m' hidentity
    obtain ⟨hname, hparams⟩ := Prod.mk.inj hidentity
    rw [MethodDecl.overrideKey, MethodDecl.overrideKey, hname, hparams]
  have hall : ∀ ms : List MethodDecl, (ms.filter fun m => m.overrideKey ∉ ({} : MethodScan).seen) = ms :=
    fun ms => List.filter_eq_self.mpr fun _ _ => decide_eq_true List.not_mem_nil
  rw [hall, firsts_congr fun m hm m' hm' => ⟨hkeys m hm m' hm', hsame m m'⟩] at hcandidates
  exact hcandidates

end TypeTable

end Interop
