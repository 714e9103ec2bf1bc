import Interop.Proofs.Generics.Inherited
import Interop.Proofs.Member.Constants
import Interop.Proofs.Member.Settled
import Interop.Store.Declare

/-!
# Answers without history

A cache of members is asked for bindings and members, and told to forget types, in any order. Over types that stay what
they are and extend one another without cycles, its answers do not depend on what went before. The bindings of a type
are the ones that an empty cache works out. If the host lists the members of a type and of all its supertypes, the
members are those collected with these bindings; and as long as a type is not forgotten, they are one and the same
entry.

* **`MemberCache.Faithful`**: everything kept is what would be worked out anew.
* **`Faithful.bindingsOf`**, **`Faithful.lookup`**, **`Faithful.forget`**: each request keeps a cache faithful.
* **`MemberCache.find?_run`**: an entry stays until its type is forgotten.
* **`MemberCache.run_transparent`**: the three statements above, for all runs.
-/

namespace Interop

-- ids are compared as they stand; unfolding one means computing a digest
attribute [local irreducible] TypeId.ofName

/-! ## Types that are listed -/

namespace TypeTable

variable {t : TypeTable}

/-- Collecting is refused only where the host does not list the type or one of its supertypes. -/
theorem collectMembers_notRefused {id : TypeId} (hlisted : t.ListsAll (t.ancestry id)) (b : Bindings) (flag : Bool) :
    Yields Stop.NotRefused (t.collectMembers id b flag) fun _ => True := by
  have hid : ∀ d, t.find? id = some d → d.denied = false := by
    obtain ⟨rest, hancestry, -⟩ := t.ancestry_eq_cons id
    exact hlisted id (hancestry ▸ List.mem_cons_self)
  unfold collectMembers
  cases t.find? id with
  | none => exact nofun
  | some d =>
    exact (scanMethods_notRefused id hlisted).bind fun _ _ => (scanFields_notRefused id hlisted).bind fun _ _ =>
      (scanConstructors_notRefused hid d).bind fun _ _ => trivial

/-- Without a refusal no other type is tried. -/
theorem collectOrAbove_eq {id : TypeId} (hlisted : t.ListsAll (t.ancestry id)) (b : Bindings) (flag : Bool)
    (declared : Option TypeId) : t.collectOrAbove b flag declared id = t.collectMembers id b flag := by
  have hcollected := collectMembers_notRefused hlisted b flag
  unfold collectOrAbove
  split
  · next refused hrefused =>
    rw [hrefused] at hcollected
    exact absurd rfl (hcollected refused)
  · rfl

end TypeTable

namespace MemberCache

variable {t : TypeTable} {r : MemberCache}

/-! ## Requests -/

/-- What a cache is asked to do. -/
inductive Request where
  | bindings (id : TypeId)
  | lookup (id : TypeId) (declared : Option TypeId) (includeNonPublic : Bool)
  | forget (id : TypeId)

/-- The cache after a request. -/
def after (t : TypeTable) (r : MemberCache) : Request → MemberCache
  | .bindings id => (r.bindingsOf t id).2
  | .lookup id declared includeNonPublic => (r.lookup t id declared includeNonPublic).2
  | .forget id => r.forget id

/-- The cache after some requests. -/
def run (t : TypeTable) (r : MemberCache) (requests : List Request) : MemberCache := requests.foldl (after t) r

/-! ## What is kept is right -/

/-- Bindings are right, and so are the entries of types that are listed with all their supertypes. -/
structure Faithful (t : TypeTable) (r : MemberCache) : Prop where
  bindings : t.Honest r.bindings
  entries : ∀ kept ∈ r.entries, t.ListsAll (t.ancestry kept.1.1) →
    t.collectMembers kept.1.1 (t.bindings kept.1.1) kept.1.2 = .ok kept.2.entry

/-- The empty cache has nothing that could be wrong. -/
theorem faithful_empty (t : TypeTable) : Faithful t {} := ⟨t.honest_nil, List.forall_mem_nil _⟩

/-- Bindings are what they would be without a cache. -/
theorem Faithful.bindingsOf (ht : t.CycleFree) (hr : r.Faithful t) (id : TypeId) :
    (r.bindingsOf t id).1 = t.bindings id ∧ (r.bindingsOf t id).2.Faithful t := by
  obtain ⟨heq, hhonest⟩ := TypeTable.inheritedBindings_eq ht hr.bindings id
  exact ⟨heq, hhonest, hr.entries⟩

/-- **A look-up answers as if nothing were kept**, and keeps only what is right. -/
theorem Faithful.lookup (ht : t.CycleFree) (hr : r.Faithful t) (id : TypeId) (declared : Option TypeId)
    (flag : Bool) :
    (t.ListsAll (t.ancestry id) →
      (r.lookup t id declared flag).1.map (·.entry) = t.collectMembers id (t.bindings id) flag) ∧
      (r.lookup t id declared flag).2.Faithful t := by
  obtain ⟨hbindings, hhonest⟩ := TypeTable.inheritedBindings_eq ht hr.bindings id
  rcases r.lookup_cases t id declared flag with
    ⟨known, hfind, heq⟩ | ⟨entry, -, hcollect, heq⟩ | ⟨stop, -, hcollect, heq⟩ <;> rw [heq]
  · refine ⟨fun hlisted => ?_, hr⟩
    exact (hr.entries ((id, flag), known) (mem_of_lookup hfind) hlisted).symm
  · rw [hbindings] at hcollect
    have hentry : t.ListsAll (t.ancestry id) → t.collectMembers id (t.bindings id) flag = .ok entry := by
      intro hlisted
      rw [← TypeTable.collectOrAbove_eq hlisted _ flag declared, hcollect]
    refine ⟨fun hlisted => (hentry hlisted).symm, hhonest, fun kept hkept => ?_⟩
    rcases List.mem_append.mp hkept with hold | hnew
    · exact hr.entries kept hold
    · rw [List.mem_singleton.mp hnew]
      exact hentry
  · rw [hbindings] at hcollect
    refine ⟨fun hlisted => ?_, hhonest, hr.entries⟩
    rw [← TypeTable.collectOrAbove_eq hlisted _ flag declared, hcollect]
    rfl

theorem Faithful.forget (hr : r.Faithful t) (id : TypeId) : (r.forget id).Faithful t :=
  ⟨fun entry hentry => hr.bindings entry (List.mem_filter.mp hentry).1,
    fun kept hkept => hr.entries kept (List.mem_filter.mp hkept).1⟩

theorem Faithful.after (ht : t.CycleFree) (hr : r.Faithful t) (request : Request) : (r.after t request).Faithful t := by
  cases request with
  | bindings id => exact (hr.bindingsOf ht id).2
  | lookup id declared flag => exact (hr.lookup ht id declared flag).2
  | forget id => exact hr.forget id

/-- **Every run leaves a faithful cache.** -/
theorem faithful_run (ht : t.CycleFree) (requests : List Request) : (run t {} requests).Faithful t :=
  List.foldlRecOn (motive := Faithful t) requests (after t) (faithful_empty t)
    fun _ hr request _ => hr.after ht request

/-! ## Entries stay -/

/-- Only forgetting its type takes an entry away: look-ups put theirs behind it. -/
theorem find?_after {id : TypeId} {flag : Bool} {m : Membership} (hm : r.find? id flag = some m) {request : Request}
    (hrequest : request ≠ .forget id) : (r.after t request).find? id flag = some m := by
  cases request with
  | bindings => exact hm
  | lookup id' declared flag' =>
    rw [after]
    rcases r.lookup_cases t id' declared flag' with
      ⟨known, -, heq⟩ | ⟨entry, -, -, heq⟩ | ⟨stop, -, -, heq⟩ <;> rw [heq]
    · exact hm
    · rw [find?] at hm ⊢
      rw [List.lookup_append, hm]
      rfl
    · exact hm
  | forget id' =>
    have hne : id ≠ id' := fun heq => hrequest (heq ▸ rfl)
    rw [find?] at hm ⊢
    obtain ⟨before, after, heq, hbefore⟩ := List.lookup_eq_some_iff.mp hm
    refine List.lookup_eq_some_iff.mpr ⟨before.filter (·.1.1 ≠ id'), after.filter (·.1.1 ≠ id'), ?_, ?_⟩
    · rw [MemberCache.after, MemberCache.forget, heq]
      simp [List.filter_append, hne]
    · exact fun kept hkept => hbefore kept (List.mem_filter.mp hkept).1

/-- **An entry stays until its type is forgotten.** -/
theorem find?_run {id : TypeId} {flag : Bool} {m : Membership} (hm : r.find? id flag = some m) {requests : List Request}
    (hforget : .forget id ∉ requests) : (run t r requests).find? id flag = some m := by
  induction requests generalizing r with
  | nil => exact hm
  | cons request requests ih =>
    obtain ⟨hne, hrest⟩ := not_or.mp (List.mem_cons.not.mp hforget)
    exact ih (find?_after hm (Ne.symm hne)) hrest

/-- What is kept is the answer, whichever way the type is met. -/
theorem lookup_of_find? {id : TypeId} {flag : Bool} {m : Membership} (hm : r.find? id flag = some m)
    (declared : Option TypeId) : r.lookup t id declared flag = (.ok m, r) := by
  rw [lookup, hm]

/--
**Caches have no memory.** Over types without cycles, and after any requests, bindings are the ones that an empty cache
works out; the members of a type that is listed with all its supertypes are the ones collected with these bindings, or
fail to be collected in the same way; and a look-up gives the same entry again until the type is forgotten.
-/
theorem run_transparent (ht : t.CycleFree) (requests : List Request) :
    (∀ id, ((run t {} requests).bindingsOf t id).1 = (bindingsOf {} t id).1) ∧
    (∀ id declared flag, t.ListsAll (t.ancestry id) →
      ((run t {} requests).lookup t id declared flag).1.map (·.entry)
        = t.collectMembers id (bindingsOf {} t id).1 flag) ∧
    (∀ id declared flag m, ((run t {} requests).lookup t id declared flag).1 = .ok m →
      ∀ later : List Request, .forget id ∉ later → ∀ declared',
        ((run t ((run t {} requests).lookup t id declared flag).2 later).lookup t id declared' flag).1 = .ok m) := by
  have hr := faithful_run ht requests
  have hempty : ∀ id, (bindingsOf {} t id).1 = t.bindings id := fun id => ((faithful_empty t).bindingsOf ht id).1
  refine ⟨fun id => ?_, fun id declared flag hlisted => ?_, fun id declared flag m hm later hlater declared' => ?_⟩
  · rw [hempty id]
    exact (hr.bindingsOf ht id).1
  · rw [hempty id]
    exact (hr.lookup ht id declared flag).1 hlisted
  · have hkept := find?_run (t := t) (find?_lookup (Prod.ext hm rfl)) hlater
    rw [lookup_of_find? hkept declared']

/-- A generic interface, a class that fixes its parameter, and a class below whose members the host does not list. -/
def vault : TypeTable :=
  let box : TypeSpec :=
    { name := "demo.Box", kind := .ofInterface, typeParams := ["T"]
      methods := [{ name := "put", params := [StandardType.var "demo.Box" "T"], flags := { isAbstract := true } }] }
  let safe : TypeSpec :=
    { name := "demo.Safe", kind := .ofClass, interfaces := [.parameterized (.interface "demo.Box" false) [.string]] }
  let locked : TypeSpec :=
    { name := "demo.Locked", kind := .ofClass, superclass := some (.plain "demo.Safe"), denied := true }
  ([box, safe, locked].foldl Store.declare (.standard {} false)).types

/-- Once the generic interface is forgotten and the class that is not listed has been shown as the one above it, that
one still takes strings. -/
theorem run_transparent_vault :
    let requests : List Request :=
      [.lookup (.ofName "demo.Safe") none false, .forget (.ofName "demo.Box"), .bindings (.ofName "demo.Box"),
        .lookup (.ofName "demo.Locked") (some (.ofName "demo.Safe")) false, .forget (.ofName "demo.Safe")]
    let again := (run vault {} requests).lookup vault (.ofName "demo.Safe") none false
    vault.CycleFree ∧ vault.ListsAll (vault.ancestry (.ofName "demo.Safe")) ∧
      again.1.map (·.entry)
        = vault.collectMembers (.ofName "demo.Safe") (bindingsOf {} vault (.ofName "demo.Safe")).1 false ∧
      ∃ m, again.1 = .ok m ∧
        (m.overloads? "put" false).map (·.set.candidates.map Callable.signature) = some ["put(host.String)"] ∧
        ((run vault again.2 [.forget (.ofName "demo.Locked")]).lookup vault (.ofName "demo.Safe") none false).1
          = .ok m := by
  intro requests again
  have hcycles : vault.CycleFree := TypeTable.cycleFree_of_entries (by decide +kernel)
  have hlisted : vault.ListsAll (vault.ancestry (.ofName "demo.Safe")) := by
    have hall : ((vault.ancestry (.ofName "demo.Safe")).all fun id =>
        (vault.find? id).all fun d => !d.denied) = true := by decide +kernel
    intro id hid d hd
    have hthis := List.all_eq_true.mp hall id hid
    rw [hd] at hthis
    simpa using hthis
  have hput : again.1.toOption.bind (fun m =>
      (m.overloads? "put" false).map (·.set.candidates.map Callable.signature)) = some ["put(host.String)"] := by
    decide +kernel
  obtain ⟨-, hmembers, hagain⟩ := run_transparent hcycles requests
  refine ⟨hcycles, hlisted, hmembers _ none false hlisted, ?_⟩
  cases hm : again.1 with
  | error stop =>
    rw [hm] at hput
    cases hput
  | ok m =>
    rw [hm] at hput
    refine ⟨m, rfl, hput, hagain _ none false m hm _ (fun hforget => ?_) none⟩
    have hsame : TypeId.ofName "demo.Safe" = TypeId.ofName "demo.Locked" :=
      Request.forget.inj (List.mem_singleton.mp hforget)
    exact absurd hsame (by decide +kernel)

end MemberCache

end Interop
