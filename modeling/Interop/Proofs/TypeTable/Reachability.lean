import Interop.Proofs.Lookup
import Interop.TypeTable.Hierarchy
import Mathlib.Algebra.BigOperators.Group.Finset.Piecewise
import Mathlib.Algebra.Order.BigOperators.Group.Finset
import Mathlib.Logic.Relation

/-!
# Walks over the hierarchy reach what they should

`TypeTable.Reaches` is the reflexive transitive closure of the direct supertype relation. The walks of the library
are bounded by `walkBudget`; this module shows that the bound never cuts a walk short, so that `search` decides
`Reaches`, and `isSubtype` is what its definition says without any bound:

* **`pending`**: the edges a walk can still push, those of the types it may meet and has not visited.
  Visiting a type pays for the edges it pushes (`pending_visit`), so queue length plus pending edges never grows.
* **`metFrom`**: the types a walk from a root can meet. It is closed under direct supertypes
  (`parents_mem_metFrom`), and its edges are within the budget (`pending_metFrom_le`).
* **`search_iff`**: the bounded search finds its target exactly when the target is reachable.
* **`isSubtype_iff`**, **`isSubtype_trans`**: the subtype test by reachability, and its transitivity where the
  root type has no supertypes.
* **`ancestry_eq_cons`**, **`mem_ancestry_iff`**: the ancestry of a type starts with the type, and lists all types that
  it reaches.
-/

namespace Interop

open Finset

-- ids are compared as they stand; unfolding one means computing a digest
attribute [local irreducible] TypeId.ofName

namespace TypeTable

/-- A type and one of its supertypes, direct or not; every type reaches itself. -/
def Reaches (t : TypeTable) : TypeId → TypeId → Prop := Relation.ReflTransGen fun a b => b ∈ t.parents a

theorem Reaches.refl (t : TypeTable) (a : TypeId) : t.Reaches a a := Relation.ReflTransGen.refl

theorem Reaches.trans {t : TypeTable} {a b c : TypeId} (hab : t.Reaches a b) (hbc : t.Reaches b c) :
    t.Reaches a c := Relation.ReflTransGen.trans hab hbc

theorem Reaches.head {t : TypeTable} {a b c : TypeId} (hab : b ∈ t.parents a) (hbc : t.Reaches b c) :
    t.Reaches a c := Relation.ReflTransGen.head hab hbc

/-- A type without parents reaches itself alone. -/
theorem Reaches.eq_of_parents_nil {t : TypeTable} {a b : TypeId} (h : t.Reaches a b) (hroot : t.parents a = []) :
    a = b := by
  rcases Relation.ReflTransGen.cases_head h with h | ⟨c, hc, -⟩
  · exact h
  · simp [hroot] at hc

/-! ## Pending edges

A walk pops one type at each step. What it pushes are the direct supertypes of types it visits for the first time, so
the number of steps is the length of the queue plus the edges of the types it has not visited yet. -/

/-- The edges of the types in `known` that are not among those visited. -/
def pending (t : TypeTable) (known : Finset TypeId) (visited : List TypeId) : Nat :=
  ∑ id ∈ known with id ∉ visited, (t.parents id).length

/-- Visiting a type pays for the edges that it pushes. -/
theorem pending_visit (t : TypeTable) {known : Finset TypeId} {visited visited' : List TypeId} {id : TypeId}
    (hknown : id ∈ known) (hnew : id ∉ visited) (hvisited : ∀ x, x ∈ visited' ↔ x = id ∨ x ∈ visited) :
    (t.parents id).length + t.pending known visited' = t.pending known visited := by
  have hmem : id ∈ known.filter (· ∉ visited) := by simp [hknown, hnew]
  have herase : (known.filter (· ∉ visited)).erase id = known.filter (· ∉ visited') := by
    ext x
    simp only [mem_erase, mem_filter, hvisited, not_or]
    tauto
  rw [pending, pending, ← herase]
  exact add_sum_erase _ (fun id => (t.parents id).length) hmem

/-! ## The types a walk can meet -/

/-- The ends of the edges that described types have. -/
def describedEnds (t : TypeTable) : List TypeId := t.entries.flatMap fun (_, d) => d.supertypeIds

/-- Every type that a walk from a root can meet. -/
def metFrom (t : TypeTable) (root : TypeId) : Finset TypeId :=
  {root} ∪ t.describedEnds.toFinset ∪ {Standard.collection, Standard.charSequence, Standard.object}

/-- A declaration that is found stands in an entry. -/
theorem mem_entries_of_find? {t : TypeTable} {id : TypeId} {d : TypeDecl} (h : t.find? id = some d) :
    (id, d) ∈ t.entries := mem_of_lookup h

theorem mem_assumedSupertypes {id parent : TypeId} (h : parent ∈ id.assumedSupertypes) :
    parent = Standard.collection ∨ parent = Standard.charSequence ∨ parent = Standard.object := by
  rw [TypeId.assumedSupertypes] at h
  split at h
  · simp_all
  · split at h
    · simp_all
    · split at h <;> simp_all

/-- A walk never leaves the types it can meet. -/
theorem parents_mem_metFrom (t : TypeTable) (root id : TypeId) :
    ∀ parent ∈ t.parents id, parent ∈ t.metFrom root := by
  intro parent hparent
  rw [parents] at hparent
  cases hfind : t.find? id with
  | none =>
    rw [hfind] at hparent
    rcases mem_assumedSupertypes hparent with rfl | rfl | rfl <;> simp [metFrom]
  | some d =>
    rw [hfind] at hparent
    have hend : parent ∈ t.describedEnds := List.mem_flatMap.mpr ⟨(id, d), mem_entries_of_find? hfind, hparent⟩
    simp [metFrom, hend]

theorem root_mem_metFrom (t : TypeTable) (root : TypeId) : root ∈ t.metFrom root := by simp [metFrom]

/-! ## The budget covers every walk

Described types have the edges that the table lists, each type once. A type the host does not describe has at most
one edge, and there are no more of them than the root, the ends of listed edges and the standard types. -/

/-- The edges of described types, counted over any set of types. -/
theorem sum_described_le (entries : List (TypeId × TypeDecl)) (known : Finset TypeId) :
    ∑ id ∈ known, ((entries.lookup id).elim 0 fun d => d.supertypes.length)
      ≤ (entries.flatMap fun (_, d) => d.supertypes).length := by
  induction entries with
  | nil => simp
  | cons entry rest ih =>
    obtain ⟨key, decl⟩ := entry
    -- a type is found either here or in the rest
    have hsplit : ∀ id ∈ known, ((((key, decl) :: rest).lookup id).elim 0 fun d => d.supertypes.length)
        ≤ (if id = key then decl.supertypes.length else 0)
          + ((rest.lookup id).elim 0 fun d => d.supertypes.length) := by
      intro id _
      rw [List.lookup_cons]
      by_cases hkey : id = key
      · simp [hkey]
      · simp [show (id == key) = false by simpa using hkey]
    refine (sum_le_sum hsplit).trans ?_
    rw [sum_add_distrib, sum_ite_eq']
    rw [List.flatMap_cons, List.length_append]
    refine Nat.add_le_add ?_ ih
    split
    · exact Nat.le_refl _
    · exact Nat.zero_le _

/-- At most one type is assumed above each type. -/
theorem length_assumedSupertypes_le (id : TypeId) :
    id.assumedSupertypes.length ≤ if id = Standard.object then 0 else 1 := by
  by_cases hid : id = Standard.object
  · subst hid; decide +kernel
  · rw [if_neg hid, TypeId.assumedSupertypes]
    split
    · simp
    · split
      · simp
      · split <;> simp

theorem length_parents_le (t : TypeTable) (id : TypeId) :
    (t.parents id).length
      ≤ ((t.entries.lookup id).elim 0 fun d => d.supertypes.length) + if id = Standard.object then 0 else 1 := by
  rw [parents, find?]
  cases t.entries.lookup id with
  | none => simpa using length_assumedSupertypes_le id
  | some d =>
    have : d.supertypeIds.length ≤ d.supertypes.length := List.length_filterMap_le _ _
    simp only [Option.elim_some]
    omega

/-- The references of all declarations are counted in the budget. -/
theorem length_describedEnds_le (t : TypeTable) : t.describedEnds.length ≤ t.edgeCount := by
  rw [describedEnds, edgeCount]
  induction t.entries with
  | nil => exact Nat.le_refl _
  | cons entry rest ih =>
    rw [List.flatMap_cons, List.flatMap_cons, List.length_append, List.length_append]
    exact Nat.add_le_add (List.length_filterMap_le _ _) ih

/-- Without the root type, a walk can meet the ends of listed edges, its root and two standard types. -/
theorem card_metFrom_le (t : TypeTable) (root : TypeId) :
    ((t.metFrom root).filter (· ≠ Standard.object)).card ≤ t.edgeCount + 3 := by
  have hsub : (t.metFrom root).filter (· ≠ Standard.object)
      ⊆ {root} ∪ t.describedEnds.toFinset ∪ {Standard.collection, Standard.charSequence} := by
    intro id hid
    simp only [metFrom, mem_filter, mem_insert, mem_union, mem_singleton] at hid ⊢
    obtain ⟨hid | hid | hid | hid, hne⟩ := hid
    · exact .inl hid
    · exact .inr (.inl hid)
    · exact .inr (.inr hid)
    · exact absurd hid hne
  have hends : t.describedEnds.toFinset.card ≤ t.edgeCount :=
    (List.toFinset_card_le _).trans t.length_describedEnds_le
  calc ((t.metFrom root).filter (· ≠ Standard.object)).card
      ≤ ({root} ∪ t.describedEnds.toFinset ∪ {Standard.collection, Standard.charSequence}).card :=
        card_le_card hsub
    _ ≤ ({root} ∪ t.describedEnds.toFinset).card
          + ({Standard.collection, Standard.charSequence} : Finset TypeId).card := card_union_le _ _
    _ ≤ (1 + t.edgeCount) + 2 :=
        Nat.add_le_add ((card_union_le _ _).trans (Nat.add_le_add (card_singleton root).le hends)) card_le_two
    _ = t.edgeCount + 3 := by omega

/-- The first step and all edges that a walk can meet are within the budget. -/
theorem pending_metFrom_le (t : TypeTable) (root : TypeId) :
    1 + t.pending (t.metFrom root) [] ≤ t.walkBudget := by
  have hall : (t.metFrom root).filter (· ∉ ([] : List TypeId)) = t.metFrom root := by simp
  have hedges : t.pending (t.metFrom root) [] ≤ t.edgeCount + (t.edgeCount + 3) := by
    rw [pending, hall]
    calc ∑ id ∈ t.metFrom root, (t.parents id).length
        ≤ ∑ id ∈ t.metFrom root, (((t.entries.lookup id).elim 0 fun d => d.supertypes.length)
            + if id = Standard.object then 0 else 1) := sum_le_sum fun id _ => t.length_parents_le id
      _ = ∑ id ∈ t.metFrom root, ((t.entries.lookup id).elim 0 fun d => d.supertypes.length)
            + ((t.metFrom root).filter (· ≠ Standard.object)).card := by
          rw [sum_add_distrib, card_filter]
          simp only [ne_eq, ite_not]
      _ ≤ t.edgeCount + (t.edgeCount + 3) := Nat.add_le_add (sum_described_le _ _) (t.card_metFrom_le root)
  rw [walkBudget]
  omega

/-! ## The search decides reachability -/

/-- A search that succeeds has come along supertypes. -/
theorem reaches_of_search {t : TypeTable} {target : TypeId} {n : Nat} {queue seen : List TypeId}
    (h : t.search target n queue seen = true) : ∃ id ∈ queue, t.Reaches id target := by
  fun_induction search t target n queue seen with
  | case1 => simp at h
  | case2 => simp at h
  | case3 n queue seen => exact ⟨target, by simp, Reaches.refl t target⟩
  | case4 n id queue seen hne hseen ih =>
    obtain ⟨x, hx, hreach⟩ := ih h
    exact ⟨x, by simp [hx], hreach⟩
  | case5 n id queue seen hne hseen ih =>
    obtain ⟨x, hx, hreach⟩ := ih h
    rcases List.mem_append.mp hx with hx | hx
    · exact ⟨x, by simp [hx], hreach⟩
    · exact ⟨id, by simp, Reaches.head hx hreach⟩

/-- A set of types closed under direct supertypes holds whatever its members reach. -/
theorem Reaches.mem_of_closed {t : TypeTable} {p : TypeId → Prop} {a b : TypeId}
    (hclosed : ∀ x, p x → ∀ y ∈ t.parents x, p y) (h : t.Reaches a b) (ha : p a) : p b := by
  induction h with
  | refl => exact ha
  | tail _ hstep ih => exact hclosed _ ih _ hstep

/-- With enough steps left, a search that comes back empty-handed has missed nothing: what it has seen and what it has
queued is closed under direct supertypes, and the target is not in it. -/
theorem not_reaches_of_search {t : TypeTable} {target : TypeId} {known : Finset TypeId} {n : Nat}
    {queue seen : List TypeId} (hknown : ∀ id, ∀ parent ∈ t.parents id, parent ∈ known)
    (hqueue : ∀ id ∈ queue, id ∈ known)
    (hclosed : ∀ id ∈ seen, ∀ parent ∈ t.parents id, parent ∈ seen ∨ parent ∈ queue)
    (htarget : target ∉ seen) (hn : queue.length + t.pending known seen ≤ n)
    (h : t.search target n queue seen = false) :
    ∀ id, id ∈ seen ∨ id ∈ queue → ¬ t.Reaches id target := by
  fun_induction search t target n queue seen with
  | case1 queue seen =>
    -- no step is left, so the queue is empty
    obtain rfl : queue = [] := List.length_eq_zero_iff.mp (by omega)
    intro id hid hreach
    have hseen : ∀ x ∈ seen, ∀ parent ∈ t.parents x, parent ∈ seen := by simpa using hclosed
    exact htarget (hreach.mem_of_closed hseen (by simpa using hid))
  | case2 n seen =>
    intro id hid hreach
    have hseen : ∀ x ∈ seen, ∀ parent ∈ t.parents x, parent ∈ seen := by simpa using hclosed
    exact htarget (hreach.mem_of_closed hseen (by simpa using hid))
  | case3 n queue seen => simp at h
  | case4 n id queue seen hne hseen ih =>
    -- popping a type that was seen before loses nothing
    have hmem : ∀ x, x ∈ seen ∨ x ∈ id :: queue → x ∈ seen ∨ x ∈ queue := by
      rintro x (hx | hx)
      · exact .inl hx
      · rcases List.mem_cons.mp hx with rfl | hx
        · exact .inl hseen
        · exact .inr hx
    intro x hx
    refine ih (fun y hy => hqueue y (List.mem_cons_of_mem _ hy))
      (fun y hy parent hparent => hmem parent (hclosed y hy parent hparent)) htarget ?_ h x (hmem x hx)
    simp only [List.length_cons] at hn
    omega
  | case5 n id queue seen hne hseen ih =>
    -- a new type moves from the queue to those seen, and its supertypes into the queue
    have hmem : ∀ x, x ∈ seen ∨ x ∈ id :: queue → x ∈ id :: seen ∨ x ∈ queue ++ t.parents id := by
      rintro x (hx | hx)
      · exact .inl (List.mem_cons_of_mem _ hx)
      · rcases List.mem_cons.mp hx with rfl | hx
        · exact .inl List.mem_cons_self
        · exact .inr (List.mem_append_left _ hx)
    have hpay : (t.parents id).length + t.pending known (id :: seen) = t.pending known seen :=
      t.pending_visit (hqueue id List.mem_cons_self) hseen (by simp)
    intro x hx
    refine ih ?_ ?_ ?_ ?_ h x (hmem x hx)
    · intro y hy
      rcases List.mem_append.mp hy with hy | hy
      · exact hqueue y (List.mem_cons_of_mem _ hy)
      · exact hknown id y hy
    · intro y hy parent hparent
      rcases List.mem_cons.mp hy with rfl | hy
      · exact .inr (List.mem_append_right _ hparent)
      · exact hmem parent (hclosed y hy parent hparent)
    · simp [htarget, Ne.symm hne]
    · simp only [List.length_append, List.length_cons] at hn ⊢
      omega

/-- **The search decides reachability.** The budget never cuts it short. -/
theorem search_iff (t : TypeTable) (root target : TypeId) :
    t.search target t.walkBudget [root] [] = true ↔ t.Reaches root target := by
  constructor
  · intro h
    obtain ⟨id, hid, hreach⟩ := reaches_of_search h
    rw [List.mem_singleton.mp hid] at hreach
    exact hreach
  · intro hreach
    by_contra h
    have hempty : t.search target t.walkBudget [root] [] = false := by simpa using h
    refine not_reaches_of_search (t.parents_mem_metFrom root) ?_ ?_ ?_
      (t.pending_metFrom_le root) hempty root (.inr (by simp)) hreach
    · simp [root_mem_metFrom]
    · simp
    · simp

/-! ## Subtypes -/

theorem isPrimitive_object : Standard.object.isPrimitive = false := by decide +kernel

/-- Every type is a subtype of itself. Of two others neither may be primitive, and the upper one is the root type or
reachable from the lower one. -/
theorem isSubtype_iff (t : TypeTable) (sub sup : TypeId) :
    t.isSubtype sub sup = true ↔
      sub = sup ∨ (sub.isPrimitive = false ∧ sup.isPrimitive = false ∧
        (sup = Standard.object ∨ t.Reaches sub sup)) := by
  rw [isSubtype]
  by_cases heq : sub = sup
  · simp [heq]
  · rw [if_neg heq]
    by_cases hprim : (sub.isPrimitive || sup.isPrimitive) = true
    · rw [if_pos hprim]
      rcases Bool.or_eq_true _ _ ▸ hprim with h | h <;> simp [heq, h]
    · rw [if_neg hprim]
      obtain ⟨hsub, hsup⟩ : sub.isPrimitive = false ∧ sup.isPrimitive = false := by simpa using hprim
      by_cases hroot : sup = Standard.object
      · simp [hroot, hsub, isPrimitive_object]
      · rw [if_neg hroot, search_iff]
        simp [heq, hsub, hsup, hroot]

theorem isSubtype_refl (t : TypeTable) (id : TypeId) : t.isSubtype id id = true := by simp [isSubtype_iff]

theorem eq_object_of_isSubtype {t : TypeTable} (hroot : t.parents Standard.object = []) {sup : TypeId}
    (h : t.isSubtype Standard.object sup = true) : sup = Standard.object := by
  rcases (t.isSubtype_iff _ _).mp h with h | ⟨-, -, h | h⟩
  · exact h.symm
  · exact h
  · exact (h.eq_of_parents_nil hroot).symm

/-- **Subtyping is transitive** where the root type has no supertypes. -/
theorem isSubtype_trans {t : TypeTable} (hroot : t.parents Standard.object = []) {a b c : TypeId}
    (hab : t.isSubtype a b = true) (hbc : t.isSubtype b c = true) : t.isSubtype a c = true := by
  rcases (t.isSubtype_iff a b).mp hab with rfl | ⟨ha, hb, hup⟩
  · exact hbc
  rcases (t.isSubtype_iff b c).mp hbc with rfl | ⟨-, hc, hup'⟩
  · exact hab
  refine (t.isSubtype_iff a c).mpr (.inr ⟨ha, hc, ?_⟩)
  rcases hup with rfl | hreach
  · -- through the root type: nothing else is above it
    exact .inl (eq_object_of_isSubtype hroot hbc)
  · exact hup'.imp id hreach.trans

/-! ## Ancestry -/

/-- All types of a walk are reached from where it starts. -/
theorem reaches_of_mem_walk {t : TypeTable} {n : Nat} {queue order : List TypeId} {x : TypeId}
    (h : x ∈ t.walk n queue order) : x ∈ order ∨ ∃ id ∈ queue, t.Reaches id x := by
  fun_induction walk t n queue order with
  | case1 => exact .inl h
  | case2 => exact .inl h
  | case3 n id queue order hmem ih =>
    refine (ih h).imp_right ?_
    rintro ⟨y, hy, hreach⟩
    exact ⟨y, List.mem_cons_of_mem _ hy, hreach⟩
  | case4 n id queue order hmem ih =>
    rcases ih h with hx | ⟨y, hy, hreach⟩
    · rcases List.mem_append.mp hx with hx | hx
      · exact .inl hx
      · rw [List.mem_singleton.mp hx]
        exact .inr ⟨id, List.mem_cons_self, Reaches.refl t id⟩
    · rcases List.mem_append.mp hy with hy | hy
      · exact .inr ⟨y, List.mem_cons_of_mem _ hy, hreach⟩
      · exact .inr ⟨id, List.mem_cons_self, Reaches.head hy hreach⟩

theorem prefix_walk (t : TypeTable) (n : Nat) (queue order : List TypeId) : order <+: t.walk n queue order := by
  fun_induction walk t n queue order with
  | case1 => exact List.prefix_rfl
  | case2 => exact List.prefix_rfl
  | case3 n id queue order hmem ih => exact ih
  | case4 n id queue order hmem ih => exact (List.prefix_append order [id]).trans ih

/-- The ancestry of a type starts with the type; the root type may come last without being reachable. -/
theorem ancestry_eq_cons (t : TypeTable) (root : TypeId) : ∃ rest, t.ancestry root = root :: rest ∧
    ∀ id ∈ rest, t.Reaches root id ∨ id = Standard.object := by
  have hstart : t.walk t.walkBudget [root] [] = t.walk (2 * t.edgeCount + 4) (t.parents root) [root] := by
    rw [walkBudget, walk]
    simp
  obtain ⟨rest, hrest⟩ := t.prefix_walk (2 * t.edgeCount + 4) (t.parents root) [root]
  have hreach : ∀ id ∈ rest, t.Reaches root id := by
    intro id hid
    have hmem : id ∈ t.walk t.walkBudget [root] [] := by
      rw [hstart, ← hrest]
      exact List.mem_append_right _ hid
    rcases reaches_of_mem_walk hmem with hnil | ⟨start, hqueue, hreach⟩
    · cases hnil
    · rwa [List.mem_singleton.mp hqueue] at hreach
  have horder : t.walk t.walkBudget [root] [] = root :: rest := by rw [hstart, ← hrest, List.singleton_append]
  rw [ancestry, horder]
  split
  · exact ⟨rest, rfl, fun id hid => .inl (hreach id hid)⟩
  · refine ⟨rest ++ [Standard.object], rfl, fun id hid => ?_⟩
    rcases List.mem_append.mp hid with hid | hid
    · exact .inl (hreach id hid)
    · exact .inr (List.mem_singleton.mp hid)

/-- With enough steps left, a walk misses nothing: what it has visited and what it has queued is closed under direct
supertypes. -/
theorem mem_walk_of_reaches {t : TypeTable} {known : Finset TypeId} {n : Nat} {queue order : List TypeId}
    (hknown : ∀ id, ∀ parent ∈ t.parents id, parent ∈ known) (hqueue : ∀ id ∈ queue, id ∈ known)
    (hclosed : ∀ id ∈ order, ∀ parent ∈ t.parents id, parent ∈ order ∨ parent ∈ queue)
    (hn : queue.length + t.pending known order ≤ n) {id target : TypeId} (hid : id ∈ order ∨ id ∈ queue)
    (hreach : t.Reaches id target) : target ∈ t.walk n queue order := by
  fun_induction walk t n queue order with
  | case1 queue order =>
    -- no step is left, so the queue is empty
    obtain rfl : queue = [] := List.length_eq_zero_iff.mp (by omega)
    exact hreach.mem_of_closed (p := (· ∈ order)) (by simpa using hclosed) (by simpa using hid)
  | case2 n order => exact hreach.mem_of_closed (p := (· ∈ order)) (by simpa using hclosed) (by simpa using hid)
  | case3 n first queue order hmem ih =>
    have hpop : ∀ x, x ∈ order ∨ x ∈ first :: queue → x ∈ order ∨ x ∈ queue := by
      rintro x (hx | hx)
      · exact .inl hx
      · rcases List.mem_cons.mp hx with rfl | hx
        · exact .inl hmem
        · exact .inr hx
    refine ih (fun y hy => hqueue y (List.mem_cons_of_mem _ hy))
      (fun y hy parent hparent => hpop parent (hclosed y hy parent hparent)) ?_ (hpop id hid)
    simp only [List.length_cons] at hn
    omega
  | case4 n first queue order hmem ih =>
    have hpop : ∀ x, x ∈ order ∨ x ∈ first :: queue → x ∈ order ++ [first] ∨ x ∈ queue ++ t.parents first := by
      rintro x (hx | hx)
      · exact .inl (List.mem_append_left _ hx)
      · rcases List.mem_cons.mp hx with rfl | hx
        · exact .inl (List.mem_append_right _ List.mem_cons_self)
        · exact .inr (List.mem_append_left _ hx)
    have hpay : (t.parents first).length + t.pending known (order ++ [first]) = t.pending known order :=
      t.pending_visit (hqueue first List.mem_cons_self) hmem (by simp [or_comm])
    refine ih ?_ ?_ ?_ (hpop id hid)
    · intro y hy
      rcases List.mem_append.mp hy with hy | hy
      · exact hqueue y (List.mem_cons_of_mem _ hy)
      · exact hknown first y hy
    · intro y hy parent hparent
      rcases List.mem_append.mp hy with hy | hy
      · exact hpop parent (hclosed y hy parent hparent)
      · rw [List.mem_singleton.mp hy] at hparent
        exact .inr (List.mem_append_right _ hparent)
    · simp only [List.length_append, List.length_cons] at hn ⊢
      omega

/-- What a walk from a type visits are the types that it reaches. -/
theorem mem_walk_iff (t : TypeTable) (root id : TypeId) :
    id ∈ t.walk t.walkBudget [root] [] ↔ t.Reaches root id := by
  refine ⟨fun h => ?_, fun h => ?_⟩
  · rcases reaches_of_mem_walk h with hnil | ⟨start, hstart, hreach⟩
    · cases hnil
    · rwa [List.mem_singleton.mp hstart] at hreach
  · refine mem_walk_of_reaches (t.parents_mem_metFrom root) ?_ ?_ (t.pending_metFrom_le root)
      (.inr (List.mem_singleton_self root)) h
    · simp [root_mem_metFrom]
    · simp

/-- **The ancestry of a type lists all types that it reaches**, and the root type unless the type is primitive. -/
theorem mem_ancestry_iff (t : TypeTable) (root id : TypeId) :
    id ∈ t.ancestry root ↔ t.Reaches root id ∨ (root.isPrimitive = false ∧ id = Standard.object) := by
  have hwalk := t.mem_walk_iff root
  rw [ancestry]
  split
  · next hleft =>
    rw [hwalk]
    refine ⟨.inl, ?_⟩
    rintro (hreach | ⟨hprim, hobject⟩)
    · exact hreach
    · rcases hleft with hleft | hleft
      · rw [hprim] at hleft
        cases hleft
      · exact (hwalk id).mp (hobject ▸ hleft)
  · next hleft =>
    have hprim : root.isPrimitive = false := Bool.eq_false_iff.mpr fun h => hleft (.inl h)
    rw [List.mem_append, List.mem_singleton, hwalk, hprim]
    simp

/-! ## Hierarchies without cycles -/

/-- No type is among the supertypes of one of its direct supertypes. -/
def Acyclic (t : TypeTable) : Prop := ∀ a, ∀ b ∈ t.parents a, ¬ t.Reaches b a

/-- Without circles two types that reach each other are one. -/
theorem Acyclic.eq_of_reaches {t : TypeTable} (ht : t.Acyclic) {a b : TypeId} (hab : t.Reaches a b)
    (hba : t.Reaches b a) : a = b := by
  rcases Relation.ReflTransGen.cases_head hab with heq | ⟨c, hc, hcb⟩
  · exact heq
  · exact absurd (Reaches.trans hcb hba) (ht a c hc)

/-- A hierarchy in which no supertype has supertypes. -/
theorem acyclic_of_flat {t : TypeTable} (h : ∀ a, ∀ b ∈ t.parents a, t.parents b = []) : t.Acyclic := by
  intro a b hb hreach
  have hflat := h a b hb
  have heq : b = a := hreach.eq_of_parents_nil hflat
  rw [← heq, hflat] at hb
  cases hb

/-- Flatness can be read off the entries: other types have no supertypes but standard ones. -/
theorem acyclic_of_entries {t : TypeTable}
    (hentries : (t.entries.all fun entry => entry.2.supertypeIds.all fun id => (t.parents id).isEmpty) = true)
    (hassumed : ([Standard.collection, Standard.charSequence, Standard.object].all fun id =>
      (t.parents id).isEmpty) = true) : t.Acyclic := by
  refine acyclic_of_flat fun a b hb => List.isEmpty_iff.mp ?_
  rw [parents] at hb
  cases hfind : t.find? a with
  | some d =>
    rw [hfind] at hb
    exact List.all_eq_true.mp (List.all_eq_true.mp hentries _ (mem_entries_of_find? hfind)) b hb
  | none =>
    rw [hfind] at hb
    refine List.all_eq_true.mp hassumed b ?_
    rcases mem_assumedSupertypes hb with rfl | rfl | rfl <;> simp

/-- Neither has a table that lists no type before its supertypes, if it describes those that are assumed elsewhere. -/
theorem acyclic_of_order {t : TypeTable}
    (hentries : (t.entries.all fun entry => entry.2.supertypeIds.all fun parent =>
      (t.entries.map (·.1)).idxOf parent < (t.entries.map (·.1)).idxOf entry.1) = true)
    (hassumed : ([Standard.collection, Standard.charSequence, Standard.object].all fun id =>
      id ∈ t.entries.map (·.1)) = true) : t.Acyclic := by
  let rank : TypeId → Nat := (t.entries.map (·.1)).idxOf
  -- parents come earlier in the entries, and those that are not described are assumed to be among the first
  have hup : ∀ a, ∀ b ∈ t.parents a, rank b < rank a := by
    intro a b hb
    rw [parents] at hb
    cases hfind : t.find? a with
    | some d =>
      rw [hfind] at hb
      have hentry := List.all_eq_true.mp hentries _ (mem_entries_of_find? hfind)
      exact of_decide_eq_true (List.all_eq_true.mp hentry b hb)
    | none =>
      rw [hfind] at hb
      have hmem : b ∈ t.entries.map (·.1) := by
        refine of_decide_eq_true (List.all_eq_true.mp hassumed b ?_)
        rcases mem_assumedSupertypes hb with rfl | rfl | rfl <;> simp
      have hnone : a ∉ t.entries.map (·.1) := by
        intro ha
        obtain ⟨entry, hentry, rfl⟩ := List.mem_map.mp ha
        have hne := List.lookup_eq_none_iff.mp hfind entry hentry
        simp at hne
      exact (List.idxOf_lt_length_of_mem hmem).trans_eq (List.idxOf_eq_length hnone).symm
  have hreaches : ∀ {a b}, t.Reaches a b → rank b ≤ rank a := by
    intro a b h
    induction h with
    | refl => exact Nat.le_refl _
    | tail _ hstep ih => exact (hup _ _ hstep).le.trans ih
  intro a b hb hreach
  exact Nat.lt_irrefl _ ((hup a b hb).trans_le (hreaches hreach))

end TypeTable

end Interop
