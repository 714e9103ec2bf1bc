import Interop.Proofs.TypeTable.Reachability
import Interop.Store.Declare
import Mathlib.Data.ENat.Lattice

/-!
# Ancestries are breadth-first

The ancestry of a type is what a walk from it visits, one round after the other until the queue is empty. Each round
takes the first type of the queue; what is queued are the types of one distance, and behind them types that are one step
farther away, so that types are visited in the order of their distances.

* **`Round`**, **`rounds_walk`**: the rounds of a walk, which come to an end on every table.
* **`Leads`**, **`distance`**: how many steps lead from a type to one of its supertypes.
* **`Layered`**: the two layers of the queue, and what has been visited before them; each round keeps them
  (`Layered.skip`, `Layered.visit`, `Layered.turn`).
* **`ancestry_breadthFirst`**: what an ancestry lists, in which order, and that it agrees with the subtype test.
-/

namespace Interop.TypeTable

-- ids are compared as they stand; unfolding one means computing a digest
attribute [local irreducible] TypeId.ofName

variable {t : TypeTable} {root id : TypeId} {queue order : List TypeId}

/-! ## Rounds -/

/-- One round of a walk: the first type of the queue has been visited before, or it is visited now and its direct
supertypes are queued. -/
inductive Round (t : TypeTable) : List TypeId × List TypeId → List TypeId × List TypeId → Prop where
  | skip {id : TypeId} {queue order : List TypeId} (h : id ∈ order) : Round t (id :: queue, order) (queue, order)
  | visit {id : TypeId} {queue order : List TypeId} (h : id ∉ order) :
    Round t (id :: queue, order) (queue ++ t.parents id, order ++ [id])

/-- Round after round. -/
def Rounds (t : TypeTable) : List TypeId × List TypeId → List TypeId × List TypeId → Prop :=
  Relation.ReflTransGen t.Round

/-- With enough steps left, the rounds of a walk go on until the queue is empty. -/
theorem rounds_walk {known : Finset TypeId} {n : Nat} (hknown : ∀ id, ∀ parent ∈ t.parents id, parent ∈ known)
    (hqueue : ∀ id ∈ queue, id ∈ known) (hn : queue.length + t.pending known order ≤ n) :
    t.Rounds (queue, order) ([], t.walk n queue order) := by
  fun_induction walk t n queue order with
  | case1 queue order =>
    -- no step is left, so the queue is empty
    obtain rfl : queue = [] := List.length_eq_zero_iff.mp (by omega)
    exact .refl
  | case2 n order => exact .refl
  | case3 n id queue order hmem ih =>
    refine .head (.skip hmem) (ih (fun y hy => hqueue y (List.mem_cons_of_mem _ hy)) ?_)
    simp only [List.length_cons] at hn
    omega
  | case4 n id queue order hmem ih =>
    have hpay : (t.parents id).length + t.pending known (order ++ [id]) = t.pending known order :=
      t.pending_visit (hqueue id List.mem_cons_self) hmem (by simp [or_comm])
    refine .head (.visit hmem) (ih ?_ ?_)
    · intro y hy
      rcases List.mem_append.mp hy with hy | hy
      · exact hqueue y (List.mem_cons_of_mem _ hy)
      · exact hknown id y hy
    · simp only [List.length_append, List.length_cons] at hn ⊢
      omega

/-- A round adds to what was visited only what was not there. -/
theorem nodup_walk (t : TypeTable) (n : Nat) (queue : List TypeId) {order : List TypeId} (h : order.Nodup) :
    (t.walk n queue order).Nodup := by
  fun_induction walk t n queue order with
  | case1 => exact h
  | case2 => exact h
  | case3 n id queue order hmem ih => exact ih h
  | case4 n id queue order hmem ih =>
    apply ih
    exact (List.perm_append_singleton id order).nodup_iff.mpr (List.nodup_cons.mpr ⟨hmem, h⟩)

/-- An ancestry lists no type twice. -/
theorem nodup_ancestry (t : TypeTable) (id : TypeId) : (t.ancestry id).Nodup := by
  have hwalk := t.nodup_walk t.walkBudget [id] List.nodup_nil
  rw [ancestry]
  split
  · exact hwalk
  · next hobject =>
    refine (List.perm_append_singleton _ _).nodup_iff.mpr (List.nodup_cons.mpr ⟨fun hmem => ?_, hwalk⟩)
    exact hobject (.inr hmem)

/-! ## Distances -/

/-- A number of steps, each to a direct supertype, leads from one type to another. -/
inductive Leads (t : TypeTable) : Nat → TypeId → TypeId → Prop where
  | stay (a : TypeId) : Leads t 0 a a
  | step {n : Nat} {a b c : TypeId} (h : Leads t n a b) (hc : c ∈ t.parents b) : Leads t (n + 1) a c

/-- The least number of steps from a type to one of its supertypes; infinite for all other types. -/
noncomputable def distance (t : TypeTable) (a b : TypeId) : ℕ∞ := ⨅ n : { n : Nat // t.Leads n a b }, (n : ℕ∞)

/-- A way from one type to another bounds their distance from above. -/
theorem Leads.distance_le {n : Nat} {a b : TypeId} (h : t.Leads n a b) : t.distance a b ≤ n :=
  iInf_le (fun n : { n : Nat // t.Leads n a b } => (n : ℕ∞)) ⟨n, h⟩

/-- What bounds all ways from below bounds the distance. -/
theorem le_distance {d : Nat} {a b : TypeId} (h : ∀ n, t.Leads n a b → d ≤ n) : (d : ℕ∞) ≤ t.distance a b :=
  le_iInf fun n => Nat.cast_le.mpr (h n n.2)

/-! ## Layers -/

/-- What a walk has visited and queued after some rounds. First in the queue are types at one distance, and behind them
direct supertypes of visited ones, at the next distance. Nothing nearer is missing from what was visited, and that is
in the order of distances. -/
structure Layered (t : TypeTable) (root : TypeId) (d : Nat) (current next order : List TypeId) : Prop where
  front : ∀ id ∈ current, t.Leads d root id
  behind : ∀ id ∈ next, t.Leads (d + 1) root id
  nearer : ∀ n id, n < d → t.Leads n root id → id ∈ order
  level : ∀ id, t.Leads d root id → id ∈ order ∨ id ∈ current
  closed : ∀ id ∈ order, ∀ parent ∈ t.parents id, parent ∈ order ∨ parent ∈ current ∨ parent ∈ next
  visited : ∀ id ∈ order, t.distance root id ≤ d
  sorted : order.Pairwise fun a b => t.distance root a ≤ t.distance root b

namespace Layered

variable {d : Nat} {current next : List TypeId}

/-- Before the first round the root is at the front and nothing is behind it. -/
theorem start (t : TypeTable) (root : TypeId) : Layered t root 0 [root] [] [] where
  front id hid := by
    rw [List.mem_singleton.mp hid]
    exact .stay root
  behind := by simp
  nearer n id hn := by omega
  level id hid := by
    cases hid
    simp
  closed := by simp
  visited := by simp
  sorted := List.Pairwise.nil

/-- The first type of the queue has been visited before. -/
theorem skip (h : Layered t root d (id :: current) next order) (hid : id ∈ order) :
    Layered t root d current next order where
  front x hx := h.front x (List.mem_cons_of_mem _ hx)
  behind := h.behind
  nearer := h.nearer
  level x hx := by
    rcases h.level x hx with hx | hx
    · exact .inl hx
    · rcases List.mem_cons.mp hx with rfl | hx
      · exact .inl hid
      · exact .inr hx
  closed x hx parent hparent := by
    rcases h.closed x hx parent hparent with hp | hp | hp
    · exact .inl hp
    · rcases List.mem_cons.mp hp with rfl | hp
      · exact .inl hid
      · exact .inr (.inl hp)
    · exact .inr (.inr hp)
  visited := h.visited
  sorted := h.sorted

/-- The first type of the queue is new: it is not nearer than the layer it is in. -/
theorem visit (h : Layered t root d (id :: current) next order) (hid : id ∉ order) :
    Layered t root d current (next ++ t.parents id) (order ++ [id]) := by
  have hleads : t.Leads d root id := h.front id List.mem_cons_self
  -- the type was not met before, so no shorter way leads to it
  have hfar : (d : ℕ∞) ≤ t.distance root id := by
    refine le_distance fun n hn => ?_
    by_contra hlt
    exact hid (h.nearer n id (by omega) hn)
  constructor
  · exact fun x hx => h.front x (List.mem_cons_of_mem _ hx)
  · intro x hx
    rcases List.mem_append.mp hx with hx | hx
    · exact h.behind x hx
    · exact .step hleads hx
  · exact fun n x hn hx => List.mem_append_left _ (h.nearer n x hn hx)
  · intro x hx
    rcases h.level x hx with hx | hx
    · exact .inl (List.mem_append_left _ hx)
    · rcases List.mem_cons.mp hx with rfl | hx
      · exact .inl (List.mem_append_right _ List.mem_cons_self)
      · exact .inr hx
  · -- what is closed: the parents of what was visited before, and those of the type that is visited now
    intro x hx parent hparent
    rcases List.mem_append.mp hx with hx | hx
    · rcases h.closed x hx parent hparent with hp | hp | hp
      · exact .inl (List.mem_append_left _ hp)
      · rcases List.mem_cons.mp hp with rfl | hp
        · exact .inl (List.mem_append_right _ List.mem_cons_self)
        · exact .inr (.inl hp)
      · exact .inr (.inr (List.mem_append_left _ hp))
    · rw [List.mem_singleton.mp hx] at hparent
      exact .inr (.inr (List.mem_append_right _ hparent))
  · intro x hx
    rcases List.mem_append.mp hx with hx | hx
    · exact h.visited x hx
    · rw [List.mem_singleton.mp hx]
      exact hleads.distance_le
  · refine List.pairwise_append.mpr ⟨h.sorted, List.pairwise_singleton _ _, fun a ha b hb => ?_⟩
    rw [List.mem_singleton.mp hb]
    exact (h.visited a ha).trans hfar

/-- A layer is used up, and the next one comes forward. -/
theorem turn (h : Layered t root d [] next order) : Layered t root (d + 1) next [] order where
  front := h.behind
  behind := by simp
  nearer n id hn hid := by
    rcases Nat.lt_succ_iff_lt_or_eq.mp hn with hlt | rfl
    · exact h.nearer n id hlt hid
    · simpa using h.level id hid
  level id hid := by
    -- the last step starts at a type of the layer that is used up, so all its supertypes are queued
    cases hid with
    | @step _ _ b _ hb hparent =>
      have hvisited : b ∈ order := by simpa using h.level b hb
      simpa using h.closed b hvisited id hparent
  closed id hid parent hparent := by simpa using h.closed id hid parent hparent
  visited id hid := (h.visited id hid).trans (Nat.cast_le.mpr (Nat.le_succ d))
  sorted := h.sorted

/-- **Layered walks go on in the order of distances.** -/
theorem sorted_walk {n : Nat} (h : Layered t root d current next order) :
    (t.walk n (current ++ next) order).Pairwise fun a b => t.distance root a ≤ t.distance root b := by
  induction n generalizing d current next order with
  | zero => exact h.sorted
  | succ n ih =>
    -- one round, where the front layer is not used up
    have hround : ∀ {d : Nat} {id : TypeId} {current next order : List TypeId},
        Layered t root d (id :: current) next order →
          (t.walk (n + 1) (id :: current ++ next) order).Pairwise fun a b =>
            t.distance root a ≤ t.distance root b := by
      intro d id current next order h
      rw [List.cons_append, walk]
      split
      · next hid => exact ih (h.skip hid)
      · next hid =>
        rw [List.append_assoc]
        exact ih (h.visit hid)
    cases current with
    | cons id current => exact hround h
    | nil =>
      cases next with
      | nil => exact h.sorted
      | cons id next =>
        have hturned := hround h.turn
        rwa [List.append_nil] at hturned

end Layered

/-! ## Ancestries -/

/-- **Ancestries are breadth-first, and agree with the subtype test.** On every table and from every type,
* a walk comes to an end, and what it visits are the types that are reached, in the order of their distances;
* the ancestry is what was visited, and the root type behind it where it is not reached and the type is not primitive;
* it starts with the type and lists no type twice;
* of types that are not primitive, those in the ancestry of a type are those that it is a subtype of. -/
theorem ancestry_breadthFirst (t : TypeTable) (root : TypeId) :
    (∃ visited, t.Rounds ([root], []) ([], visited) ∧ (∀ id, id ∈ visited ↔ t.Reaches root id) ∧
      visited.Pairwise (fun a b => t.distance root a ≤ t.distance root b) ∧
      ((root.isPrimitive = true ∨ t.Reaches root Standard.object) → t.ancestry root = visited) ∧
      (root.isPrimitive = false → ¬ t.Reaches root Standard.object →
        t.ancestry root = visited ++ [Standard.object])) ∧
    (t.ancestry root).head? = some root ∧ (t.ancestry root).Nodup ∧
    ∀ id, root.isPrimitive = false → id.isPrimitive = false →
      (id ∈ t.ancestry root ↔ t.isSubtype root id = true) := by
  have hmem := t.mem_walk_iff root
  refine ⟨⟨t.walk t.walkBudget [root] [], ?_, hmem, ?_, ?_, ?_⟩, ?_, t.nodup_ancestry root, ?_⟩
  · exact rounds_walk (t.parents_mem_metFrom root) (by simp [root_mem_metFrom]) (t.pending_metFrom_le root)
  · exact (Layered.start t root).sorted_walk
  · intro h
    rw [ancestry]
    exact if_pos (h.imp_right (hmem _).mpr)
  · intro hprimitive hreach
    rw [ancestry]
    refine if_neg (not_or.mpr ⟨?_, (hmem _).not.mpr hreach⟩)
    simp [hprimitive]
  · obtain ⟨rest, hrest, -⟩ := t.ancestry_eq_cons root
    rw [hrest]
    rfl
  · intro id hroot hid
    rw [mem_ancestry_iff, isSubtype_iff]
    constructor
    · rintro (hreach | ⟨-, hobject⟩)
      · exact .inr ⟨hroot, hid, .inr hreach⟩
      · exact .inr ⟨hroot, hid, .inl hobject⟩
    · rintro (rfl | ⟨-, -, hobject | hreach⟩)
      · exact .inl (Reaches.refl t root)
      · exact .inr ⟨hroot, hobject⟩
      · exact .inl hreach

/-- Two classes that extend one another; the first has an interface, and neither names the root type. -/
def circle : TypeTable :=
  let named : TypeSpec := { name := "demo.Named", kind := .ofInterface }
  let near : TypeSpec :=
    { name := "demo.Near", kind := .ofClass, superclass := some (.plain "demo.Far")
      interfaces := [.interface "demo.Named" false] }
  let far : TypeSpec := { name := "demo.Far", kind := .ofClass, superclass := some (.plain "demo.Near") }
  ([named, near, far].foldl Store.declare (.standard {} false)).types

/-- From the far class, the interface is two steps away, the root type comes last, and each of the two is a subtype of
the other. -/
theorem ancestry_breadthFirst_circle :
    circle.ancestry (.ofName "demo.Far")
      = [.ofName "demo.Far", .ofName "demo.Near", .ofName "demo.Named", Standard.object] ∧
    (circle.ancestry (.ofName "demo.Far")).Nodup ∧
    circle.isSubtype (.ofName "demo.Far") (.ofName "demo.Named") = true ∧
    circle.isSubtype (.ofName "demo.Near") (.ofName "demo.Far") = true ∧
    circle.isSubtype (.ofName "demo.Named") (.ofName "demo.Far") = false := by
  obtain ⟨-, -, hnodup, hfar⟩ := circle.ancestry_breadthFirst (.ofName "demo.Far")
  obtain ⟨-, -, -, hnear⟩ := circle.ancestry_breadthFirst (.ofName "demo.Near")
  obtain ⟨-, -, -, hnamed⟩ := circle.ancestry_breadthFirst (.ofName "demo.Named")
  refine ⟨by decide +kernel, hnodup, ?_, ?_, ?_⟩
  · exact (hfar _ (by decide +kernel) (by decide +kernel)).mp (by decide +kernel)
  · exact (hnear _ (by decide +kernel) (by decide +kernel)).mp (by decide +kernel)
  · refine Bool.eq_false_iff.mpr fun hsub => ?_
    have hmem := (hnamed _ (by decide +kernel) (by decide +kernel)).mpr hsub
    exact absurd hmem (by decide +kernel)

end Interop.TypeTable
