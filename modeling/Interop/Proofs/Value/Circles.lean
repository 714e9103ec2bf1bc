import Interop.Proofs.Store.Discipline
import Mathlib.Data.Finset.Card
import Mathlib.Logic.Relation

/-!
# Circles

The text of an array, list or map is made of the texts of what it holds, that of a handle, an adapter or a proxy is the
text of what stands behind it. `Store.Shows` relates an object to those that its text is made of. There are finitely
many objects, so who follows references long enough comes back to one of them; it follows that it can be decided
whether a text leads into a circle.

* **`Store.Shows`**, **`Store.Circular`**: what the text of an object is made of, and the objects whose texts lead into
  a circle.
* **`Store.LeadsOn`**, **`Store.leadsOn_depth_iff`**: as many references can be followed as there are objects, and one
  more, only into a circle.
-/

namespace Interop

/-! ## What is shown -/

/-- The object that the text of a script value shows. -/
def Script.shown : Script → List Referent
  | object r => [.object r]
  | _ => []

/-- What the text of a native object is made of. -/
def NativeObject.shown : NativeObject → List Referent
  | array a => a.elements.flatMap Native.held
  | list l => l.elements.flatMap Native.held
  | map m => m.held
  | handle v => v.shown
  | adapter target _ _ _ => target.shown
  | _ => []

/-- What the text of a script object is made of. -/
def ScriptObject.shown : ScriptObject → List Referent
  | plain _ => []
  | array elements => elements.flatMap Script.shown
  | proxy p => p.value.held

namespace Store

variable {s s' : Store} {x y : Referent}

/-- What the text of an object is made of; functions and cells are never shown. -/
def shownBy (s : Store) : Referent → List Referent
  | .native r => (s.native r).shown
  | .object r => (s.object r).shown
  | _ => []

/-- The text of one object is made of that of another, among others. -/
def Shows (s : Store) (x y : Referent) : Prop := y ∈ s.shownBy x

/-- What an object shows leads to one that shows itself in the end. -/
def Circular (s : Store) (x : Referent) : Prop :=
  ∃ y, Relation.ReflTransGen s.Shows x y ∧ Relation.TransGen s.Shows y y

/-- That many references can be followed, one after the other. -/
def LeadsOn (s : Store) : Nat → Referent → Prop
  | 0, _ => True
  | n + 1, x => ∃ y, s.Shows x y ∧ s.LeadsOn n y

/-! ## Circles -/

/-- Who shows an object that leads into a circle leads into it too. -/
theorem Circular.of_shows (hxy : s.Shows x y) (hy : s.Circular y) : s.Circular x := by
  obtain ⟨z, hyz, hz⟩ := hy
  exact ⟨z, .head hxy hyz, hz⟩

/-- Who shows nothing leads nowhere. -/
theorem eq_of_shownBy_eq_nil (hx : s.shownBy x = []) (h : Relation.ReflTransGen s.Shows x y) : y = x := by
  rcases h.cases_head with rfl | ⟨z, hz, -⟩
  · rfl
  · rw [Shows, hx] at hz
    cases hz

/-- A circle goes on. -/
theorem Circular.exists_shows (h : s.Circular x) : ∃ y, s.Shows x y ∧ s.Circular y := by
  obtain ⟨z, hxz, hz⟩ := h
  rcases hxz.cases_head with rfl | ⟨y, hxy, hyz⟩
  · obtain ⟨y, hxy, hyx⟩ := Relation.TransGen.head'_iff.mp hz
    exact ⟨y, hxy, x, hyx, hz⟩
  · exact ⟨y, hxy, z, hyz, hz⟩

/-- In a circle, references can be followed for ever. -/
theorem Circular.leadsOn (h : s.Circular x) (n : Nat) : s.LeadsOn n x := by
  induction n generalizing x with
  | zero => trivial
  | succ n ih =>
    obtain ⟨y, hxy, hy⟩ := h.exists_shows
    exact ⟨y, hxy, ih hy⟩

/-- Who can follow many references can follow fewer. -/
theorem LeadsOn.of_le {m n : Nat} (h : s.LeadsOn n x) (hle : m ≤ n) : s.LeadsOn m x := by
  induction m generalizing n x with
  | zero => trivial
  | succ m ih =>
    obtain ⟨k, rfl⟩ := Nat.exists_eq_add_of_lt hle
    obtain ⟨y, hxy, hy⟩ := h
    exact ⟨y, hxy, ih hy (Nat.le_add_right m k)⟩

/-- The objects that there are. -/
def present (s : Store) : Finset Referent :=
  (Finset.range s.natives.size).image (fun i => .native ⟨i⟩) ∪
    (Finset.range s.objects.size).image (fun i => .object ⟨i⟩)

/-- There are fewer of them than the references that a text may follow. -/
theorem card_present_lt (s : Store) : s.present.card < s.depth := by
  have hnatives := (Finset.range s.natives.size).card_image_le (f := fun i => Referent.native ⟨i⟩)
  have hobjects := (Finset.range s.objects.size).card_image_le (f := fun i => Referent.object ⟨i⟩)
  rw [Finset.card_range] at hnatives hobjects
  have hunion := Finset.card_union_le ((Finset.range s.natives.size).image fun i => Referent.native ⟨i⟩)
    ((Finset.range s.objects.size).image fun i => Referent.object ⟨i⟩)
  unfold present depth
  omega

/-- Objects that are not there show nothing. -/
theorem Shows.mem_present (h : s.Shows x y) : x ∈ s.present := by
  rw [present, Finset.mem_union, Finset.mem_image, Finset.mem_image]
  cases x with
  | native r =>
    refine .inl ⟨r.index, Finset.mem_range.mpr (index_lt_of_native fun hmissing => ?_), rfl⟩
    rw [Shows, shownBy, hmissing] at h
    cases h
  | object r =>
    refine .inr ⟨r.index, Finset.mem_range.mpr (Nat.lt_of_not_le fun hle => ?_), rfl⟩
    rw [Shows, shownBy, object, Array.getD_eq_getD_getElem?, Array.getElem?_eq_none hle] at h
    cases h
  | function r => cases h
  | cell r => cases h

/-- The references that are followed, in order. -/
theorem LeadsOn.exists_chain {n : Nat} (h : s.LeadsOn n x) :
    ∃ chain : Nat → Referent, chain 0 = x ∧ ∀ k < n, s.Shows (chain k) (chain (k + 1)) := by
  induction n generalizing x with
  | zero => exact ⟨fun _ => x, rfl, nofun⟩
  | succ n ih =>
    obtain ⟨y, hxy, hy⟩ := h
    obtain ⟨chain, rfl, hchain⟩ := ih hy
    refine ⟨fun k => k.casesOn x chain, rfl, fun k hk => ?_⟩
    cases k with
    | zero => exact hxy
    | succ k => exact hchain k (by omega)

/-- A chain that comes back to an object goes round. -/
theorem circular_of_chain {chain : Nat → Referent} {n i j : Nat}
    (hchain : ∀ k < n, s.Shows (chain k) (chain (k + 1))) (hij : i < j) (hj : j < n) (heq : chain i = chain j) :
    s.Circular (chain 0) := by
  have hreach : ∀ i k, i + k < n → Relation.ReflTransGen s.Shows (chain i) (chain (i + k)) := by
    intro i k hk
    induction k with
    | zero => exact .refl
    | succ k ih => exact (ih (by omega)).tail (hchain (i + k) (by omega))
  refine ⟨chain i, ?_, ?_⟩
  · have hstart := hreach 0 i (by omega)
    rwa [Nat.zero_add] at hstart
  · have hround := hreach (i + 1) (j - (i + 1)) (by omega)
    rw [Nat.add_sub_cancel' hij, ← heq] at hround
    exact .head' (hchain i (by omega)) hround

/-- **Who follows more references than there are objects is in a circle.** -/
theorem leadsOn_depth_iff : s.LeadsOn s.depth x ↔ s.Circular x := by
  refine ⟨fun h => ?_, fun h => h.leadsOn s.depth⟩
  obtain ⟨chain, rfl, hchain⟩ := h.exists_chain
  have hcard : s.present.card < (Finset.range s.depth).card := by
    rw [Finset.card_range]
    exact s.card_present_lt
  have hmaps : ∀ k ∈ Finset.range s.depth, chain k ∈ s.present :=
    fun k hk => (hchain k (Finset.mem_range.mp hk)).mem_present
  -- the chain has more places than there are objects, so some object takes two of them
  obtain ⟨i, hi, j, hj, hne, heq⟩ := Finset.exists_ne_map_eq_of_card_lt_of_maps_to hcard hmaps
  rcases Nat.lt_or_gt_of_ne hne with hlt | hlt
  · exact circular_of_chain hchain hlt (Finset.mem_range.mp hj) heq
  · exact circular_of_chain hchain hlt (Finset.mem_range.mp hi) heq.symm

/-- The same for any number of references that is large enough. -/
theorem LeadsOn.circular {n : Nat} (h : s.LeadsOn n x) (hle : s.depth ≤ n) : s.Circular x :=
  leadsOn_depth_iff.mp (h.of_le hle)

instance (s : Store) : (n : Nat) → (x : Referent) → Decidable (s.LeadsOn n x)
  | 0, _ => .isTrue trivial
  | n + 1, x =>
    have := instDecidableLeadsOn s n
    inferInstanceAs (Decidable (∃ y ∈ s.shownBy x, s.LeadsOn n y))

instance (s : Store) (x : Referent) : Decidable (s.Circular x) := decidable_of_iff _ leadsOn_depth_iff

end Store

end Interop
