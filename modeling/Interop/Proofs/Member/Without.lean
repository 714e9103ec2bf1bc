import Interop.Proofs.Member.Discovery
import Interop.Proofs.TypeTable.Ancestry

/-!
# Tables without a declaration

`TypeTable.without` takes one declared member away from one type. The hierarchy does not change with it, and neither
does what the host refuses to list. Along the supertypes of a type the host lists the same members as before, in the
same order, without the one that was taken away.

* **`SameHierarchy`**: walks and searches read nothing but direct supertypes.
* **`TypeTable.listing`**: what the host lists along types, and the refusal at which it ends; a scan is a run over it
  (`foldlM_listing`).
* **`listing_without_cases`**: the listing without a declaration.
-/

namespace Interop

-- ids are compared as they stand; unfolding one means computing a digest
attribute [local irreducible] TypeId.ofName TypeId.ofSignature

/-! ## Taking a declaration away -/

/-- Where a type declares a member. -/
inductive Place where
  | method (i : Nat)
  | field (i : Nat)
  | constructor (i : Nat)

/-- A type without one of the members that it declares. -/
def TypeDecl.without (d : TypeDecl) : Place → TypeDecl
  | .method i => { d with methods := d.methods.eraseIdx i }
  | .field i => { d with fields := d.fields.eraseIdx i }
  | .constructor i => { d with constructors := d.constructors.eraseIdx i }

namespace TypeTable

/-- A table in which one type declares a member less. -/
def without (t : TypeTable) (owner : TypeId) (place : Place) : TypeTable :=
  ⟨t.entries.map fun (id, d) => (id, if id = owner then d.without place else d)⟩

variable {t t' : TypeTable} {owner : TypeId} {place : Place}

/-- A member is left out of the declaration of its owner alone. -/
theorem find?_without (t : TypeTable) (owner : TypeId) (place : Place) (id : TypeId) :
    (t.without owner place).find? id = (t.find? id).map fun d => if id = owner then d.without place else d := by
  rw [find?, find?, without]
  induction t.entries with
  | nil => rfl
  | cons entry rest ih =>
    obtain ⟨first, d⟩ := entry
    rw [List.map_cons, lookup_cons_ite, lookup_cons_ite, ih]
    by_cases hid : id = first
    · subst hid
      simp
    · simp [hid]

/-! ## Walks -/

/-- The same direct supertypes, and as many references. -/
structure SameHierarchy (t t' : TypeTable) : Prop where
  parents : ∀ id, t'.parents id = t.parents id
  edgeCount : t'.edgeCount = t.edgeCount

theorem SameHierarchy.walk (h : SameHierarchy t t') (n : Nat) (queue order : List TypeId) :
    t'.walk n queue order = t.walk n queue order := by
  induction n generalizing queue order with
  | zero => rfl
  | succ n ih =>
    cases queue with
    | nil => rfl
    | cons id queue => rw [TypeTable.walk, TypeTable.walk, h.parents, ih, ih]

theorem SameHierarchy.ancestry (h : SameHierarchy t t') (id : TypeId) : t'.ancestry id = t.ancestry id := by
  rw [TypeTable.ancestry, TypeTable.ancestry, walkBudget, walkBudget, h.edgeCount, h.walk]

theorem SameHierarchy.search (h : SameHierarchy t t') (target : TypeId) (n : Nat) (queue seen : List TypeId) :
    t'.search target n queue seen = t.search target n queue seen := by
  induction n generalizing queue seen with
  | zero => rfl
  | succ n ih =>
    cases queue with
    | nil => rfl
    | cons id queue => rw [TypeTable.search, TypeTable.search, h.parents, ih, ih]

theorem SameHierarchy.isSubtype (h : SameHierarchy t t') (sub sup : TypeId) :
    t'.isSubtype sub sup = t.isSubtype sub sup := by
  rw [TypeTable.isSubtype, TypeTable.isSubtype, walkBudget, walkBudget, h.edgeCount, h.search]

/-- A field is put in its place by subtyping, and so alike. -/
theorem SameHierarchy.addField (h : SameHierarchy t t') (f : MemberField) (slots : NamedFields) :
    t'.addField slots f = t.addField slots f := by
  induction slots with
  | nil => rfl
  | cons slot slots ih => rw [TypeTable.addField, TypeTable.addField, ih, h.isSubtype]

/-- A declaration has no part in the hierarchy. -/
theorem sameHierarchy_without (t : TypeTable) (owner : TypeId) (place : Place) :
    SameHierarchy t (t.without owner place) := by
  have hsupertypes : ∀ (id : TypeId) (d : TypeDecl),
      (if id = owner then d.without place else d).supertypes = d.supertypes := by
    intro id d
    split
    · cases place <;> rfl
    · rfl
  refine ⟨fun id => ?_, ?_⟩
  · rw [parents, parents, find?_without]
    cases t.find? id with
    | none => rfl
    | some d => exact congrArg _ (hsupertypes id d)
  · rw [edgeCount, edgeCount, without, List.flatMap_map]
    exact congrArg List.length (List.flatMap_congr fun entry _ => hsupertypes entry.1 entry.2)

/-! ## Listings -/

section Listing

variable {α σ : Type}

/-- What the host lists along types: their members, up to the first type that it refuses, and the refusal. -/
def listing (t : TypeTable) (members : TypeDecl → List α) (root : TypeId) : List TypeId → List α × Option Stop
  | [] => ([], none)
  | id :: closure =>
    match t.declaredBy root id with
    | .error stop => ([], some stop)
    | .ok decl =>
      ((decl.map members).getD [] ++ (t.listing members root closure).1, (t.listing members root closure).2)

/-- A run that a refusal ends. -/
def orRefusal : Option Stop → σ → Except Stop σ
  | none, s => .ok s
  | some stop, _ => .error stop

/-- A run succeeds where it does without the refusal and none comes. -/
theorem bind_orRefusal_eq_ok {result : Except Stop σ} {refusal : Option Stop} {s : σ}
    (h : result >>= orRefusal refusal = .ok s) : refusal = none ∧ result = .ok s := by
  cases result with
  | error stop => cases h
  | ok s' =>
    cases refusal with
    | some stop => cases h
    | none => exact ⟨rfl, h⟩

/-- Type after type is one run over the listing, which ends as the listing does. -/
theorem foldlM_listing {members : TypeDecl → List α} {step : σ → α → Except Stop σ} {root : TypeId}
    (closure : List TypeId) (s : σ) :
    closure.foldlM (fun s id => do
      let decl ← t.declaredBy root id
      ((decl.map members).getD []).foldlM step s) s
      = (t.listing members root closure).1.foldlM step s >>= orRefusal (t.listing members root closure).2 := by
  induction closure generalizing s with
  | nil => rfl
  | cons id closure ih =>
    rw [List.foldlM_cons, listing]
    cases t.declaredBy root id with
    | error stop => rfl
    | ok decl =>
      dsimp only
      rw [List.foldlM_append]
      change List.foldlM step s ((decl.map members).getD []) >>= _ = _
      cases ((decl.map members).getD []).foldlM step s with
      | error stop => rfl
      | ok s' => exact ih s'

/-- The declaration that is found is the one with the member left out. -/
theorem declaredBy_without (root id : TypeId) :
    (t.without owner place).declaredBy root id =
      (t.declaredBy root id).map (Option.map fun d => if id = owner then d.without place else d) := by
  have hkept : ∀ d : TypeDecl, (if id = owner then d.without place else d).name = d.name ∧
      (if id = owner then d.without place else d).denied = d.denied := by
    intro d
    split
    · cases place <;> exact ⟨rfl, rfl⟩
    · exact ⟨rfl, rfl⟩
  unfold declaredBy describe
  rw [find?_without]
  cases t.find? id with
  | none =>
    simp only [Option.map_none]
    split <;> rfl
  | some d =>
    obtain ⟨hname, hdenied⟩ := hkept d
    simp only [Option.map_some, hname, hdenied]
    cases d.denied <;> rfl

/-- Listings of members of another kind stay the same. -/
theorem listing_without_of_eq {members : TypeDecl → List α} (h : ∀ d : TypeDecl, members (d.without place) = members d)
    (root : TypeId) (closure : List TypeId) :
    (t.without owner place).listing members root closure = t.listing members root closure := by
  induction closure with
  | nil => rfl
  | cons id closure ih =>
    rw [listing, listing, declaredBy_without, ih]
    cases t.declaredBy root id with
    | error stop => rfl
    | ok decl =>
      cases decl with
      | none => rfl
      | some d =>
        have hd : members (if id = owner then d.without place else d) = members d := by
          split
          · exact h d
          · rfl
        simp only [Except.map, Option.map_some, hd]

/-- So do listings along other types. -/
theorem listing_without_of_not_mem {members : TypeDecl → List α} (root : TypeId) {closure : List TypeId}
    (h : owner ∉ closure) : (t.without owner place).listing members root closure = t.listing members root closure := by
  induction closure with
  | nil => rfl
  | cons id closure ih =>
    obtain ⟨hid, hclosure⟩ := not_or.mp (List.mem_cons.not.mp h)
    rw [listing, listing, declaredBy_without, ih hclosure]
    cases t.declaredBy root id with
    | error stop => rfl
    | ok decl => cases decl <;> simp [Except.map, Ne.symm hid]

/-- A listing along two closures is that of the first, and that of the second where nothing was refused. -/
theorem listing_append {members : TypeDecl → List α} (root : TypeId) (first second : List TypeId) :
    t.listing members root (first ++ second) =
      match (t.listing members root first).2 with
      | some stop => ((t.listing members root first).1, some stop)
      | none => ((t.listing members root first).1 ++ (t.listing members root second).1,
        (t.listing members root second).2) := by
  induction first with
  | nil => rfl
  | cons id first ih =>
    rw [List.cons_append, listing, listing]
    cases t.declaredBy root id with
    | error stop => rfl
    | ok decl =>
      dsimp only
      rw [ih]
      cases (t.listing members root first).2 with
      | some stop => rfl
      | none => simp only [List.append_assoc]

/-- **A listing without a declaration** is the listing with the declaration left out, if it gets that far. -/
theorem listing_without_cases {members : TypeDecl → List α} {d : TypeDecl} (hd : t.find? owner = some d) {x : α}
    {earlier later : List α} (hmembers : members d = earlier ++ x :: later)
    (hwithout : members (d.without place) = earlier ++ later) {id : TypeId} {pre post : List TypeId}
    (hancestry : t.ancestry id = pre ++ owner :: post) :
    let before := (t.listing members id pre).1 ++ earlier
    let after := later ++ (t.listing members id post).1
    ((t.listing members id (t.ancestry id)).2 ≠ none ∧
      (t.without owner place).listing members id (t.ancestry id) = t.listing members id (t.ancestry id)) ∨
    ∃ refusal, t.listing members id (t.ancestry id) = (before ++ x :: after, refusal) ∧
      (t.without owner place).listing members id (t.ancestry id) = (before ++ after, refusal) := by
  intro before after
  -- the owner stands at one place of the closure, so the listing differs there alone
  have hnodup := t.nodup_ancestry id
  rw [hancestry, List.nodup_middle, List.nodup_cons, List.mem_append, not_or] at hnodup
  obtain ⟨⟨hpre, hpost⟩, -⟩ := hnodup
  rw [hancestry, listing_append, listing_append, listing_without_of_not_mem id hpre]
  cases (t.listing members id pre).2 with
  | some stop => exact .inl ⟨by simp, rfl⟩
  | none =>
    dsimp only
    rw [listing, listing, declaredBy_without, listing_without_of_not_mem id hpost]
    cases hdeclared : t.declaredBy id owner with
    | error stop => exact .inl ⟨by simp, rfl⟩
    | ok decl =>
      obtain rfl := eq_of_declaredBy hdeclared
      refine .inr ⟨(t.listing members id post).2, ?_, ?_⟩
      · simp [hd, hmembers, before, after]
      · simp [hd, Except.map, hwithout, before, after]

end Listing

end TypeTable

end Interop
