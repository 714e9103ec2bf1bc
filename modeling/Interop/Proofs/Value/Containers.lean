import Interop.Proofs.Proxy.Indexing
import Interop.Value.Container

/-!
# Sets and maps

A set holds the values that it was offered, without those that have an equal before them, in the order of their first
insertion. It does not matter how they come to it: by host code that works on the set itself, by members of the standard
types, or by script code that writes to a proxy at its length. Nothing replaces an element of a set, and nothing takes
one away.

A map keeps its order and its values apart. Whatever is inserted and removed, both have the same keys, each of them
once, and the entries are those of an association list: a key that is inserted again keeps its place, one that was
removed comes to the end.

* **`Native.same_trans`**: equality of native values, beside `same_refl` and `same_comm`.
* **`CollectionCall`**, **`CollectionRun`**: the ways in which values are offered to a collection.
* **`CollectionCall.outcome_run`**, **`CollectionRun.native_eq`**: what one call and what many of them do to a set.
* **`NativeMap.WellKept`**: the two parts of a map agree; **`WellKept.entries_eq`** tells its entries by that.
* **`containers_keep`**: what sets and maps hold after any calls.
-/

namespace Interop

/-! ## Equality -/

/-- Numbers are compared by their canonical forms, everything else as it is. -/
theorem Native.same_trans {a b c : Native} (hab : a.same b = true) (hbc : b.same c = true) : a.same c = true := by
  have hdouble : ∀ {x y z : Double}, x.equivalent y = true → y.equivalent z = true → x.equivalent z = true := by
    intro x y z hxy hyz
    rw [Double.equivalent_iff] at hxy hyz ⊢
    exact hxy.trans hyz
  -- values of different kinds are never equal
  cases a <;> cases b <;> first | (cases hab; done) | skip
  all_goals cases c <;> first | (cases hbc; done) | skip
  case float.float.float => exact hdouble hab hbc
  case double.double.double => exact hdouble hab hbc
  all_goals simp only [same, beq_iff_eq] at hab hbc ⊢
  all_goals exact hab.trans hbc

/-- No two of the values are equal. -/
def PairwiseUnequal (values : List Native) : Prop := values.Pairwise fun a b => a.same b = false

/-! ## Sets -/

/-- What is added to a set has no equal in it. -/
theorem NativeList.pairwiseUnequal_add {l : NativeList} (hkind : l.kind = .set) (h : PairwiseUnequal l.elements)
    (v : Native) : PairwiseUnequal (l.add v).2.elements := by
  unfold add
  split
  · exact h
  · next hnew =>
    have hcontains : l.contains v = false := by simpa [hkind] using hnew
    refine List.pairwise_append.mpr ⟨h, List.pairwise_singleton _ v, fun held hheld added hadded => ?_⟩
    rw [List.mem_singleton.mp hadded]
    simpa using List.any_eq_false.mp hcontains held hheld

/-- The elements that a set keeps are pairwise unequal. -/
theorem CollectionKind.pairwiseUnequal_keeps (offered : List Native) :
    PairwiseUnequal (CollectionKind.set.keeps offered) := by
  -- the element type does not matter
  have hof := NativeList.of_eq .set .unspecified offered
  have hall : (NativeList.of .set .unspecified offered).kind = .set ∧
      PairwiseUnequal (NativeList.of .set .unspecified offered).elements := by
    refine List.foldlRecOn (motive := fun l : NativeList => l.kind = .set ∧ PairwiseUnequal l.elements) _ _
      ⟨rfl, .nil⟩ fun l hl v _ => ⟨?_, NativeList.pairwiseUnequal_add hl.1 hl.2 v⟩
    unfold NativeList.add
    split <;> exact hl.1
  rw [hof] at hall
  exact hall.2

/-- Values that are added to a collection are added to what it was made of. -/
theorem NativeList.of_append (kind : CollectionKind) (element : Descriptor) (xs more : List Native) :
    NativeList.of kind element (xs ++ more) =
      more.foldl (fun (l : NativeList) v => (l.add v).2) (.of kind element xs) :=
  List.foldl_append

/-- A call on a collection. -/
inductive CollectionCall where
  /-- Host code asks the collection itself. -/
  | direct (request : ContainerRequest)
  /-- A member of a standard type has the collection as its receiver. -/
  | member (code : StandardCode) (args : List Native)
  /-- Script code gets the collection. -/
  | wrap (type : Descriptor)
  /-- Script code writes to a proxy of the collection by index. -/
  | write (n : Nat) (proxy : ObjectRef) (i : Nat) (v : Script)

namespace CollectionCall

def run (r : NativeRef) : CollectionCall → Eval Unit
  | direct request => do
    match ((← get).native r).perform request with
    | some result => do
      let (_, o) ← Eval.ofFailure result
      modify (·.setNative r o)
    | none => pure ()
  | member code args => do let _ ← code.run (some (.object r)) args
  | wrap type => do let _ ← Eval.wrap (.object r) type
  | write n proxy i v => putProperty n proxy (.index i) v

/-- A proxy that is written to is one of the collection. -/
def Reaches (r : NativeRef) (s : Store) : CollectionCall → Prop
  | write _ proxy _ _ => ∃ p, s.object proxy = .proxy p ∧ p.kind = .ofList ∧ p.value = .object r
  | _ => True

/-- The values that a call has for a set: those to be added, and what comes of a script value that is written at the
length. -/
def offers (r : NativeRef) (s : Store) : CollectionCall → List Native
  | direct (.add v) => [v]
  | member .collectionAdd args => args.take 1
  | write _ _ i v =>
    match s.native r with
    | .list l => if i = l.elements.length then ((convert l.elementType v).outcome s).1.toOption.toList else []
    | _ => []
  | _ => []

end CollectionCall

/-- Calls on a collection, one after the other, with the values that they offer. -/
inductive CollectionRun (r : NativeRef) : Store → List Native → Store → Prop where
  | done (s : Store) : CollectionRun r s [] s
  | call {s s' : Store} {given : List Native} (call : CollectionCall) (hcall : call.Reaches r s)
    (hrest : CollectionRun r ((call.run r).outcome s).2 given s') : CollectionRun r s (call.offers r s ++ given) s'

section Sets

variable {s : Store} {r : NativeRef} {l : NativeList}

/-- What is set in the place of a list is there. -/
theorem Store.native_setNative_list (h : s.native r = .list l) (o : NativeObject) : (s.setNative r o).native r = o := by
  refine native_setNative ?_ o
  rw [h]
  exact nofun

theorem Store.list?_of_native (h : s.native r = .list l) : s.list? (.object r) = some l := by
  simp only [list?, h]

/-- No element of a set is replaced. -/
theorem NativeList.exists_replaceAt_error (hkind : l.kind = .set) (i : Nat) (v : Native) :
    ∃ failure, l.replaceAt i v = .error failure := by
  unfold replaceAt
  rw [hkind]
  split
  · exact ⟨_, rfl⟩
  · exact ⟨_, rfl⟩

/-- After something that only looks at the store, the store is still the one that was known. -/
theorem Eval.Inspects.bind_store {x : Eval α} {f : α → Eval β} (hx : x.Inspects) {P : Store → Prop} (hs : P s)
    (hf : ∀ a, P ((f a).outcome s).2) : P ((x >>= f).outcome s).2 := by
  have hsame := (hx s).1
  rcases hrun : x.outcome s with ⟨stop | a, s₁⟩ <;> rw [hrun] at hsame <;> dsimp only at hsame <;> subst hsame
  · rw [outcome_bind_of_error hrun]
    exact hs
  · rw [outcome_bind_of_ok hrun]
    exact hf a

namespace CollectionCall

/-- A computation whose result is not looked at leaves what it leaves. -/
theorem outcome_discard (x : Eval α) (s : Store) : ((do let _ ← x : Eval Unit).outcome s).2 = (x.outcome s).2 := by
  rcases hx : x.outcome s with ⟨stop | a, s₁⟩
  · rw [Eval.outcome_bind_of_error hx]
  · rw [Eval.outcome_bind_of_ok hx]
    rfl

/-- A direct request adds what it offers to the set. -/
theorem outcome_direct (hr : s.native r = .list l) (hkind : l.kind = .set) (request : ContainerRequest) :
    (((direct request).run r).outcome s).2.native r =
      .list (((direct request).offers r s).foldl (fun l v => (l.add v).2) l) := by
  rw [run, Eval.outcome_get_bind, hr]
  cases request with
  | add v => exact Store.native_setNative_list hr _
  | set i v =>
    obtain ⟨failure, hrefused⟩ := NativeList.exists_replaceAt_error hkind i v
    simp only [NativeObject.perform, NativeList.perform, hrefused]
    exact hr
  | size => exact Store.native_setNative_list hr _
  | get i => exact Store.native_setNative_list hr _
  | contains v => exact Store.native_setNative_list hr _
  | lookup key => exact hr
  | insert key v => exact hr
  | erase key => exact hr
  | keys => exact hr

/-- A member of a list finds the list behind its receiver. -/
theorem outcome_thisList (hr : s.native r = .list l) (code : StandardCode) :
    (code.thisList (some (.object r))).outcome s = (.ok (r, l), s) := by
  rw [StandardCode.thisList, Eval.outcome_get_bind]
  simp [Native.toRef?, Store.list?_of_native hr]

theorem outcome_member (hs : s.Complies .fixedArity) (hr : s.native r = .list l) (hkind : l.kind = .set)
    (code : StandardCode) (args : List Native) :
    (((member code args).run r).outcome s).2.native r =
      .list (((member code args).offers r s).foldl (fun l v => (l.add v).2) l) := by
  have hleaves : code.changesLists = false →
      ((code.run (some (.object r)) args).outcome s).2.native r = .list l := by
    intro hcode
    exact (code.follows_run (D := Regime.lists s) _ args (.inr (.inl hcode)) s ⟨hs, .refl s⟩).1.2 r l hr
  rw [run, outcome_discard]
  cases code with
  | collectionAdd =>
    rw [StandardCode.run, Eval.outcome_bind_of_ok (outcome_thisList hr _)]
    cases args with
    | nil => exact hr
    | cons v rest => exact Store.native_setNative_list hr _
  | listSet =>
    rw [StandardCode.run, Eval.outcome_bind_of_ok (outcome_thisList hr _)]
    refine (StandardCode.inspects_indexArgument _ args).bind_store (P := fun s' => s'.native r = .list l) hr fun i => ?_
    refine (StandardCode.inspects_argument _ args 1).bind_store (P := fun s' => s'.native r = .list l) hr fun v => ?_
    obtain ⟨failure, hrefused⟩ := NativeList.exists_replaceAt_error hkind i v
    rw [hrefused]
    exact hr
  | _ => exact hleaves rfl

theorem outcome_write (hs : s.Complies .fixedArity) (hr : s.native r = .list l) (hkind : l.kind = .set) {n : Nat}
    {proxy : ObjectRef} {i : Nat} {v : Script} (hcall : (write n proxy i v).Reaches r s) :
    (((write n proxy i v).run r).outcome s).2.native r =
      .list (((write n proxy i v).offers r s).foldl (fun l v => (l.add v).2) l) := by
  obtain ⟨p, hproxy, hlist, hvalue⟩ := hcall
  have hput : (putProperty n proxy (.index i) v).outcome s = (putListElement p i v).outcome s := by
    rw [putProperty, Eval.outcome_get_bind, hproxy]
    simp only [hlist]
  -- converting the value leaves all lists as they are
  have hkept := hs.leavesLists_convert l.elementType v r l hr
  rw [run, hput, putListElement, Eval.outcome_get_bind, hvalue, Store.list?_of_native hr]
  simp only [offers, hr]
  by_cases hlength : i > l.elements.length
  · -- there is no place to write to
    rw [if_pos hlength, if_neg (Nat.ne_of_gt hlength)]
    exact hr
  · rw [if_neg hlength]
    rcases hconvert : (convert l.elementType v).outcome s with ⟨stop | native, s₁⟩ <;> rw [hconvert] at hkept
    · rw [Eval.outcome_bind_of_error hconvert]
      split <;> exact hkept
    · rw [Eval.outcome_bind_of_ok hconvert, Eval.outcome_get_bind, Store.list?_of_native hkept]
      dsimp only [Native.toRef?]
      split
      · exact Store.native_setNative_list hkept _
      · -- an element that is there would have to be replaced
        obtain ⟨failure, hrefused⟩ := NativeList.exists_replaceAt_error hkind i native
        rw [hrefused]
        exact hkept

/-- **What one call does to a set**: it adds what it offers. -/
theorem native_run (hs : s.Complies .fixedArity) (hr : s.native r = .list l) (hkind : l.kind = .set)
    {call : CollectionCall} (hcall : call.Reaches r s) :
    ((call.run r).outcome s).2.native r = .list ((call.offers r s).foldl (fun l v => (l.add v).2) l) := by
  cases call with
  | direct request => exact outcome_direct hr hkind request
  | member code args => exact outcome_member hs hr hkind code args
  | wrap type =>
    rw [run, outcome_discard]
    exact (Eval.Follows.wrap (D := Regime.lists s) (.object r) type s ⟨hs, .refl s⟩).1.2 r l hr
  | write n proxy i v => exact outcome_write hs hr hkind hcall

/-- Calls do not break rules for members. -/
theorem complies_run {R : MemberRule} (hR : R.Lasts) (hs : s.Complies R) (r : NativeRef) (call : CollectionCall) :
    ((call.run r).outcome s).2.Complies R := by
  cases call with
  | direct request =>
    rw [run, Eval.outcome_get_bind]
    cases (s.native r).perform request with
    | none => exact hs
    | some result =>
      cases result with
      | error failure => exact hs
      | ok answered => exact hs.of_subset hs.types (List.Subset.refl _) rfl
  | member code args =>
    rw [run, outcome_discard]
    exact (code.follows_run (D := Discipline.ofRule R) _ args (.inr (.inr (Discipline.letsListsChange _))) s hs).1
  | wrap type =>
    rw [run, outcome_discard]
    exact (Eval.Follows.wrap (D := Discipline.ofRule R) (.object r) type s hs).1
  | write n proxy i v => exact (follows_putProperty hR.enduring.toLenient n proxy (.index i) v s hs).1

end CollectionCall

/-- **What any calls do to a set**: it holds what it was made of and was offered since. -/
theorem CollectionRun.native_eq {s' : Store} {element : Descriptor} {xs given : List Native}
    (hs : s.Complies .fixedArity) (hr : s.native r = .list (.of .set element xs)) (hrun : CollectionRun r s given s') :
    s'.native r = .list (.of .set element (xs ++ given)) := by
  induction hrun generalizing xs with
  | done s => rwa [List.append_nil]
  | @call s s' given call hcall hrest ih =>
    have hkind : (NativeList.of .set element xs).kind = .set := by rw [NativeList.of_eq]
    have hstep := CollectionCall.native_run hs hr hkind hcall
    rw [← NativeList.of_append] at hstep
    rw [← List.append_assoc]
    exact ih (CollectionCall.complies_run MemberRule.lasts_fixedArity hs r call) hstep

end Sets

/-! ## Maps -/

/-- Puts an entry into an association list: in the place of the one with an equal key, or at the end. -/
def putEntry (key value : Native) : List (Native × Native) → List (Native × Native)
  | [] => [(key, value)]
  | (k, v) :: rest => if k.same key then (k, value) :: rest else (k, v) :: putEntry key value rest

/-- Drops the entry of a key from an association list. -/
def dropEntry (key : Native) (entries : List (Native × Native)) : List (Native × Native) :=
  entries.filter fun entry => !entry.1.same key

/-- What a request does to an association list. -/
def ContainerRequest.onEntries (entries : List (Native × Native)) : ContainerRequest → List (Native × Native)
  | .insert key value => putEntry key value entries
  | .erase key => dropEntry key entries
  | _ => entries

theorem putEntry_of_new {key : Native} (value : Native) : ∀ {entries : List (Native × Native)},
    (∀ entry ∈ entries, entry.1.same key = false) → putEntry key value entries = entries ++ [(key, value)]
  | [], _ => rfl
  | (k, v) :: rest, h => by
    obtain ⟨hk, hrest⟩ := List.forall_mem_cons.mp h
    rw [putEntry, if_neg (by simp [hk]), putEntry_of_new value hrest, List.cons_append]

/-- Where no two keys are equal, at most one is that of the entry. -/
theorem putEntry_of_present {key value : Native} : ∀ {entries : List (Native × Native)},
    PairwiseUnequal (entries.map (·.1)) → (∃ entry ∈ entries, entry.1.same key = true) →
      putEntry key value entries =
        entries.map fun entry => if entry.1.same key then (entry.1, value) else entry
  | [], _, h => by simp at h
  | (k, v) :: rest, hkeys, h => by
    obtain ⟨hne, hkeys⟩ := List.pairwise_cons.mp hkeys
    rw [putEntry, List.map_cons]
    split
    · next hk =>
      have hothers : ∀ entry ∈ rest, (if entry.1.same key then (entry.1, value) else entry) = entry := by
        intro entry hentry
        refine if_neg fun hsame => ?_
        rw [Native.same_comm] at hsame
        exact absurd (Native.same_trans hk hsame) (by simp [hne entry.1 (List.mem_map_of_mem hentry)])
      rw [List.map_congr_left hothers, List.map_id']
    · next hk =>
      obtain ⟨entry, hentry, hsame⟩ := h
      rcases List.mem_cons.mp hentry with rfl | hrest
      · exact absurd hsame hk
      · rw [putEntry_of_present hkeys ⟨entry, hrest, hsame⟩]

namespace NativeMap

/-- The map after a request; one that it does not know leaves it as it is. -/
def after (m : NativeMap) (request : ContainerRequest) : NativeMap :=
  match m.perform request with
  | some (.ok (_, changed)) => changed
  | _ => m

/-- The order and the table of a map have the same keys, each of them once. -/
structure WellKept (m : NativeMap) : Prop where
  unequal : PairwiseUnequal m.order
  keys : (m.table.map (·.1)).Perm m.order

namespace WellKept

variable {m : NativeMap}

theorem empty (keyType valueType : Descriptor) : (NativeMap.empty keyType valueType).WellKept := ⟨.nil, .refl _⟩

theorem unequal_table (h : m.WellKept) : PairwiseUnequal (m.table.map (·.1)) :=
  h.keys.symm.pairwise h.unequal fun hab => by rwa [Native.same_comm]

/-- A value of the table is found under its key. -/
theorem get?_of_mem (h : m.WellKept) {key value : Native} (hmem : (key, value) ∈ m.table) :
    m.get? key = some value := by
  obtain ⟨before, after, hsplit⟩ := List.append_of_mem hmem
  have hkeys := h.unequal_table
  rw [hsplit, List.map_append, List.map_cons] at hkeys
  obtain ⟨-, -, hbefore⟩ := List.pairwise_append.mp hkeys
  have hnone : before.find? (fun entry => entry.1.same key) = none := by
    rw [List.find?_eq_none]
    intro entry hentry
    simp [hbefore entry.1 (List.mem_map_of_mem hentry) key List.mem_cons_self]
  rw [get?, hsplit, List.find?_append, hnone, Option.none_or, List.find?_cons_of_pos (by exact Native.same_refl key)]
  rfl

/-- **The entries of a map** are told by their keys, which are those of the order, and by being in the table. -/
theorem entries_eq (h : m.WellKept) {entries : List (Native × Native)} (hkeys : entries.map (·.1) = m.order)
    (hmem : ∀ entry ∈ entries, entry ∈ m.table) : m.entries = entries := by
  rw [NativeMap.entries, ← hkeys, List.filterMap_map]
  have hfound : ∀ entry ∈ entries,
      ((fun k => (m.get? k).map fun v => (k, v)) ∘ fun entry : Native × Native => entry.1) entry = some entry := by
    intro entry hentry
    simp [h.get?_of_mem (hmem entry hentry)]
  rw [List.filterMap_congr hfound, List.filterMap_some]

/-- There are such entries. -/
theorem exists_entries (h : m.WellKept) :
    ∃ entries : List (Native × Native), entries.map (·.1) = m.order ∧ ∀ entry ∈ entries, entry ∈ m.table := by
  have hall : ∀ order : List Native, (∀ k ∈ order, k ∈ m.table.map (·.1)) →
      ∃ entries : List (Native × Native), entries.map (·.1) = order ∧ ∀ entry ∈ entries, entry ∈ m.table := by
    intro order
    induction order with
    | nil => exact fun _ => ⟨[], rfl, List.forall_mem_nil _⟩
    | cons k order ih =>
      intro hkeys
      obtain ⟨hk, horder⟩ := List.forall_mem_cons.mp hkeys
      obtain ⟨entry, hentry, rfl⟩ := List.mem_map.mp hk
      obtain ⟨entries, rfl, hmem⟩ := ih horder
      exact ⟨entry :: entries, rfl, List.forall_mem_cons.mpr ⟨hentry, hmem⟩⟩
  exact hall m.order fun k hk => h.keys.symm.subset hk

theorem keys_entries (h : m.WellKept) : m.entries.map (·.1) = m.order := by
  obtain ⟨entries, hkeys, hmem⟩ := h.exists_entries
  rw [h.entries_eq hkeys hmem, hkeys]

theorem mem_table_of_mem_entries (h : m.WellKept) : ∀ entry ∈ m.entries, entry ∈ m.table := by
  obtain ⟨entries, hkeys, hmem⟩ := h.exists_entries
  rwa [h.entries_eq hkeys hmem]

/-- Values are found under the keys of the order, and under their equals. -/
theorem get?_eq_none_iff (h : m.WellKept) {key : Native} :
    m.get? key = none ↔ ∀ entry ∈ m.entries, entry.1.same key = false := by
  have hentries : (∀ entry ∈ m.entries, entry.1.same key = false) ↔ ∀ k ∈ m.order, k.same key = false := by
    rw [← h.keys_entries, List.forall_mem_map]
  have htable : (∀ entry ∈ m.table, entry.1.same key = false) ↔ ∀ k ∈ m.order, k.same key = false := by
    constructor
    · intro hall k hk
      obtain ⟨entry, hentry, rfl⟩ := List.mem_map.mp (h.keys.symm.subset hk)
      exact hall entry hentry
    · exact fun hall entry hentry => hall entry.1 (h.keys.subset (List.mem_map_of_mem hentry))
  rw [hentries, ← htable, get?, Option.map_eq_none_iff, List.find?_eq_none]
  simp

/-- Inserting keeps the map in order and puts the entry in place of the old one, or at the end. -/
theorem insert (h : m.WellKept) (key value : Native) :
    (m.insert key value).2.WellKept ∧ (m.insert key value).2.entries = putEntry key value m.entries := by
  unfold NativeMap.insert
  split
  · next old hold =>
    -- the keys stay as they are
    have hkept : WellKept { m with
        table := m.table.map fun entry => if entry.1.same key then (entry.1, value) else (entry.1, entry.2) } := by
      refine ⟨h.unequal, ?_⟩
      rw [List.map_map]
      refine List.map_congr_left (fun entry _ => ?_) ▸ h.keys
      dsimp only [Function.comp]
      split <;> rfl
    refine ⟨hkept, ?_⟩
    have hpresent : ∃ entry ∈ m.entries, entry.1.same key = true := by
      by_contra hnone
      simp only [not_exists, not_and, Bool.not_eq_true] at hnone
      rw [h.get?_eq_none_iff.mpr hnone] at hold
      cases hold
    rw [putEntry_of_present (h.keys_entries ▸ h.unequal) hpresent]
    refine hkept.entries_eq ?_ fun entry hentry => ?_
    · rw [List.map_map, ← h.keys_entries]
      refine List.map_congr_left fun entry _ => ?_
      dsimp only [Function.comp]
      split <;> rfl
    · obtain ⟨before, hbefore, rfl⟩ := List.mem_map.mp hentry
      exact List.mem_map_of_mem (h.mem_table_of_mem_entries before hbefore)
  · next hnone =>
    have hnew := h.get?_eq_none_iff.mp hnone
    have hkept : WellKept { m with order := m.order ++ [key], table := (key, value) :: m.table } := by
      constructor
      · refine List.pairwise_append.mpr ⟨h.unequal, List.pairwise_singleton _ key, fun k hk added hadded => ?_⟩
        rw [List.mem_singleton.mp hadded]
        rw [← h.keys_entries] at hk
        obtain ⟨entry, hentry, rfl⟩ := List.mem_map.mp hk
        exact hnew entry hentry
      · exact (h.keys.cons key).trans (List.perm_append_singleton key m.order).symm
    refine ⟨hkept, ?_⟩
    rw [putEntry_of_new value hnew]
    refine hkept.entries_eq ?_ fun entry hentry => ?_
    · rw [List.map_append, h.keys_entries]
      rfl
    · rcases List.mem_append.mp hentry with hold | hadded
      · exact List.mem_cons_of_mem _ (h.mem_table_of_mem_entries entry hold)
      · rw [List.mem_singleton.mp hadded]
        exact List.mem_cons_self

/-- Removing keeps the map in order and drops the entry. -/
theorem erase (h : m.WellKept) (key : Native) :
    (m.erase key).2.WellKept ∧ (m.erase key).2.entries = dropEntry key m.entries := by
  unfold NativeMap.erase
  split
  · have hkept : WellKept { m with
        order := m.order.filter fun k => !k.same key
        table := m.table.filter fun entry => !entry.1.same key } := by
      refine ⟨h.unequal.filter _, ?_⟩
      have hfilter := h.keys.filter fun k => !k.same key
      rwa [List.filter_map] at hfilter
    refine ⟨hkept, hkept.entries_eq ?_ fun entry hentry => ?_⟩
    · rw [dropEntry, ← h.keys_entries, List.filter_map]
      rfl
    · obtain ⟨hentry, hother⟩ := List.mem_filter.mp hentry
      exact List.mem_filter.mpr ⟨h.mem_table_of_mem_entries entry hentry, hother⟩
  · next hnone =>
    refine ⟨h, ?_⟩
    rw [dropEntry, List.filter_eq_self.mpr]
    intro entry hentry
    simp [h.get?_eq_none_iff.mp hnone entry hentry]

/-- **One request** keeps the two parts of a map in agreement, and does to its entries what it does to an association
list. -/
theorem after (h : m.WellKept) (request : ContainerRequest) :
    (m.after request).WellKept ∧ (m.after request).entries = request.onEntries m.entries := by
  cases request with
  | insert key value => exact h.insert key value
  | erase key => exact h.erase key
  | _ => exact ⟨h, rfl⟩

/-- **Any requests**, one after the other. -/
theorem foldl_after (h : m.WellKept) (requests : List ContainerRequest) :
    (requests.foldl NativeMap.after m).WellKept ∧
      (requests.foldl NativeMap.after m).entries = requests.foldl ContainerRequest.onEntries m.entries := by
  induction requests generalizing m with
  | nil => exact ⟨h, rfl⟩
  | cons request requests ih =>
    obtain ⟨hkept, hentries⟩ := h.after request
    rw [List.foldl_cons, List.foldl_cons, ← hentries]
    exact ih hkept

end WellKept

end NativeMap

/-! ## Both -/

/--
**Sets and maps keep what they are.** A set that comes about in a store holds, after any calls on it, what it was made
of and offered since, without what has an equal before it. A map, after any requests, has the same keys in its order and
in its table, each of them once; it has an entry for each of them, and these are the entries of an association list. A
key that is inserted again keeps its place, and one that is removed first comes to the end.
-/
theorem containers_keep :
    (∀ {s s' : Store} {r : NativeRef} {element : Descriptor} {xs given : List Native}, s.Lived →
      s.native r = .list (.of .set element xs) → CollectionRun r s given s' →
        s'.native r = .list ⟨.set, element, CollectionKind.set.keeps (xs ++ given)⟩ ∧
          PairwiseUnequal (CollectionKind.set.keeps (xs ++ given))) ∧
    ∀ (keyType valueType : Descriptor) (requests : List ContainerRequest),
      let m := requests.foldl NativeMap.after (.empty keyType valueType)
      PairwiseUnequal m.order ∧ (m.table.map (·.1)).Perm m.order ∧ m.entries.length = m.size ∧
        m.entries = requests.foldl ContainerRequest.onEntries [] ∧
        (∀ key value, m.contains key = true → (m.insert key value).2.order = m.order) ∧
        ∀ key value, ((m.erase key).2.insert key value).2.entries = dropEntry key m.entries ++ [(key, value)] := by
  constructor
  · intro s s' r element xs given hs hr hrun
    have hnative := hrun.native_eq (hs.complies MemberRule.lasts_fixedArity) hr
    rw [NativeList.of_eq] at hnative
    exact ⟨hnative, CollectionKind.pairwiseUnequal_keeps _⟩
  · -- the keys in order, the table and the entries of an association list are kept together
    intro keyType valueType requests m
    obtain ⟨hkept, hentries⟩ := (NativeMap.WellKept.empty keyType valueType).foldl_after requests
    refine ⟨hkept.unequal, hkept.keys, ?_, hentries, fun key value hcontains => ?_, fun key value => ?_⟩
    · rw [NativeMap.size, ← hkept.keys_entries, List.length_map]
    · obtain ⟨old, hold⟩ := Option.isSome_iff_exists.mp hcontains
      rw [NativeMap.insert, hold]
    · obtain ⟨herased, hdropped⟩ := hkept.erase key
      rw [(herased.insert key value).2, hdropped, putEntry_of_new]
      intro entry hentry
      simpa using (List.mem_filter.mp hentry).2

/-- A set of words and a proxy of it. -/
def Store.wordSet : Store :=
  let words : NativeObject := .list (.of .set .string [.string "a"])
  ((((Store.standard {} false).addNative words).2).addProxy .ofList (.object ⟨0⟩) (.interface Standard.setName false)).2

/-- Words come to the set from all sides, one of them in vain. In the map, the first key keeps its place and the second
one comes back to the end. -/
theorem containers_keep_words :
    (∃ s', CollectionRun ⟨0⟩ .wordSet [.string "b", .string "a", .string "c"] s' ∧
      s'.native ⟨0⟩ = .list ⟨.set, .string, [.string "a", .string "b", .string "c"]⟩) ∧
    ([.insert (.string "a") (.int 1), .insert (.int 2) .null, .insert (.string "a") (.int 3), .erase (.int 2),
        .insert (.string "b") .null, .insert (.int 2) (.int 4)].foldl NativeMap.after
          (.empty .string .unspecified)).entries =
      [(.string "a", .int 3), (.string "b", .null), (.int 2, .int 4)] := by
  constructor
  · have hlived : Store.wordSet.Lived :=
      .change (.change (.standard {} false) (.addNative _ _)) (.addProxy _ (.object ⟨0⟩) _)
    have hset : Store.wordSet.native ⟨0⟩ = .list (.of .set .string [.string "a"]) := rfl
    have hwrite : (CollectionCall.write 1 ⟨0⟩ 2 (.string "c")).offers ⟨0⟩
        (((CollectionCall.member .collectionAdd [.string "a"]).run ⟨0⟩).outcome
          (((CollectionCall.direct (.add (.string "b"))).run ⟨0⟩).outcome .wordSet).2).2 = [.string "c"] := by
      decide +kernel
    have hrun := CollectionRun.call (r := ⟨0⟩) (s := .wordSet) (.direct (.add (.string "b"))) trivial
      (.call (.member .collectionAdd [.string "a"]) trivial
        (.call (.write 1 ⟨0⟩ 2 (.string "c")) ⟨_, rfl, rfl, rfl⟩ (.done _)))
    rw [hwrite] at hrun
    exact ⟨_, hrun, (containers_keep.1 hlived hset hrun).1⟩
  · exact (containers_keep.2 _ _ _).2.2.2.1

end Interop
