import Interop.Proofs.Member.Origins
import Interop.Proofs.Store.Browsing

/-!
# What lives

The survivors of a store are worked out round by round. They are the largest set of objects each of which is held by a
root or by one of the set, so to live is to be in some such set, and no count of rounds is left in what is proved about
it. From there it follows when an object that does not live cannot come back: a change may make new objects, and
references to old ones only where these are held already.

* **`Store.Lives`**, **`Store.mem_survivors_iff`**: the survivors are the largest set that keeps itself.
* **`Store.Lives.of_change`**: what lives after a change lived before it.
* **`Store.Published.mem_releaseAdapters`**: adapters keep their entries exactly when they live.
* **`MemberCache.entries_lookup`**: what members hold is held by the types that they were collected from.
* **`Store.Browses.lives_iff`**: looking at values lets nothing die, and brings nothing back.
* **`Store.Adds.lives`**: nor does a new object that holds only what lives.
-/

namespace Interop

namespace Store

variable {s s' : Store} {x : Referent}

/-! ## The largest set that keeps itself -/

/-- A set of objects each of which is held by a root or by one of them. -/
structure KeepsItself (s : Store) (X : Referent → Prop) : Prop where
  made : ∀ x, X x → x ∈ s.referents
  held : ∀ x, X x → x ∈ s.roots ∨ ∃ y, X y ∧ x ∈ s.references y

/-- To live is to be in such a set. -/
def Lives (s : Store) (x : Referent) : Prop := ∃ X, s.KeepsItself X ∧ X x

/-- A set of objects that keep one another lives. -/
theorem Lives.of_keepsItself {X : Referent → Prop} (hX : s.KeepsItself X) (hx : X x) : s.Lives x := ⟨X, hX, hx⟩

/-- All that lives is such a set. -/
theorem keepsItself_lives (s : Store) : s.KeepsItself s.Lives where
  made := by
    rintro x ⟨X, hX, hx⟩
    exact hX.made x hx
  held := by
    rintro x ⟨X, hX, hx⟩
    rcases hX.held x hx with hroot | ⟨y, hy, href⟩
    · exact .inl hroot
    · exact .inr ⟨y, ⟨X, hX, hy⟩, href⟩

/-- Only objects that there are live. -/
theorem Lives.made (h : s.Lives x) : x ∈ s.referents := s.keepsItself_lives.made x h

/-- What lives is held by a root, or by something that lives. -/
theorem Lives.held (h : s.Lives x) : x ∈ s.roots ∨ ∃ y, s.Lives y ∧ x ∈ s.references y := s.keepsItself_lives.held x h

/-- Whatever a root or something that lives holds lives. -/
theorem lives_of_held (hmade : x ∈ s.referents) (h : x ∈ s.roots ∨ ∃ y, s.Lives y ∧ x ∈ s.references y) : s.Lives x := by
  have hkeeps : s.KeepsItself fun z => z = x ∨ s.Lives z := by
    constructor
    · rintro z (rfl | hz)
      · exact hmade
      · exact hz.made
    · have hmore : ∀ z, (z ∈ s.roots ∨ ∃ y, s.Lives y ∧ z ∈ s.references y) →
          z ∈ s.roots ∨ ∃ y, (y = x ∨ s.Lives y) ∧ z ∈ s.references y := by
        rintro z (hroot | ⟨y, hy, href⟩)
        · exact .inl hroot
        · exact .inr ⟨y, .inr hy, href⟩
      rintro z (rfl | hz)
      · exact hmore z h
      · exact hmore z hz.held
  exact .of_keepsItself hkeeps (.inl rfl)

/-- Roots live. -/
theorem lives_of_root (hmade : x ∈ s.referents) (hroot : x ∈ s.roots) : s.Lives x := lives_of_held hmade (.inl hroot)

/-! ## Rounds -/

/-- What is still held of some objects: the roots, and what the others refer to. -/
theorem mem_stillHeld {objects : List Referent} :
    x ∈ s.stillHeld objects ↔ x ∈ objects ∧ (x ∈ s.roots ∨ ∃ y ∈ objects, x ∈ s.references y) := by
  rw [stillHeld, List.mem_filter, Std.HashSet.contains_ofList, List.contains_iff_mem, List.mem_append, List.mem_flatMap]

/-- A round loses nothing of a set that keeps itself. -/
theorem KeepsItself.subset_survivorsWithin {X : Referent → Prop} (hX : s.KeepsItself X) (n : Nat) :
    ∀ {objects : List Referent}, (∀ x, X x → x ∈ objects) → ∀ x, X x → x ∈ s.survivorsWithin n objects := by
  induction n with
  | zero => exact fun hobjects => hobjects
  | succ n ih =>
    intro objects hobjects
    have hkept : ∀ x, X x → x ∈ s.stillHeld objects := by
      intro x hx
      rw [mem_stillHeld]
      refine ⟨hobjects x hx, ?_⟩
      rcases hX.held x hx with hroot | ⟨y, hy, href⟩
      · exact .inl hroot
      · exact .inr ⟨y, hobjects y hy, href⟩
    rw [survivorsWithin]
    split
    · exact hobjects
    · exact ih hkept

/-- With as many rounds as there are objects, what remains keeps itself. -/
theorem held_of_mem_survivorsWithin (n : Nat) : ∀ {objects : List Referent}, objects.length ≤ n →
    ∀ x ∈ s.survivorsWithin n objects, x ∈ objects ∧
      (x ∈ s.roots ∨ ∃ y ∈ s.survivorsWithin n objects, x ∈ s.references y) := by
  induction n with
  | zero =>
    intro objects hlength x hx
    rw [List.eq_nil_of_length_eq_zero (by omega : objects.length = 0)] at hx
    cases hx
  | succ n ih =>
    intro objects hlength x hx
    have hshorter : (s.stillHeld objects).length ≤ objects.length := List.length_filter_le _ _
    rw [survivorsWithin] at hx ⊢
    split at hx
    · next hsame =>
      rw [if_pos hsame]
      -- nothing was lost in this round, so all of them are held
      have hall : s.stillHeld objects = objects := List.filter_sublist.eq_of_length hsame
      have hheld := (mem_stillHeld (s := s)).mp (hall.symm ▸ hx)
      exact hheld
    · next hlost =>
      rw [if_neg hlost]
      have hbound : (s.stillHeld objects).length ≤ n := by omega
      obtain ⟨hmem, hheld⟩ := ih hbound x hx
      exact ⟨(mem_stillHeld.mp hmem).1, hheld⟩

/-- **The survivors are what lives.** -/
theorem mem_survivors_iff : x ∈ s.survivors ↔ s.Lives x := by
  constructor
  · intro hx
    have hkeeps : s.KeepsItself (· ∈ s.survivors) := by
      constructor
      · intro y hy
        exact (held_of_mem_survivorsWithin s.referents.length (Nat.le_refl _) y hy).1
      · intro y hy
        exact (held_of_mem_survivorsWithin s.referents.length (Nat.le_refl _) y hy).2
    exact .of_keepsItself hkeeps hx
  · exact s.keepsItself_lives.subset_survivorsWithin _ (fun y hy => hy.made) x

/-- **What lives after a change lived before it**, if new roots and new references lead only to what lived. -/
theorem Lives.of_change (hroots : ∀ y ∈ s'.roots, y ∈ s.referents → s.Lives y)
    (hreferences : ∀ z, s'.Lives z → ∀ y ∈ s'.references z, y ∈ s.referents →
      s.Lives y ∨ (z ∈ s.referents ∧ y ∈ s.references z))
    (h : s'.Lives x) (hx : x ∈ s.referents) : s.Lives x := by
  have hkeeps : s.KeepsItself fun y => s.Lives y ∨ (s'.Lives y ∧ y ∈ s.referents) := by
    constructor
    · rintro y (hy | ⟨-, hmade⟩)
      · exact hy.made
      · exact hmade
    · have hlived : ∀ y, s.Lives y →
          y ∈ s.roots ∨ ∃ z, (s.Lives z ∨ (s'.Lives z ∧ z ∈ s.referents)) ∧ y ∈ s.references z := by
        intro y hy
        rcases hy.held with hroot | ⟨z, hz, href⟩
        · exact .inl hroot
        · exact .inr ⟨z, .inl hz, href⟩
      rintro y (hy | ⟨hy, hmade⟩)
      · exact hlived y hy
      · rcases hy.held with hroot | ⟨z, hz, href⟩
        · exact hlived y (hroots y hroot hmade)
        · rcases hreferences z hz y href hmade with hlives | ⟨hold, href⟩
          · exact hlived y hlives
          · exact .inr ⟨z, .inr ⟨hz, hold⟩, href⟩
  exact .of_keepsItself hkeeps (.inr ⟨h, hx⟩)

/-! ## Adapters -/

/-- **An adapter keeps its entry exactly when it lives**, once those that do not live are dropped. -/
theorem Published.mem_releaseAdapters (h : s.Published) {kept : AdapterKey × NativeRef} :
    kept ∈ s.releaseAdapters.adapters ↔ kept ∈ s.adapters ∧ s.Lives (.native kept.2) := by
  rw [h.releaseAdapters_eq]
  show kept ∈ s.adapters.filter _ ↔ _
  rw [List.mem_filter, decide_eq_true_iff, mem_survivors_iff]

/-- The adapters that are referred to afterwards are those that live. -/
theorem Published.mem_referred_releaseAdapters (h : s.Published) {r : NativeRef} :
    r ∈ s.releaseAdapters.referred ↔ r ∈ s.referred ∧ s.Lives (.native r) := by
  rw [h.releaseAdapters_eq]
  show r ∈ s.referred.filter _ ↔ _
  rw [List.mem_filter, decide_eq_true_iff, mem_survivors_iff]

/-- Nothing is dropped where all adapters live. -/
theorem Published.releaseAdapters_of_lives (h : s.Published) (hlives : ∀ r ∈ s.referred, s.Lives (.native r)) :
    s.releaseAdapters = s := by
  have hadapters : s.adapters.filter (.native ·.2 ∈ s.survivors) = s.adapters := by
    refine List.filter_eq_self.mpr fun kept hkept => decide_eq_true ?_
    exact mem_survivors_iff.mpr (hlives _ (h.referred kept hkept))
  have hreferred : s.referred.filter (.native · ∈ s.survivors) = s.referred :=
    List.filter_eq_self.mpr fun r hr => decide_eq_true (mem_survivors_iff.mpr (hlives r hr))
  rw [h.releaseAdapters_eq, hadapters, hreferred]

end Store

/-! ## What members hold -/

/-- What the declarations of a table hold. -/
def TypeTable.held (t : TypeTable) : List Referent := t.entries.flatMap fun (_, d) => d.held

/-- Members that hold no more than is given. -/
def Requirement.holding (given : List Referent) : Requirement where
  callable c := ∀ x ∈ c.held, x ∈ given
  field _ storage := ∀ x ∈ storage.held, x ∈ given

section Holding

variable {given : List Referent}

/-- Overloads whose candidates hold only what is given hold no more. -/
theorem OverloadSet.Meets.held_subset {set : OverloadSet} (h : set.Meets (.holding given)) :
    ∀ x ∈ set.held, x ∈ given := List.forall_mem_flatMap.mpr h

/-- An optional part holds what it holds when it is there. -/
theorem held_toList {held : α → List Referent} {part : Option α} (h : ∀ a, part = some a → ∀ x ∈ held a, x ∈ given) :
    ∀ x ∈ part.toList.flatMap held, x ∈ given :=
  List.forall_mem_flatMap.mpr fun a ha => h a (Option.mem_toList.mp ha)

/-- A member that is made of what is given holds no more. -/
theorem Member.Meets.held_subset {m : Member} (h : m.Meets (.holding given)) : ∀ x ∈ m.held, x ∈ given := by
  cases m with
  | methods set => exact OverloadSet.Meets.held_subset h
  | field f =>
    obtain ⟨hstorage, hmethods⟩ := h
    exact List.forall_mem_append.mpr ⟨hstorage, held_toList fun set hset => (hmethods set hset).held_subset⟩
  | property p =>
    obtain ⟨hgetter, hsetter, hsetters⟩ := h
    refine List.forall_mem_append.mpr ⟨List.forall_mem_append.mpr ⟨held_toList hgetter, held_toList hsetter⟩, ?_⟩
    exact held_toList fun set hset => (hsetters set hset).held_subset

/-- Nor does an entry. -/
theorem TypeMembers.Meets.held_subset {e : TypeMembers} (h : e.Meets (.holding given)) : ∀ x ∈ e.held, x ∈ given := by
  have htable : ∀ {t : MemberTable}, t.Meets (.holding given) → ∀ x ∈ t.held, x ∈ given := fun ht =>
    List.forall_mem_flatMap.mpr fun row hrow => (ht row hrow).held_subset
  refine List.forall_mem_append.mpr ⟨List.forall_mem_append.mpr ⟨htable h.instances, htable h.statics⟩, ?_⟩
  exact held_toList fun set hset => (h.constructors set hset).held_subset

end Holding

namespace TypeTable

variable {t : TypeTable} {id : TypeId} {d : TypeDecl}

/-- What a type holds is held by the table. -/
theorem mem_held (hd : t.find? id = some d) {x : Referent} (hx : x ∈ d.held) : x ∈ t.held :=
  List.mem_flatMap.mpr ⟨(id, d), mem_of_lookup hd, hx⟩

/-- Declarations are made into members that hold what the declarations hold. -/
theorem makes_holding (t : TypeTable) (b : Bindings) : t.Makes b (fun _ => True) (.holding t.held) where
  failed _ := trivial
  -- what a member holds is held by its declaration, and so by the type
  method id d hd m hm := by
    unfold Callable.ofMethod?
    split
    · exact List.forall_mem_nil _
    · next invoker hinvoker =>
      refine (Yields.any _).bind fun params _ => (Yields.any _).bind fun returnType _ => ?_
      refine List.forall_mem_singleton.mpr fun x hx => mem_held hd ?_
      simp only [TypeDecl.held, List.mem_append, List.mem_flatMap]
      exact .inl (.inl ⟨m, hm, invoker, Option.mem_toList.mpr hinvoker, hx⟩)
  field id d hd f hf := by
    unfold MemberField.ofField?
    split
    · exact List.forall_mem_nil _
    · next storage hstorage =>
      refine (Yields.any _).bind fun type _ => ?_
      refine List.forall_mem_singleton.mpr ⟨fun x hx => mem_held hd ?_, by simp⟩
      simp only [TypeDecl.held, List.mem_append, List.mem_flatMap]
      exact .inl (.inr ⟨f, hf, storage, Option.mem_toList.mpr hstorage, hx⟩)
  constructor id d hd c hc typeName := by
    unfold Callable.ofConstructor?
    split
    · exact List.forall_mem_nil _
    · next invoker hinvoker =>
      refine (Yields.any _).bind fun params _ => ?_
      refine List.forall_mem_singleton.mpr fun x hx => mem_held hd ?_
      simp only [TypeDecl.held, List.mem_append, List.mem_flatMap]
      exact .inr ⟨c, hc, invoker, Option.mem_toList.mpr hinvoker, hx⟩

end TypeTable

/-- **Members that are looked up hold what the types hold**, and members that are kept stay kept. -/
theorem MemberCache.entries_lookup (r : MemberCache) (t : TypeTable) (id : TypeId) (declared : Option TypeId)
    (flag : Bool) :
    r.entries ⊆ (r.lookup t id declared flag).2.entries ∧
      ∀ kept ∈ (r.lookup t id declared flag).2.entries, kept ∈ r.entries ∨ ∀ x ∈ kept.2.held, x ∈ t.held := by
  rcases r.lookup_cases t id declared flag with ⟨known, -, heq⟩ | ⟨entry, -, hcollect, heq⟩ | ⟨stop, -, -, heq⟩ <;>
    rw [heq]
  · exact ⟨List.Subset.refl _, fun kept hkept => .inl hkept⟩
  · refine ⟨List.subset_append_left _ _, fun kept hkept => ?_⟩
    rcases List.mem_append.mp hkept with hold | hnew
    · exact .inl hold
    · have hmeets := TypeTable.collectOrAbove_meets (t.makes_holding (t.inheritedBindings r.bindings id).1) trivial flag
        declared id
      rw [hcollect] at hmeets
      rw [List.mem_singleton.mp hnew]
      exact .inr (TypeMembers.Meets.held_subset hmeets)
  · exact ⟨List.Subset.refl _, fun kept hkept => .inl hkept⟩

/-! ## Browsing -/

namespace Store

variable {s s' : Store} {x : Referent}

/-- The roots are the values in use, and what declared types and kept members hold. -/
theorem mem_roots : x ∈ s.roots ↔ x ∈ s.inUse ∨ x ∈ s.types.held ∨ ∃ kept ∈ s.memberCache.entries, x ∈ kept.2.held := by
  show x ∈ s.inUse ++ s.types.held ++ s.memberCache.entries.flatMap (fun kept => kept.2.held) ↔ _
  rw [List.mem_append, List.mem_append, List.mem_flatMap, or_assoc]

/-- Stores with the same objects and roots, where new references lead to roots. -/
theorem lives_congr (hreferents : s'.referents = s.referents) (hroots : ∀ y, y ∈ s'.roots ↔ y ∈ s.roots)
    (hreferences : ∀ z, s.references z ⊆ s'.references z ∧ ∀ y ∈ s'.references z, y ∈ s.references z ∨ y ∈ s.roots) :
    s'.Lives x ↔ s.Lives x := by
  constructor
  · intro h
    refine Lives.of_change (fun y hy hmade => lives_of_root hmade ((hroots y).mp hy)) (fun z hz y hy hmade => ?_) h
      (hreferents ▸ h.made)
    rcases (hreferences z).2 y hy with hold | hroot
    · exact .inr ⟨hreferents ▸ hz.made, hold⟩
    · exact .inl (lives_of_root hmade hroot)
  · intro h
    refine Lives.of_change (fun y hy hmade => lives_of_root hmade ((hroots y).mpr hy)) (fun z hz y hy hmade => ?_) h
      (hreferents ▸ h.made)
    exact .inr ⟨hreferents ▸ hz.made, (hreferences z).1 hy⟩

/-- Neither what is kept and referred to nor the calls that are recorded matter. -/
theorem lives_frame (adapters : List (AdapterKey × NativeRef)) (referred : List NativeRef) (calls : List CallRecord) :
    ({ s with adapters := adapters, referred := referred, calls := calls } : Store).Lives x ↔ s.Lives x :=
  lives_congr rfl (fun _ => Iff.rfl) fun _ => ⟨List.Subset.refl _, fun _ hy => .inl hy⟩

/-- Looking members up makes no roots but those that the types hold. -/
theorem lives_lookedUp (id : TypeId) (declared : Option TypeId) (flag : Bool) :
    (s.lookedUp id declared flag).Lives x ↔ s.Lives x := by
  obtain ⟨hkeeps, hholds⟩ := s.memberCache.entries_lookup s.types id declared flag
  refine lives_congr rfl (fun y => ?_) fun z => ⟨List.Subset.refl _, fun y hy => .inl hy⟩
  rw [mem_roots, mem_roots]
  refine or_congr_right ?_
  constructor
  · rintro (htypes | ⟨kept, hkept, hy⟩)
    · exact .inl htypes
    · rcases hholds kept hkept with hold | hheld
      · exact .inr ⟨kept, hold, hy⟩
      · exact .inl (hheld y hy)
  · rintro (htypes | ⟨kept, hkept, hy⟩)
    · exact .inl htypes
    · exact .inr ⟨kept, hkeeps hkept, hy⟩

/-- To write to an object makes none. -/
theorem referents_setObject (s : Store) (r : ObjectRef) (o : ScriptObject) :
    (s.setObject r o).referents = s.referents := by
  simp only [referents, setObject, Array.size_setIfInBounds]

/-- Members that a proxy takes note of are kept, so what they hold are roots. -/
theorem lives_noted {r : ObjectRef} {p : Proxy} (hr : s.object r = .proxy p) (hnew : p.members = none) {m : Membership}
    {id : TypeId} {flag : Bool} (hm : s.memberCache.find? id flag = some m) :
    (s.setObject r (.proxy { p with members := some m })).Lives x ↔ s.Lives x := by
  have hroots : ∀ y ∈ m.held, y ∈ s.roots := fun y hy => mem_roots.mpr (.inr (.inr ⟨_, mem_of_lookup hm, hy⟩))
  refine lives_congr (s.referents_setObject r _) (fun y => Iff.rfl) fun z => ?_
  cases z with
  | object changed =>
    rcases s.object_set r changed (.proxy { p with members := some m }) with hsame | ⟨rfl, hset⟩
    · simp only [references, hsame]
      exact ⟨List.Subset.refl _, fun y hy => .inl hy⟩
    · simp only [references, hset, hr, ScriptObject.held, hnew, Option.toList_none, List.flatMap_nil, List.append_nil]
      refine ⟨List.subset_append_left _ _, fun y hy => ?_⟩
      rcases List.mem_append.mp hy with hvalue | hmembers
      · exact .inl hvalue
      · rw [Option.toList_some, List.flatMap_singleton] at hmembers
        exact .inr (hroots y hmembers)
  | _ => exact ⟨List.Subset.refl _, fun y hy => .inl hy⟩

/-- Browsing makes no objects. -/
theorem Browses.referents_eq (h : s.Browses s') : s'.referents = s.referents := by
  induction h with
  | refl => rfl
  | lookedUp _ id declared flag ih => exact ih
  | @noted s' _ r p _ _ m _ _ _ ih => exact (s'.referents_setObject r _).trans ih

/-- **Looking at values lets nothing die, and brings nothing back.** -/
theorem Browses.lives_iff (h : s.Browses s') : s'.Lives x ↔ s.Lives x := by
  induction h with
  | refl => exact Iff.rfl
  | lookedUp _ id declared flag ih => exact (lives_lookedUp id declared flag).trans ih
  | noted _ hr hnew hm ih => exact (lives_noted hr hnew hm).trans ih

/-! ## New objects -/

/-- An object is there if its number is taken. -/
theorem mem_referents : x ∈ s.referents ↔
    match x with
    | .native r => r.index < s.natives.size
    | .object r => r.index < s.objects.size
    | .function r => r.index < s.functions.size
    | .cell r => r.index < s.cells.size := by
  unfold referents
  cases x with
  | native r => cases r; simp
  | object r => cases r; simp
  | function r => cases r; simp
  | cell r => cases r; simp

/-- A store with one more object, which is in use, and the others as they were. -/
structure Adds (s s' : Store) (x : Referent) : Prop where
  new : x ∉ s.referents
  made : ∀ y, y ∈ s'.referents ↔ y ∈ s.referents ∨ y = x
  natives : ∀ r, .native r ∈ s.referents → s'.native r = s.native r
  objects : ∀ r, .object r ∈ s.referents → s'.object r = s.object r
  functions : ∀ r, .function r ∈ s.referents → s'.function r = s.function r
  cells : ∀ r, .cell r ∈ s.referents → s'.cell r = s.cell r
  roots : ∀ y ∈ s'.roots, y = x ∨ y ∈ s.roots
  memberCache : s'.memberCache = s.memberCache
  config : s'.config = s.config

/-- A new object changes no references of the others. -/
theorem Adds.references (h : s.Adds s' x) {y : Referent} (hy : y ∈ s.referents) :
    s'.references y = s.references y := by
  cases y with
  | native r => exact congrArg NativeObject.held (h.natives r hy)
  | object r => exact congrArg ScriptObject.held (h.objects r hy)
  | function r => exact congrArg ScriptFunction.held (h.functions r hy)
  | cell r => exact congrArg Native.held (h.cells r hy)

/-- A new object changes no kind of the others. -/
theorem Adds.kindOf (h : s.Adds s' x) {v : Script} (hv : ∀ y ∈ v.held, y ∈ s.referents) :
    s'.kindOf v = s.kindOf v := by
  cases v with
  | object r => exact congrArg ScriptObject.kindOf (h.objects r (hv _ List.mem_cons_self))
  | _ => rfl

/-- **A new object that holds only what lives brings nothing back.** -/
theorem Adds.lives (h : s.Adds s' x) (hx : ∀ y ∈ s'.references x, y ∈ s.referents → s.Lives y) {y : Referent}
    (hy : s'.Lives y) (hmade : y ∈ s.referents) : s.Lives y := by
  refine Lives.of_change (fun z hz hold => ?_) (fun z hz w hw hold => ?_) hy hmade
  · rcases h.roots z hz with rfl | hroot
    · exact absurd hold h.new
    · exact lives_of_root hold hroot
  · rcases (h.made z).mp hz.made with hz | rfl
    · rw [h.references hz] at hw
      exact .inr ⟨hz, hw⟩
    · exact .inl (hx w hw hold)

theorem getD_push_of_lt (xs : Array α) (a unset : α) {i : Nat} (h : i < xs.size) :
    (xs.push a).getD i unset = xs.getD i unset := by
  simp only [Array.getD_eq_getD_getElem?, Array.getElem?_push_lt h, Array.getElem?_eq_getElem h]

/-- A new native object, which may be an adapter that is kept and referred to. -/
theorem adds_native (s : Store) (o : NativeObject) (adapters : List (AdapterKey × NativeRef))
    (referred : List NativeRef) :
    s.Adds
      { s with
        natives := s.natives.push o
        adapters := adapters
        referred := referred
        inUse := .native ⟨s.natives.size⟩ :: s.inUse }
      (.native ⟨s.natives.size⟩) where
  -- the new object takes the place behind the last one
  new h := Nat.lt_irrefl _ (mem_referents.mp h)
  made y := by
    rw [mem_referents, mem_referents, Array.size_push]
    cases y with
    | native r =>
      cases r
      simp only [Referent.native.injEq, NativeRef.mk.injEq]
      omega
    | _ => simp only [reduceCtorEq, or_false]
  natives r hr := getD_push_of_lt _ _ _ (mem_referents.mp hr)
  objects _ _ := rfl
  functions _ _ := rfl
  cells _ _ := rfl
  roots y hy := List.mem_cons.mp hy
  memberCache := rfl
  config := rfl

/-- A script object is added. -/
theorem adds_object (s : Store) (o : ScriptObject) :
    s.Adds { s with objects := s.objects.push o, inUse := .object ⟨s.objects.size⟩ :: s.inUse }
      (.object ⟨s.objects.size⟩) where
  new h := Nat.lt_irrefl _ (mem_referents.mp h)
  made y := by
    rw [mem_referents, mem_referents, Array.size_push]
    cases y with
    | object r =>
      cases r
      simp only [Referent.object.injEq, ObjectRef.mk.injEq]
      omega
    | _ => simp only [reduceCtorEq, or_false]
  natives _ _ := rfl
  objects r hr := getD_push_of_lt _ _ _ (mem_referents.mp hr)
  functions _ _ := rfl
  cells _ _ := rfl
  roots y hy := List.mem_cons.mp hy
  memberCache := rfl
  config := rfl

/-- A function is added. -/
theorem adds_function (s : Store) (f : ScriptFunction) :
    s.Adds { s with functions := s.functions.push f, inUse := .function ⟨s.functions.size⟩ :: s.inUse }
      (.function ⟨s.functions.size⟩) where
  new h := Nat.lt_irrefl _ (mem_referents.mp h)
  made y := by
    rw [mem_referents, mem_referents, Array.size_push]
    cases y with
    | function r =>
      cases r
      simp only [Referent.function.injEq, FunctionRef.mk.injEq]
      omega
    | _ => simp only [reduceCtorEq, or_false]
  natives _ _ := rfl
  objects _ _ := rfl
  functions r hr := getD_push_of_lt _ _ _ (mem_referents.mp hr)
  cells _ _ := rfl
  roots y hy := List.mem_cons.mp hy
  memberCache := rfl
  config := rfl

end Store

end Interop
