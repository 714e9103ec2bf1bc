import Interop.Proofs.Coercion.Elements
import Interop.Proofs.Coercion.Frame
import Interop.Proofs.Store.Liveness

/-!
# Lists that are shared, and lists that are copied

A wrapped list for which a list, set or collection of an element type is asked comes through as it is, or is copied with
every element converted. Which of the two it is depends on the element types, and of these only on their ids. An id
does not tell what the type arguments are, so that a list of lists of one type is shared where lists of lists of
another type are asked for. A copy is a new object, and the list that it was made of stays as it is.

* **`Store.WrapsList`**: proxies of lists.
* **`elementsFit_iff`**, **`Store.WrapsList.outcome_convert`**: which lists are let through.
* **`convertItem`**, **`takesInTurn_convertAgain`**: the items of a list are wrapped and converted in turn.
* **`convert_wrappedList`**: when a list is shared, what a copy holds, and how copying stops.
-/

namespace Interop

-- ids are compared as they stand; unfolding one means computing a digest
attribute [local irreducible] TypeId.ofName

variable {s s₁ : Store}

/-! ## Proxies of lists -/

/-- A script value that is the proxy of a list. -/
structure Store.WrapsList (s : Store) (v : Script) (ref : NativeRef) (l : NativeList) : Prop where
  proxy : ∃ r p, v = .object r ∧ s.object r = .proxy p ∧ p.kind = .ofList ∧ p.value = .object ref
  list : s.native ref = .list l

namespace Store.WrapsList

variable {v : Script} {ref : NativeRef} {l : NativeList}

theorem unwrap?_eq (h : s.WrapsList v ref l) : s.unwrap? v = some (.object ref) := by
  obtain ⟨r, p, rfl, hr, -, hvalue⟩ := h.proxy
  rw [unwrap?, hr, ScriptObject.native?, hvalue]

theorem list?_eq (h : s.WrapsList v ref l) : s.list? (.object ref) = some l := by
  simp only [list?, h.list]

theorem mem_referents (h : s.WrapsList v ref l) : .native ref ∈ s.referents := by
  rw [Store.mem_referents]
  refine index_lt_of_native ?_
  rw [h.list]
  exact nofun

/-- A rank of such a proxy is that of a native which is no array. -/
theorem outcome_rankTarget (h : s.WrapsList v ref l) {target : Target} (hany : target ≠ .any) :
    (rankTarget v target).outcome s = (.ok (s.rankWrapped (.object ref) false target), s) := by
  have hunwrap := h.unwrap?_eq
  obtain ⟨r, p, rfl, hr, hkind, -⟩ := h.proxy
  unfold rankTarget
  rw [Eval.outcome_get_bind, Store.kindOf_proxy hr, hunwrap, hkind]
  split
  · exact absurd rfl hany
  · rfl

end Store.WrapsList

/-! ## Which lists are let through -/

/-- Element types are told by their ids, unless the one asked for is open or the root type. -/
theorem elementsFit_iff {wanted actual : Descriptor} {id : TypeId} (hid : wanted.typeId? = some id)
    (hobject : id ≠ Standard.object) : elementsFit wanted actual = true ↔ actual.typeId? = some id := by
  simp [elementsFit, hid, hobject]

section Collections

variable {v : Script} {ref : NativeRef} {l : NativeList} {raw element : Descriptor} {rawId : TypeId}

/-- A list of a fitting kind conforms where its element type fits. -/
theorem Store.WrapsList.conforms_eq (h : s.WrapsList v ref l) (hkind : s.types.isSubtype l.kind.typeId rawId = true) :
    s.conforms (.object ref) (.collection rawId element) = elementsFit element l.elementType := by
  unfold Store.conforms
  rw [h.list?_eq]
  simp only [memberTypeOf?, h.list, NativeObject.typeId, hkind, Bool.true_and]

/-- A list of a fitting kind is let through, or can be copied. -/
theorem Store.WrapsList.rankWrapped_eq (h : s.WrapsList v ref l)
    (hkind : s.types.isSubtype l.kind.typeId rawId = true) :
    s.rankWrapped (.object ref) false (.collection rawId element) =
      if elementsFit element l.elementType then .nontrivial else .converted 3 := by
  unfold Store.rankWrapped
  rw [h.conforms_eq hkind, h.list?_eq]
  simp only [hkind, if_true]

/-- **A list is let through or copied**, depending on its element type. -/
theorem Store.WrapsList.outcome_convert (h : s.WrapsList v ref l) (hraw : raw.typeId? = some rawId)
    (hcollection : rawId = Standard.list ∨ rawId = Standard.set ∨ rawId = Standard.collection)
    (hkind : s.types.isSubtype l.kind.typeId rawId = true) (element : Descriptor) (args : List Descriptor) :
    (convert (.parameterized raw (element :: args)) v).outcome s =
      (if elementsFit element l.elementType then pure (.object ref)
        else copyList l rawId element (convert element)).outcome s := by
  have htarget : s.types.targetOf (.parameterized raw (element :: args)) = .ok (.collection rawId element) :=
    congrArg Except.ok (s.types.namedTarget_collection hraw hcollection)
  have hrank : (rankTarget v (.collection rawId element)).outcome s =
      (.ok (if elementsFit element l.elementType then .nontrivial else .converted 3), s) := by
    rw [← h.rankWrapped_eq hkind]
    exact h.outcome_rankTarget nofun
  have hsome : (if elementsFit element l.elementType then Rank.nontrivial else .converted 3).isNone = false := by
    split <;> rfl
  -- the rank decides between the list itself and a copy
  rw [convert, outcome_convertBy (Store.isSome_identity?_of_unwrap? h.unwrap?_eq) htarget nofun hrank hsome,
    h.unwrap?_eq, convertAt_zero]
  dsimp only
  unfold convertWrapped
  cases elementsFit element l.elementType with
  | true => rfl
  | false =>
    dsimp only
    rw [if_neg (by decide), Eval.outcome_get_bind, h.list?_eq]
    rfl

end Collections

/-! ## Copies -/

/-- An item of a list, as script code gets it and then as an element of another type. -/
def convertItem (type element : Descriptor) (item : Native) : Eval Native := do
  convert element (← Eval.wrap item type)

/-- The items of a list are converted in turn. -/
theorem takesInTurn_convertAgain (type element : Descriptor) :
    TakesInTurn (convertItem type element) (fun _ stop => stop) fun _ => convertAgain (convert element) type where
  nil i s := rfl
  ok {i a rest s native s₁} h := by
    rw [convertItem] at h
    rw [convertAgain, ← bind_assoc, Eval.outcome_bind_of_ok h, bind_pure_comp]
  error {i a rest s stop s₁} h := by
    rw [convertItem] at h
    rw [convertAgain, ← bind_assoc, Eval.outcome_bind_of_error h]

/-- The size that a store of native objects has reached; objects are never given up. -/
def Discipline.atLeast (size : Nat) : Discipline where
  holds s := size ≤ s.natives.size
  allows _ := True
  step hchange hs := Nat.le_trans hs (Store.Step.size_natives_le hchange.step)
  lookedUp _ _ _ hs := hs
  failed _ := trivial
  diverged := trivial
  lookup _ _ := trivial

section Copies

variable {l : NativeList} {element : Descriptor}

/-- Where all elements are converted, the copy is a new list of them. -/
theorem outcome_copyList {natives : List Native}
    (h : InTurn (convertItem l.elementType element) s l.elements natives s₁) (rawId : TypeId) :
    ∃ copy s₂, (copyList l rawId element (convert element)).outcome s = (.ok (.object copy), s₂) ∧
      .native copy ∉ s.referents ∧
      s₂.native copy = .list ⟨kindFor rawId l.kind, element, (kindFor rawId l.kind).keeps natives⟩ := by
  have hloop := takesInTurn_convertAgain l.elementType element
  -- the copy comes after what the conversions have made, and they give up nothing
  have hsize : s.natives.size ≤ s₁.natives.size := by
    have hconvert : ∀ v, (convert element v).Follows (Discipline.atLeast s.natives.size) :=
      follows_convert element (.inr fun _ => trivial)
    have hfollows := (follows_convertAgain hconvert l.elementType l.elements s (Nat.le_refl _)).1
    obtain ⟨inUse, hrun⟩ := hloop.outcome_of_inTurn h 0
    rw [hrun] at hfollows
    exact hfollows
  obtain ⟨inUse, hmade⟩ := hloop.outcome_made (fun natives => .list (.of (kindFor rawId l.kind) element natives)) h
    (i := 0)
  refine ⟨_, _, hmade, ?_, ?_⟩
  · rw [Store.mem_referents]
    exact Nat.not_lt.mpr hsize
  · rw [← NativeList.of_eq]
    exact (s₁.withInUse inUse).native_addNative _

/-- A copy succeeds exactly where every element converts in turn. -/
theorem succeedsAt_copyList_iff (rawId : TypeId) :
    (copyList l rawId element (convert element)).SucceedsAt s ↔
      ∃ natives s₁, InTurn (convertItem l.elementType element) s l.elements natives s₁ :=
  (takesInTurn_convertAgain l.elementType element).succeedsAt_made_iff _ (i := 0)

/-- The first element that cannot be converted stops the copying. -/
theorem error_copyList_iff (rawId : TypeId) {stop : Stop} :
    (∃ s₂, (copyList l rawId element (convert element)).outcome s = (.error stop, s₂)) ↔
      ∃ i, StopsAt (convertItem l.elementType element) s l.elements i stop := by
  refine ((takesInTurn_convertAgain l.elementType element).error_made_iff _ (i := 0)).trans ?_
  simp only [exists_eq_right']

end Copies

/-- **A wrapped list is shared where the element types have the same id, and copied otherwise.** For every list of a
kind that is asked for, and every element type that is not open and not the root type,
* the result is the list itself exactly where the ids of the element types are the same, and then nothing happens;
* otherwise its items are wrapped as such and converted in turn: where all of them are converted the result is a new
  list, of the kind and element type that were asked for, with the converted elements, a set without those that have an
  equal before them, and where one is not the conversion stops as the first of these does;
* and no list is changed. -/
theorem convert_wrappedList (hs : s.Lived) {v : Script} {ref : NativeRef} {l : NativeList} (hv : s.WrapsList v ref l)
    {raw element : Descriptor} {rawId id : TypeId} (hraw : raw.typeId? = some rawId)
    (hcollection : rawId = Standard.list ∨ rawId = Standard.set ∨ rawId = Standard.collection)
    (hkind : s.types.isSubtype l.kind.typeId rawId = true) (hid : element.typeId? = some id)
    (hobject : id ≠ Standard.object) (args : List Descriptor) :
    let d := Descriptor.parameterized raw (element :: args)
    let kind := kindFor rawId l.kind
    (((convert d v).outcome s).1 = .ok (.object ref) ↔ l.elementType.typeId? = some id) ∧
    (l.elementType.typeId? = some id → (convert d v).outcome s = (.ok (.object ref), s)) ∧
    (l.elementType.typeId? ≠ some id →
      ((convert d v).SucceedsAt s ↔ ∃ natives s₁, InTurn (convertItem l.elementType element) s l.elements natives s₁) ∧
      (∀ natives s₁, InTurn (convertItem l.elementType element) s l.elements natives s₁ → ∃ copy s₂,
        (convert d v).outcome s = (.ok (.object copy), s₂) ∧ .native copy ∉ s.referents ∧
          s₂.native copy = .list ⟨kind, element, kind.keeps natives⟩) ∧
      ∀ stop, (∃ s₂, (convert d v).outcome s = (.error stop, s₂)) ↔
        ∃ i, StopsAt (convertItem l.elementType element) s l.elements i stop) ∧
    s.LeavesLists ((convert d v).outcome s).2 := by
  intro d kind
  have houtcome := hv.outcome_convert hraw hcollection hkind element args
  have hshared : l.elementType.typeId? = some id → (convert d v).outcome s = (.ok (.object ref), s) := by
    intro hsame
    rw [houtcome, if_pos ((elementsFit_iff hid hobject).mpr hsame)]
    rfl
  have hcopied : l.elementType.typeId? ≠ some id →
      (convert d v).outcome s = (copyList l rawId element (convert element)).outcome s := by
    intro hother
    rw [houtcome, if_neg fun hfit => hother ((elementsFit_iff hid hobject).mp hfit)]
  refine ⟨⟨fun hok => ?_, fun hsame => by rw [hshared hsame]⟩, hshared, fun hother => ⟨?_, ?_, ?_⟩,
    leavesLists_convert hs d v⟩
  · -- a copy is a new list, so it is not the one that was wrapped
    by_contra hother
    rw [hcopied hother] at hok
    obtain ⟨natives, s₁, h⟩ := (succeedsAt_copyList_iff rawId).mp ⟨_, _, Prod.ext hok rfl⟩
    obtain ⟨copy, s₂, hcopy, hnew, -⟩ := outcome_copyList h rawId
    rw [hcopy] at hok
    cases hok
    exact hnew hv.mem_referents
  · rw [Eval.SucceedsAt, hcopied hother]
    exact succeedsAt_copyList_iff rawId
  · intro natives s₁ h
    rw [hcopied hother]
    exact outcome_copyList h rawId
  · intro stop
    rw [hcopied hother]
    exact error_copyList_iff rawId

/-- The type of lists of a type. -/
def Descriptor.listOf (element : Descriptor) : Descriptor :=
  .parameterized (.interface Standard.listName false) [element]

/-- A list of words, a list that holds this list, and proxies of both. -/
def Store.wordLists : Store :=
  let words : NativeObject := .list ⟨.list, .string, [.string "4"]⟩
  let lists : NativeObject := .list ⟨.list, .listOf .string, [.object ⟨0⟩]⟩
  let s := (((Store.standard {} false).addNative words).2.addNative lists).2
  let s := (s.addProxy .ofList (.object ⟨0⟩) (.listOf .string)).2
  (s.addProxy .ofList (.object ⟨1⟩) (.listOf (.listOf .string))).2

/-- The registry of the example comes about by calls from a host. -/
theorem Store.lived_wordLists : Store.wordLists.Lived := by
  refine .change (.change ?_ (.addProxy _ (.object ⟨0⟩) _)) (.addProxy _ (.object ⟨1⟩) _)
  exact .change (.change (.standard {} false) (.addNative _ _)) (.addNative _ _)

/-- The words are copied where numbers are asked for. The list of lists of words is shared where a list of lists of
numbers is asked for, although these are types of other signatures. -/
theorem convert_wrappedList_wordLists :
    (∃ natives copy s₂, (convert (.listOf (.numeric .int)) (.object ⟨0⟩)).outcome .wordLists = (.ok (.object copy), s₂) ∧
      .native copy ∉ Store.wordLists.referents ∧ s₂.native copy = .list ⟨.list, .numeric .int, natives⟩) ∧
    (Descriptor.listOf .string).signature ≠ (Descriptor.listOf (.numeric .int)).signature ∧
    (convert (.listOf (.listOf (.numeric .int))) (.object ⟨1⟩)).outcome .wordLists
      = (.ok (.object ⟨1⟩), .wordLists) := by
  have hwords : Store.wordLists.WrapsList (.object ⟨0⟩) ⟨0⟩ ⟨.list, .string, [.string "4"]⟩ :=
    ⟨⟨⟨0⟩, _, rfl, rfl, rfl, rfl⟩, rfl⟩
  have hlists : Store.wordLists.WrapsList (.object ⟨1⟩) ⟨1⟩ ⟨.list, .listOf .string, [.object ⟨0⟩]⟩ :=
    ⟨⟨⟨1⟩, _, rfl, rfl, rfl, rfl⟩, rfl⟩
  have hkind : Store.wordLists.types.isSubtype Standard.list Standard.list = true := by decide +kernel
  have hraw : (Descriptor.interface Standard.listName false).typeId? = some Standard.list := rfl
  have hnumber : (Descriptor.numeric .int).typeId? = some _ := rfl
  have hnumbers : (Descriptor.listOf (.numeric .int)).typeId? = some Standard.list := rfl
  obtain ⟨-, -, hcopied, -⟩ := convert_wrappedList Store.lived_wordLists hwords hraw (.inl rfl) hkind hnumber
    (by decide +kernel) []
  obtain ⟨-, hshared, -⟩ := convert_wrappedList Store.lived_wordLists hlists hraw (.inl rfl) hkind hnumbers
    (by decide +kernel) []
  refine ⟨?_, by decide +kernel, hshared rfl⟩
  obtain ⟨hsucceeds, hmade, -⟩ := hcopied (by decide +kernel)
  obtain ⟨natives, s₁, h⟩ := hsucceeds.mp (.of_toOption (a := .object ⟨2⟩) (by decide +kernel))
  obtain ⟨copy, s₂, hok, hnew, hlist⟩ := hmade natives s₁ h
  exact ⟨natives, copy, s₂, hok, hnew, by simpa [kindFor, CollectionKind.keeps] using hlist⟩

end Interop
