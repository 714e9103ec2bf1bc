import Interop.Proofs.Generics.Idempotence

/-!
# Where bindings come from

Seen from a type, a variable of a supertype stands for what some chain of references makes of it: the argument that the
last reference gives for it, carried down through the references before. The chain of superclasses comes first. Whatever
interfaces say, a type parameter of a superclass stands for what the chain of superclass references makes of it.

References are not followed from everywhere: the root type and simple types bind nothing, even if the table gives them
a superclass with type parameters (`boxedString`).

* **`TypeTable.Chain`**, **`carried`**: chains of references, and what they make of an argument.
* **`TypeTable.bindings_composed`**: every binding comes from a chain.
* **`TypeTable.bindings_superclass`**: the bindings of the superclass chain.
* **`TypeTable.inheritedBindings_composed`**: both, of the bindings that are worked out.
-/

namespace Interop

-- ids are compared as they stand; unfolding one means computing a digest
attribute [local irreducible] TypeId.ofName

/-! ## Bindings of one variable -/

namespace Bindings

/-- A variable is bound exactly where it is a key. -/
theorem isSome_get?_iff (b : Bindings) (v : TypeVar) : (b.get? v).isSome = true ↔ v ∈ b.entries.map (·.1) := by
  unfold get?
  induction b.entries with
  | nil => simp
  | cons entry rest ih =>
    rw [lookup_cons_ite, List.map_cons, List.mem_cons]
    by_cases hv : v = entry.1
    · simp [hv]
    · simp [hv, ih]

theorem mem_keys_insertAll (b : Bindings) (entries : List (TypeVar × Descriptor)) (v : TypeVar) :
    v ∈ (b.insertAll entries).entries.map (·.1) ↔ v ∈ b.entries.map (·.1) ∨ v ∈ entries.map (·.1) := by
  rw [← isSome_get?_iff, ← isSome_get?_iff, isSome_get?_insertAll, Bool.or_eq_true, decide_eq_true_iff]

/-- A variable is bound, and only as a condition says. -/
structure Binds (b : Bindings) (v : TypeVar) (P : Descriptor → Prop) : Prop where
  bound : v ∈ b.entries.map (·.1)
  every : b.Every fun w d => w = v → P d

variable {b : Bindings} {v : TypeVar} {P : Descriptor → Prop}

/-- A binding that is known to be there can be looked up. -/
theorem Binds.get? (h : b.Binds v P) : ∃ d, b.get? v = some d ∧ P d := by
  obtain ⟨d, hd⟩ := Option.isSome_iff_exists.mp ((b.isSome_get?_iff v).mpr h.bound)
  exact ⟨d, hd, h.every (v, d) (mem_of_lookup hd) rfl⟩

/-- What others have to say of a bound variable does not count where they only fill gaps. -/
theorem Binds.insertMissing (h : b.Binds v P) (entries : List (TypeVar × Descriptor)) :
    (b.insertMissing entries).Binds v P := by
  refine List.foldlRecOn (motive := fun b : Bindings => b.Binds v P) _ _ h fun b hb entry _ => ?_
  dsimp only
  split
  · exact hb
  · next hfree =>
    have hne : entry.1 ≠ v := by
      rintro rfl
      exact hfree ((b.isSome_get?_iff _).mpr hb.bound)
    refine ⟨(isSome_get?_iff _ v).mp ?_, hb.every.insert fun heq => absurd heq hne⟩
    rw [get?_insert, if_neg hne.symm]
    exact (b.isSome_get?_iff v).mpr hb.bound

end Bindings

namespace TypeTable

variable {t : TypeTable}

/-! ## Chains of references -/

/-- A supertype reference and the type that makes it; the reference to a superclass is marked. -/
structure Link where
  source : TypeId
  isSuperclass : Bool
  reference : Descriptor

/-- A chain of references of described types leads from a type up to another. -/
inductive Chain (t : TypeTable) : TypeId → List Link → TypeId → Prop
  | nil (id : TypeId) : t.Chain id [] id
  | cons {link : Link} {links : List Link} {d : TypeDecl} {id parent top : TypeId} (hsource : link.source = id)
      (hd : t.find? id = some d) (href : (link.isSuperclass, link.reference) ∈ d.supertypes)
      (hparent : link.reference.typeId? = some parent) (hlinks : t.Chain parent links top) :
      t.Chain id (link :: links) top

/-- What a type argument comes to further down: it is carried through the references on the way, the last one first. -/
def carried (t : TypeTable) (way : List Link) (d : Descriptor) : Descriptor :=
  way.foldr (fun link d => d.substitute (t.referenceBindings link.reference)) d

/-- A type parameter stands for the argument in its place in the reference to its type, carried down the way there. -/
def ComposedAlong (t : TypeTable) (way : List Link) (last : Link) (top : TypeId) (v : TypeVar) (e : Descriptor) :
    Prop :=
  ∃ (i : Nat) (arg : Descriptor), (t.paramsOf top)[i]? = some v ∧ last.reference.arguments[i]? = some arg ∧
    e = t.carried way arg

/-- Type parameters belong to the type that declares them. -/
def OwnSites (t : TypeTable) : Prop := ∀ id, ∀ v ∈ t.paramsOf id, v.site = id

/-- A chain with a reference leads strictly up. -/
theorem Chain.above {way : List Link} {last : Link} {id top : TypeId} (h : t.Chain id (way ++ [last]) top) :
    Relation.TransGen t.Extends id top := by
  induction way generalizing id with
  | nil =>
    cases h with
    | cons _ hd href hparent hlinks =>
      cases hlinks
      exact .single ⟨_, hd, List.mem_filterMap.mpr ⟨_, href, hparent⟩⟩
  | cons link way ih =>
    cases h with
    | cons _ hd href hparent hlinks => exact .head ⟨_, hd, List.mem_filterMap.mpr ⟨_, href, hparent⟩⟩ (ih hlinks)

/-! ## Every binding comes from a chain -/

/-- A reference binds each type parameter to the argument in its place. -/
theorem composedAlong_nil {link : Link} {parent : TypeId} (hparent : link.reference.typeId? = some parent) :
    (t.referenceBindings link.reference).Every (t.ComposedAlong [] link parent) := by
  intro entry hentry
  unfold referenceBindings at hentry
  split at hentry
  · next raw args hreference =>
    split at hentry
    · next d hd =>
      rw [hreference, Descriptor.typeId?] at hparent
      rw [hparent, Option.bind_some] at hd
      have hzip : (Bindings.empty.insertAll (d.typeParams.zip args)).Every fun v e => (v, e) ∈ d.typeParams.zip args :=
        Bindings.Every.insertAll (fun _ hentry => hentry) (Bindings.every_empty _)
      obtain ⟨i, hi⟩ := List.mem_iff_getElem?.mp (hzip entry hentry)
      obtain ⟨hparam, harg⟩ := List.getElem?_zip_eq_some.mp hi
      refine ⟨i, entry.2, ?_, ?_, rfl⟩
      · rw [paramsOf_eq hd]
        exact hparam
      · exact hreference ▸ harg
    · cases hentry
  · cases hentry

/-- The binding of a variable comes from some chain of references. -/
def Composed (t : TypeTable) (id : TypeId) (v : TypeVar) (e : Descriptor) : Prop :=
  ∃ way last top, t.Chain id (way ++ [last]) top ∧ t.ComposedAlong way last top v e

/-- **Every binding comes from a chain of references.** -/
theorem bindings_composed (id : TypeId) : (t.bindings id).Every (t.Composed id) := by
  refine every_bindingsWithin (fun {id parent reference} href hparent known hknown => ?_) _ id
  obtain ⟨d, hd, hsuper⟩ := exists_of_mem_followed href
  refine every_seenThrough (fun entry hentry => ?_) fun entry hentry => ?_
  · refine ⟨[], ⟨id, reference.1, reference.2⟩, parent, .cons rfl hd hsuper hparent (.nil parent), ?_⟩
    exact composedAlong_nil hparent entry hentry
  · -- the chain from the supertype on is one reference longer here, through which its argument is carried
    obtain ⟨way, last, top, hchain, i, arg, hparam, harg, he⟩ := hknown entry hentry
    refine ⟨⟨id, reference.1, reference.2⟩ :: way, last, top, ?_, i, arg, hparam, harg, ?_⟩
    · exact .cons rfl hd hsuper hparent hchain
    · rw [he]
      rfl

/-! ## The superclass chain -/

/-- A reference to a superclass that is followed. -/
structure Link.Leading (link : Link) : Prop where
  isSuperclass : link.isSuperclass = true
  source_ne_object : link.source ≠ Standard.object
  source_not_simple : ¬ link.source.isSimple

/-- The superclass is the first to be followed, and interfaces are all that comes after it. -/
theorem followed_of_leading {link : Link} (hlink : link.Leading) {d : TypeDecl}
    (hd : t.find? link.source = some d) (href : (link.isSuperclass, link.reference) ∈ d.supertypes) :
    t.followed link.source = (true, link.reference) :: d.interfaces.map (false, ·) := by
  have hsuper : d.superclass = some link.reference := by
    rw [hlink.isSuperclass, TypeDecl.supertypes] at href
    simpa using href
  rw [followed, if_neg (not_or.mpr ⟨hlink.source_ne_object, hlink.source_not_simple⟩), hd]
  simp [TypeDecl.supertypes, hsuper]

/-- **The superclass wins**: what it contributes is not changed by any interface. -/
theorem binds_of_superclass (ht : t.CycleFree) {link : Link} (hlink : link.Leading) {d : TypeDecl} {parent : TypeId}
    (hd : t.find? link.source = some d) (href : (link.isSuperclass, link.reference) ∈ d.supertypes)
    (hparent : link.reference.typeId? = some parent) {v : TypeVar} {P : Descriptor → Prop}
    (h : (t.seenThrough link.reference (t.bindings parent)).Binds v P) : (t.bindings link.source).Binds v P := by
  have hfirst : (t.takeReference t.bindings .empty (true, link.reference)).Binds v P := by
    unfold takeReference
    rw [hparent]
    exact ⟨(Bindings.mem_keys_insertAll _ _ v).mpr (.inr h.bound), every_merge (Bindings.every_empty _) h.every true⟩
  rw [bindings_eq ht, combined, followed_of_leading hlink hd href, List.foldl_cons]
  refine List.foldlRecOn (motive := fun b : Bindings => b.Binds v P) _ _ hfirst fun merged hmerged reference hmem => ?_
  obtain ⟨interface, -, rfl⟩ := List.mem_map.mp hmem
  unfold takeReference
  cases interface.typeId? with
  | none => exact hmerged
  | some parent => exact hmerged.insertMissing _

/-- The variables that are bound belong to types further up. -/
theorem above_of_bound (hsites : t.OwnSites) (id : TypeId) :
    (t.bindings id).Every fun v _ => Relation.TransGen t.Extends id v.site := by
  intro entry hentry
  obtain ⟨way, last, top, hchain, i, arg, hparam, -⟩ := bindings_composed id entry hentry
  rw [hsites top entry.1 (List.mem_of_getElem? hparam)]
  exact hchain.above

/-- **A type parameter of a superclass** stands for what the superclass references make of it. -/
theorem bindings_superclass (ht : t.CycleFree) (hsites : t.OwnSites) {way : List Link} {last : Link} {id top : TypeId}
    (hchain : t.Chain id (way ++ [last]) top) (hleading : ∀ link ∈ way ++ [last], link.Leading)
    (hcomplete : t.Complete last.reference) {v : TypeVar} (hv : v ∈ t.paramsOf top) :
    (t.bindings id).Binds v (t.ComposedAlong way last top v) := by
  have hsite : v.site = top := hsites top v hv
  induction way generalizing id with
  | nil =>
    cases hchain with
    | cons hsource hd href hparent hlinks =>
      cases hlinks
      -- one link: the reference binds the variable itself, and everything that is bound further up is another one
      subst hsource
      refine binds_of_superclass ht (hleading last List.mem_cons_self) hd href hparent ⟨?_, every_seenThrough ?_ ?_⟩
      · refine (Bindings.mem_keys_insertAll _ _ v).mpr (.inr ?_)
        rw [← Bindings.isSome_get?_iff, Option.isSome_iff_ne_none]
        exact hcomplete.get?_ne_none hparent hv
      · intro entry hentry heq
        exact heq ▸ composedAlong_nil hparent entry hentry
      · -- the supertype binds variables of types further up only
        intro entry hentry heq
        have habove := above_of_bound hsites top entry hentry
        rw [heq, hsite] at habove
        exact absurd habove (ht top)
  | cons link way ih =>
    cases hchain with
    | cons hsource hd href hparent hlinks =>
      subst hsource
      -- more links: what the way above binds, seen through the first reference
      have hrest := ih hlinks fun link hlink => hleading link (List.mem_cons_of_mem _ hlink)
      refine binds_of_superclass ht (hleading link List.mem_cons_self) hd href hparent ⟨?_, every_seenThrough ?_ ?_⟩
      · refine (Bindings.mem_keys_insertAll _ _ v).mpr (.inl ?_)
        rw [List.map_map]
        exact hrest.bound
      · -- the reference binds variables of the next type, and that is below the last one
        intro entry hentry heq
        obtain ⟨i, arg, hparam, -⟩ := composedAlong_nil hparent entry hentry
        have hnext := hsites _ entry.1 (List.mem_of_getElem? hparam)
        have habove := hlinks.above
        rw [← hnext, heq, hsite] at habove
        exact absurd habove (ht top)
      · intro entry hentry heq
        obtain ⟨i, arg, hparam, harg, he⟩ := hrest.every entry hentry heq
        refine ⟨i, arg, hparam, harg, ?_⟩
        rw [he]
        rfl

/-! ## The bindings that are worked out -/

/-- The answers that are known after the bindings of some types have been asked for, one after the other. -/
def asked (t : TypeTable) (ids : List TypeId) : BindingsCache :=
  ids.foldl (fun cache id => (t.inheritedBindings cache id).2) []

/-- A cache that only the computation itself has filled is honest. -/
theorem honest_asked (ht : t.CycleFree) (ids : List TypeId) : t.Honest (t.asked ids) :=
  List.foldlRecOn (motive := t.Honest) _ _ t.honest_nil fun _ hcache id _ => (inheritedBindings_eq ht hcache id).2

/--
**Bindings are composed along chains of references, and the superclass chain wins.** In a hierarchy without cycles,
whatever was asked for before: each binding is the argument in the place of its variable in the last reference of a
chain, carried down through the references before it. Where the chain consists of superclass references which are
followed, and the last one gives all arguments, every type parameter of the type it leads to is bound along this chain.
-/
theorem inheritedBindings_composed (ht : t.CycleFree) (hsites : t.OwnSites) (earlier : List TypeId) (id : TypeId) :
    let b := (t.inheritedBindings (t.asked earlier) id).1
    (∀ entry ∈ b.entries, ∃ way last top, t.Chain id (way ++ [last]) top ∧
      t.ComposedAlong way last top entry.1 entry.2) ∧
    (∀ way last top, t.Chain id (way ++ [last]) top → (∀ link ∈ way ++ [last], link.Leading) →
      t.Complete last.reference → ∀ v ∈ t.paramsOf top,
        ∃ e, b.get? v = some e ∧ t.ComposedAlong way last top v e) := by
  intro b
  have hb : b = t.bindings id := (inheritedBindings_eq ht (honest_asked ht earlier) id).1
  rw [hb]
  refine ⟨bindings_composed id, fun way last top hchain hleading hcomplete v hv => ?_⟩
  exact (bindings_superclass ht hsites hchain hleading hcomplete hv).get?

/-- Whether variables are declared at their sites can be read off the entries. -/
theorem ownSites_of_entries
    (h : (t.entries.all fun entry => entry.2.typeParams.all (·.site = entry.1)) = true) : t.OwnSites := by
  intro id v hv
  obtain ⟨d, hd, hparam⟩ := exists_of_mem_paramsOf hv
  have hentry := List.all_eq_true.mp h (id, d) (mem_entries_of_find? hd)
  exact of_decide_eq_true (List.all_eq_true.mp hentry v hparam)

/-- A box, a shelf, which is a box of an array, and a shelf of strings that claims to be a box of numbers too. -/
def shelves : TypeTable :=
  ⟨[(.ofName "demo.Box", { StandardType.bare "demo.Box" .ofClass with typeParams := [⟨.ofName "demo.Box", "T"⟩] }),
    (.ofName "demo.Shelf",
      { StandardType.bare "demo.Shelf" .ofClass with
        typeParams := [⟨.ofName "demo.Shelf", "E"⟩]
        superclass := some (.parameterized (.plain "demo.Box") [.array (StandardType.var "demo.Shelf" "E")]) }),
    (.ofName "demo.Names",
      { StandardType.bare "demo.Names" .ofClass with
        superclass := some (.parameterized (.plain "demo.Shelf") [.string])
        interfaces := [.parameterized (.plain "demo.Box") [.numeric .int]] })]⟩

/-- The box holds an array of strings, as the superclasses say, and not a number. -/
theorem inheritedBindings_composed_shelves :
    let toShelf : Link := ⟨.ofName "demo.Names", true, .parameterized (.plain "demo.Shelf") [.string]⟩
    let toBox : Link :=
      ⟨.ofName "demo.Shelf", true, .parameterized (.plain "demo.Box") [.array (StandardType.var "demo.Shelf" "E")]⟩
    let content : TypeVar := ⟨.ofName "demo.Box", "T"⟩
    let b := (shelves.inheritedBindings (shelves.asked [.ofName "demo.Shelf"]) (.ofName "demo.Names")).1
    shelves.Chain (.ofName "demo.Names") [toShelf, toBox] (.ofName "demo.Box") ∧
    (∃ e, b.get? content = some e ∧ shelves.ComposedAlong [toShelf] toBox (.ofName "demo.Box") content e) ∧
    (b.get? content).map Descriptor.signature = some "host.String[]" := by
  intro toShelf toBox content b
  have hkeys : (shelves.entries.map (·.1)).Nodup := by decide +kernel
  have hnames : shelves.find? (.ofName "demo.Names") = some _ := lookup_of_mem hkeys (.tail _ (.tail _ (.head _)))
  have hshelf : shelves.find? (.ofName "demo.Shelf") = some _ := lookup_of_mem hkeys (.tail _ (.head _))
  have hbox : shelves.find? (.ofName "demo.Box") = some _ := lookup_of_mem hkeys (.head _)
  have hchain : shelves.Chain (.ofName "demo.Names") ([toShelf] ++ [toBox]) (.ofName "demo.Box") :=
    .cons rfl hnames (.head _) rfl (.cons rfl hshelf (.head _) rfl (.nil _))
  have hleading : ∀ link ∈ [toShelf] ++ [toBox], link.Leading := by
    intro link hlink
    rcases List.mem_pair.mp hlink with rfl | rfl
    · exact ⟨rfl, by decide +kernel, by decide +kernel⟩
    · exact ⟨rfl, by decide +kernel, by decide +kernel⟩
  have hcomplete : shelves.Complete toBox.reference := by
    rintro parent ⟨rfl⟩
    rw [paramsOf_eq hbox]
    exact Nat.le_refl _
  have hcontent : content ∈ shelves.paramsOf (.ofName "demo.Box") := by
    rw [paramsOf_eq hbox]
    exact .head _
  have hcycles : shelves.CycleFree := cycleFree_of_entries (by decide +kernel)
  have hsites : shelves.OwnSites := ownSites_of_entries (by decide +kernel)
  refine ⟨hchain, ?_, by decide +kernel⟩
  exact (inheritedBindings_composed hcycles hsites _ _).2 _ _ _ hchain hleading hcomplete content hcontent

/-- A box, and strings that are boxes of things. -/
def boxedString : TypeTable :=
  ⟨[(.ofName "demo.Box", { StandardType.bare "demo.Box" .ofClass with typeParams := [⟨.ofName "demo.Box", "T"⟩] }),
    (Standard.string,
      { StandardType.bare Standard.stringName .ofClass with
        superclass := some (.parameterized (.plain "demo.Box") [.plain "demo.Thing"]) })]⟩

/-- Strings are a simple type, from which references are not followed: the content of the box is not bound. -/
theorem inheritedBindings_boxedString :
    let toBox : Link := ⟨Standard.string, true, .parameterized (.plain "demo.Box") [.plain "demo.Thing"]⟩
    let content : TypeVar := ⟨.ofName "demo.Box", "T"⟩
    boxedString.CycleFree ∧ boxedString.OwnSites ∧ boxedString.Chain Standard.string [toBox] (.ofName "demo.Box") ∧
    toBox.isSuperclass = true ∧ boxedString.Complete toBox.reference ∧
    content ∈ boxedString.paramsOf (.ofName "demo.Box") ∧
    (boxedString.inheritedBindings [] Standard.string).1.get? content = none := by
  intro toBox content
  have hkeys : (boxedString.entries.map (·.1)).Nodup := by decide +kernel
  have hbox : boxedString.find? (.ofName "demo.Box") = some _ := lookup_of_mem hkeys (.head _)
  have hstring : boxedString.find? Standard.string = some _ := lookup_of_mem hkeys (.tail _ (.head _))
  refine ⟨cycleFree_of_entries (by decide +kernel), ownSites_of_entries (by decide +kernel), ?_, rfl, ?_, ?_, ?_⟩
  · exact .cons rfl hstring (.head _) rfl (.nil _)
  · rintro parent ⟨rfl⟩
    rw [paramsOf_eq hbox]
    exact Nat.le_refl _
  · rw [paramsOf_eq hbox]
    exact .head _
  · exact Option.isNone_iff_eq_none.mp (by decide +kernel)

end TypeTable

end Interop
