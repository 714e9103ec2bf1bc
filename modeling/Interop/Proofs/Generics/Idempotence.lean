import Interop.Proofs.Descriptor.Occurrences
import Interop.Proofs.Generics.Inherited
import Interop.Proofs.Generics.References
import Interop.Store.Declare

/-!
# Substituting twice

Substituting the bindings of a type is done in one pass. A second pass finds something to do where a variable stands for
a type that mentions a variable which is bound itself. In a hierarchy without cycles, in which references to supertypes
mention the type parameters of their own type only, what a variable stands for mentions variables of types further down.
So no variable stands for itself, and the second pass changes a type whenever it finds something to do.

Along references that give all type arguments, nothing is left to do: what a variable stands for mentions only type
parameters of the type from which it is seen. A reference that leaves arguments out leaves a variable open, and another
reference to the same supertype may still bind it.

* **`TypeTable.bindings_lowered`**: variables stand for types that mention variables from further down.
* **`TypeTable.bindings_closed`**: with complete references, they mention parameters of the type at hand.
* **`TypeTable.substitute_idempotent_iff`**: when a second pass changes nothing.
-/

namespace Interop

-- ids are compared as they stand; unfolding one means computing a digest
attribute [local irreducible] TypeId.ofName

/-! ## Bound variables -/

namespace Bindings

/-- Only the variable that is inserted changes its binding. -/
theorem get?_insert (b : Bindings) (v : TypeVar) (d : Descriptor) (w : TypeVar) :
    (b.insert v d).get? w = if w = v then some d else b.get? w := by
  refine lookup_of_insertion (insertEntry v d) rfl (fun first rest => ?_) b.entries w
  rw [insertEntry]
  by_cases hfirst : v = first.1
  · rw [if_pos hfirst, if_pos hfirst.symm, ← hfirst]
  · rw [if_neg hfirst, if_neg (Ne.symm hfirst)]

/-- What is added is bound, and nothing is lost. -/
theorem isSome_get?_insertAll (b : Bindings) (entries : List (TypeVar × Descriptor)) (v : TypeVar) :
    ((b.insertAll entries).get? v).isSome = ((b.get? v).isSome || decide (v ∈ entries.map (·.1))) := by
  induction entries generalizing b with
  | nil => simp [insertAll]
  | cons entry entries ih =>
    have hrest := ih (b.insert entry.1 entry.2)
    rw [get?_insert] at hrest
    rw [insertAll, List.foldl_cons]
    refine hrest.trans ?_
    simp only [List.map_cons, List.mem_cons]
    by_cases hv : v = entry.1
    · simp [hv]
    · simp [hv]

end Bindings

/-- The type arguments of a type; none if it has none. -/
def Descriptor.arguments : Descriptor → List Descriptor
  | parameterized _ args => args
  | _ => []

namespace TypeTable

variable {t : TypeTable}

/-! ## Type parameters -/

/-- The type parameters of a type; none if it is not described. -/
def paramsOf (t : TypeTable) (id : TypeId) : List TypeVar := (t.find? id).elim [] (·.typeParams)

/-- The parameters of a type are those of its declaration. -/
theorem paramsOf_eq {id : TypeId} {d : TypeDecl} (hd : t.find? id = some d) : t.paramsOf id = d.typeParams := by
  rw [paramsOf, hd]
  rfl

theorem exists_of_mem_paramsOf {id : TypeId} {v : TypeVar} (hv : v ∈ t.paramsOf id) :
    ∃ d, t.find? id = some d ∧ v ∈ d.typeParams := by
  unfold paramsOf at hv
  cases hfind : t.find? id with
  | none =>
    rw [hfind] at hv
    cases hv
  | some d =>
    rw [hfind] at hv
    exact ⟨d, rfl, hv⟩

/-- Type parameters belong to the type that declares them, and its references to supertypes mention no others. -/
structure OwnVariables (t : TypeTable) : Prop where
  site : ∀ id d, t.find? id = some d → ∀ v ∈ d.typeParams, v.site = id
  mentioned : ∀ id d, t.find? id = some d → ∀ reference ∈ d.supertypes, ∀ v ∈ reference.2.vars, v ∈ d.typeParams

/-- That types mention no variables but their own can be read off the entries. -/
theorem ownVariables_of_entries
    (h : (t.entries.all fun entry => entry.2.typeParams.all (·.site = entry.1) &&
      entry.2.supertypes.all fun reference => reference.2.vars.all (· ∈ entry.2.typeParams)) = true) :
    t.OwnVariables := by
  have hentry : ∀ id d, t.find? id = some d → (∀ v ∈ d.typeParams, v.site = id) ∧
      ∀ reference ∈ d.supertypes, ∀ v ∈ reference.2.vars, v ∈ d.typeParams := by
    intro id d hd
    simpa using List.all_eq_true.mp h (id, d) (mem_entries_of_find? hd)
  exact ⟨fun id d hd => (hentry id d hd).1, fun id d hd => (hentry id d hd).2⟩

/-- A parameter of a type is declared at the type. -/
theorem OwnVariables.site_of_mem (ht : t.OwnVariables) {id : TypeId} {v : TypeVar} (hv : v ∈ t.paramsOf id) :
    v.site = id := by
  obtain ⟨d, hd, hparam⟩ := exists_of_mem_paramsOf hv
  exact ht.site id d hd v hparam

/-- What a supertype reference mentions are parameters of the type that makes it. -/
theorem OwnVariables.mem_paramsOf (ht : t.OwnVariables) {id : TypeId} {reference : Bool × Descriptor}
    (href : reference ∈ t.followed id) {v : TypeVar} (hv : v ∈ reference.2.vars) : v ∈ t.paramsOf id := by
  obtain ⟨d, hd, hsuper⟩ := exists_of_mem_followed href
  rw [paramsOf_eq hd]
  exact ht.mentioned id d hd reference hsuper v hv

/-- A reference binds type parameters of the type it names, to types that mention those of its own type. -/
theorem OwnVariables.referenceBindings (ht : t.OwnVariables) {id parent : TypeId} {reference : Bool × Descriptor}
    (href : reference ∈ t.followed id) (hparent : reference.2.typeId? = some parent) :
    (t.referenceBindings reference.2).Every fun v d => v ∈ t.paramsOf parent ∧ ∀ w ∈ d.vars, w ∈ t.paramsOf id := by
  intro entry hentry
  obtain ⟨raw, args, hreference, harg, parent', d, hraw, hfind, hvar⟩ := mem_referenceBindings hentry
  rw [hreference, Descriptor.typeId?] at hparent
  obtain rfl : parent' = parent := Option.some.inj (hraw.symm.trans hparent)
  refine ⟨by rwa [paramsOf_eq hfind], fun w hw => ht.mem_paramsOf href ?_⟩
  rw [hreference, Descriptor.vars_eq rfl]
  exact List.mem_flatMap.mpr ⟨entry.2, harg, hw⟩

/-! ## Conditions along the hierarchy -/

/-- A condition that goes from the supertypes of a type to the type, along each reference, holds of all bindings. -/
theorem every_bindingsWithin {P : TypeId → TypeVar → Descriptor → Prop}
    (hstep : ∀ {id parent reference}, reference ∈ t.followed id → reference.2.typeId? = some parent →
      ∀ known : Bindings, known.Every (P parent) → (t.seenThrough reference.2 known).Every (P id))
    (n : Nat) (id : TypeId) : (t.bindingsWithin n id).Every (P id) := by
  induction n generalizing id with
  | zero => exact Bindings.every_empty _
  | succ n ih =>
    refine List.foldlRecOn (motive := Bindings.Every (P id)) _ _ (Bindings.every_empty _) ?_
    intro merged hmerged reference href
    unfold takeReference
    cases hparent : reference.2.typeId? with
    | none => exact hmerged
    | some parent => exact every_merge hmerged (hstep href hparent _ (ih parent)) reference.1

/-- What is mentioned after carrying through: arguments of the reference, or variables that it leaves open. -/
theorem OwnVariables.mem_vars_substitute (ht : t.OwnVariables) {id parent : TypeId} {reference : Bool × Descriptor}
    (href : reference ∈ t.followed id) (hparent : reference.2.typeId? = some parent) {d : Descriptor} {w : TypeVar}
    (hw : w ∈ (d.substitute (t.referenceBindings reference.2)).vars) :
    (w ∈ d.vars ∧ (t.referenceBindings reference.2).get? w = none) ∨
      (∃ v ∈ d.vars, v ∈ t.paramsOf parent) ∧ w ∈ t.paramsOf id := by
  rw [Descriptor.vars_substitute] at hw
  obtain ⟨v, hv, hw⟩ := List.mem_flatMap.mp hw
  cases hbound : (t.referenceBindings reference.2).get? v with
  | none =>
    rw [hbound] at hw
    obtain rfl : w = v := List.mem_singleton.mp hw
    exact .inl ⟨hv, hbound⟩
  | some e =>
    rw [hbound] at hw
    obtain ⟨hparam, hmentioned⟩ := ht.referenceBindings href hparent (v, e) (mem_of_lookup hbound)
    exact .inr ⟨⟨v, hv, hparam⟩, hmentioned w hw⟩

/-! ## Further down -/

/-- The variable belongs to a type further up, and the type it stands for mentions variables from below that one. -/
def Lowered (t : TypeTable) (id : TypeId) (v : TypeVar) (d : Descriptor) : Prop :=
  Relation.TransGen t.Extends id v.site ∧ ∀ w ∈ d.vars, Relation.TransGen t.Extends w.site v.site

/-- **Variables stand for types that mention variables from further down.** -/
theorem bindings_lowered (ht : t.OwnVariables) (id : TypeId) : (t.bindings id).Every (t.Lowered id) := by
  refine every_bindingsWithin (fun {id parent reference} href hparent known hknown => ?_) _ id
  have hextends : t.Extends id parent := extends_of_mem_followed href hparent
  refine every_seenThrough (fun entry hentry => ?_) fun entry hentry => ?_
  · obtain ⟨hparam, hmentioned⟩ := ht.referenceBindings href hparent entry hentry
    rw [Lowered, ht.site_of_mem hparam]
    refine ⟨.single hextends, fun w hw => ?_⟩
    rw [ht.site_of_mem (hmentioned w hw)]
    exact .single hextends
  · obtain ⟨habove, hbelow⟩ := hknown entry hentry
    refine ⟨.head hextends habove, fun w hw => ?_⟩
    rcases ht.mem_vars_substitute href hparent hw with ⟨hopen, -⟩ | ⟨-, hparam⟩
    · exact hbelow w hopen
    · -- an argument mentions parameters of the type at hand, which is further down than everything known above
      rw [ht.site_of_mem hparam]
      exact .head hextends habove

/-! ## Complete references -/

/-- A reference gives an argument for each type parameter of the type that it names. -/
def Complete (t : TypeTable) (reference : Descriptor) : Prop :=
  ∀ parent, reference.typeId? = some parent → (t.paramsOf parent).length ≤ reference.arguments.length

/-- All references that are followed from a type on upwards are complete. -/
def CompleteFrom (t : TypeTable) (id : TypeId) : Prop :=
  ∀ a, Relation.ReflTransGen t.Extends id a → ∀ reference ∈ t.followed a, t.Complete reference.2

/-- Completeness is passed on to the supertypes. -/
theorem CompleteFrom.step {id parent : TypeId} (h : t.CompleteFrom id) (hextends : t.Extends id parent) :
    t.CompleteFrom parent := fun a ha => h a (.head hextends ha)

/-- Types that refer to one another only, and completely. -/
theorem completeFrom_of_closed (ids : List TypeId)
    (h : (ids.all fun a => (t.find? a).all fun d => d.supertypes.all fun reference =>
      reference.2.typeId?.all fun parent =>
        parent ∈ ids ∧ (t.paramsOf parent).length ≤ reference.2.arguments.length) = true)
    {id : TypeId} (hid : id ∈ ids) : t.CompleteFrom id := by
  have hreference : ∀ a ∈ ids, ∀ d, t.find? a = some d → ∀ reference ∈ d.supertypes, ∀ parent,
      reference.2.typeId? = some parent →
        parent ∈ ids ∧ (t.paramsOf parent).length ≤ reference.2.arguments.length := by
    intro a ha d hd reference href parent hparent
    have hall := List.all_eq_true.mp h a ha
    rw [hd] at hall
    have hthis := List.all_eq_true.mp hall reference href
    rw [hparent] at hthis
    exact of_decide_eq_true hthis
  -- the types above the first one stay in the closed list
  have hmem : ∀ a, Relation.ReflTransGen t.Extends id a → a ∈ ids := by
    intro a ha
    induction ha with
    | refl => exact hid
    | tail _ hextends ih =>
      obtain ⟨d, hd, hparent⟩ := hextends
      obtain ⟨reference, href, hparent⟩ := List.mem_filterMap.mp hparent
      exact (hreference _ ih d hd reference href _ hparent).1
  intro a ha reference href parent hparent
  obtain ⟨d, hd, hsuper⟩ := exists_of_mem_followed href
  exact (hreference a (hmem a ha) d hd reference hsuper parent hparent).2

/-- A complete reference binds all parameters of the type that it names. -/
theorem Complete.get?_ne_none {reference : Descriptor} (h : t.Complete reference) {parent : TypeId}
    (hparent : reference.typeId? = some parent) {v : TypeVar} (hv : v ∈ t.paramsOf parent) :
    (t.referenceBindings reference).get? v ≠ none := by
  obtain ⟨d, hfind, hparam⟩ := exists_of_mem_paramsOf hv
  have hlength : d.typeParams.length ≤ reference.arguments.length := paramsOf_eq hfind ▸ h parent hparent
  cases reference with
  | parameterized raw args =>
    rw [Descriptor.typeId?] at hparent
    rw [Descriptor.arguments] at hlength
    have hzip : v ∈ (d.typeParams.zip args).map (·.1) := by rwa [List.map_fst_zip hlength]
    rw [referenceBindings, hparent, Option.bind_some, hfind, ← Option.isSome_iff_ne_none,
      Bindings.isSome_get?_insertAll, decide_eq_true hzip, Bool.or_true]
  | _ => exact absurd hlength (Nat.not_le_of_lt (List.length_pos_of_mem hparam))

/-- **With complete references** variables stand for types that mention parameters of the type at hand. -/
theorem bindings_closed (ht : t.OwnVariables) (id : TypeId) :
    (t.bindings id).Every fun _ d => t.CompleteFrom id → ∀ w ∈ d.vars, w ∈ t.paramsOf id := by
  refine every_bindingsWithin (P := fun id _ d => t.CompleteFrom id → ∀ w ∈ d.vars, w ∈ t.paramsOf id)
    (fun {id parent reference} href hparent known hknown => ?_) _ id
  refine every_seenThrough (fun entry hentry _ => ?_) fun entry hentry hcomplete w hw => ?_
  · exact (ht.referenceBindings href hparent entry hentry).2
  · have hknown := hknown entry hentry (hcomplete.step (extends_of_mem_followed href hparent))
    rcases ht.mem_vars_substitute href hparent hw with ⟨hopen, hfree⟩ | ⟨-, hparam⟩
    · exact absurd hfree ((hcomplete id .refl reference href).get?_ne_none hparent (hknown w hopen))
    · exact hparam

/-! ## The second pass -/

/--
**When substituting twice is substituting once.** In a hierarchy without cycles, whose references to supertypes mention
own type parameters only, a second pass changes nothing exactly if no variable that the type mentions stands for a type
which mentions a bound variable. That is so for all types where the references further up are complete.
-/
theorem substitute_idempotent_iff (ht : t.CycleFree) (hown : t.OwnVariables) (id : TypeId) :
    let b := (t.inheritedBindings [] id).1
    (∀ d : Descriptor, (d.substitute b).substitute b = d.substitute b ↔
      ∀ v ∈ d.vars, ∀ e, b.get? v = some e → ∀ w ∈ e.vars, b.get? w = none) ∧
    (t.CompleteFrom id → ∀ d : Descriptor, (d.substitute b).substitute b = d.substitute b) := by
  intro b
  have hb : b = t.bindings id := (inheritedBindings_eq ht t.honest_nil id).1
  have hlowered : ∀ {v e}, b.get? v = some e → t.Lowered id v e := by
    intro v e hv
    rw [hb] at hv
    exact bindings_lowered hown id (v, e) (mem_of_lookup hv)
  have hself : ∀ v bound, b.get? v ≠ some (.typeVar v bound) := by
    intro v bound hv
    exact ht v.site ((hlowered hv).2 v List.mem_cons_self)
  have hpass : ∀ d : Descriptor, (d.substitute b).substitute b = d.substitute b ↔
      ∀ v ∈ d.vars, ∀ e, b.get? v = some e → ∀ w ∈ e.vars, b.get? w = none := by
    intro d
    rw [Descriptor.substitute_eq_self_iff hself, Descriptor.vars_substitute]
    refine ⟨fun h v hv e he w hw => h w (List.mem_flatMap.mpr ⟨v, hv, by rwa [he]⟩), fun h w hw => ?_⟩
    obtain ⟨v, hv, hw⟩ := List.mem_flatMap.mp hw
    cases he : b.get? v with
    | none =>
      rw [he] at hw
      rwa [List.mem_singleton.mp hw]
    | some e =>
      rw [he] at hw
      exact h v hv e he w hw
  refine ⟨hpass, fun hcomplete d => (hpass d).mpr fun v hv e he w hw => ?_⟩
  -- what is mentioned are parameters of the type itself, and only parameters of types above it are bound
  cases hw' : b.get? w with
  | none => rfl
  | some e' =>
    have hparam : w ∈ t.paramsOf id := by
      rw [hb] at he
      exact bindings_closed hown id (v, e) (mem_of_lookup he) hcomplete w hw
    have habove := (hlowered hw').1
    rw [hown.site_of_mem hparam] at habove
    exact absurd habove (ht id)

/-- An interface on top of another, one that fixes the parameters of both, and a class that refers to the lower one
without arguments before it refers to the one that fixes them. -/
def rawPath : TypeTable :=
  let source : TypeSpec := { name := "demo.Source", kind := .ofInterface, typeParams := ["E"] }
  let list : TypeSpec :=
    { name := "demo.List", kind := .ofInterface, typeParams := ["T"]
      interfaces := [.parameterized (.interface "demo.Source" false) [StandardType.var "demo.List" "T"]] }
  let names : TypeSpec :=
    { name := "demo.Names", kind := .ofInterface
      interfaces := [.parameterized (.interface "demo.List" false) [.string]] }
  let mixed : TypeSpec :=
    { name := "demo.Mixed", kind := .ofClass
      interfaces := [.interface "demo.List" false, .interface "demo.Names" false] }
  ([source, list, names, mixed].foldl Store.declare (.standard {} false)).types

/-- Seen from the interface that fixes the parameters, one pass is enough. Seen from the class, the first pass turns `E`
into `T`, and the second one turns that into a string. -/
theorem substitute_idempotent_iff_rawPath :
    rawPath.CycleFree ∧ rawPath.OwnVariables ∧ rawPath.CompleteFrom (.ofName "demo.Names") ∧
    (let b := (rawPath.inheritedBindings [] (.ofName "demo.Names")).1
      ∀ d : Descriptor, (d.substitute b).substitute b = d.substitute b) ∧
    (let b := (rawPath.inheritedBindings [] (.ofName "demo.Mixed")).1
      let e := StandardType.var "demo.Source" "E"
      (e.substitute b).substitute b ≠ e.substitute b) := by
  have hcycles : rawPath.CycleFree := cycleFree_of_entries (by decide +kernel)
  have hown : rawPath.OwnVariables := ownVariables_of_entries (by decide +kernel)
  have hcomplete : rawPath.CompleteFrom (.ofName "demo.Names") :=
    completeFrom_of_closed [.ofName "demo.Names", .ofName "demo.List", .ofName "demo.Source"]
      (by decide +kernel) List.mem_cons_self
  refine ⟨hcycles, hown, hcomplete, (substitute_idempotent_iff hcycles hown _).2 hcomplete, fun hagain => ?_⟩
  have hopen := ((substitute_idempotent_iff hcycles hown (.ofName "demo.Mixed")).1 _).mp hagain
  have hsource : ((rawPath.inheritedBindings [] (.ofName "demo.Mixed")).1.get? (.mk (.ofName "demo.Source") "E")).map
      Descriptor.vars = some [.mk (.ofName "demo.List") "T"] := by decide +kernel
  have hbound : ((rawPath.inheritedBindings [] (.ofName "demo.Mixed")).1.get? (.mk (.ofName "demo.List") "T")).isSome
      = true := by decide +kernel
  obtain ⟨e, he, hvars⟩ := Option.map_eq_some_iff.mp hsource
  have hfree := hopen _ List.mem_cons_self e he (.mk (.ofName "demo.List") "T") (hvars ▸ List.mem_cons_self)
  rw [hfree] at hbound
  cases hbound

end TypeTable

end Interop
