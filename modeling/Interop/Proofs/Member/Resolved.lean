import Interop.Proofs.Descriptor.Erasure
import Interop.Proofs.Generics.References
import Interop.Proofs.Member.Origins

/-!
# Resolved members

Where a host declares its members and supertypes in the forms that host declarations have, everything that is collected
from them is resolved: no type of a parameter, of a result or of a field mentions a variable, and collecting never
stops at one. The bindings with which types are resolved are declared types themselves, whatever the hierarchy looks
like, since they are made of the arguments of supertype references by substitution.

* **`TypeTable.inheritedBindings_declared`**: bindings are declared types.
* **`resolveType_yields`**: a declared type is resolved by them.
* **`TypeTable.collectOrAbove_yields`**: all types of an entry are resolved.
* **`MemberCache.Sound.lookup`**: so are all types of all entries that are ever looked up.
-/

namespace Interop

/-! ## Bindings along the hierarchy -/

/-- The types that a declaration mentions, those of its members and its supertypes. -/
def TypeDecl.mentioned (d : TypeDecl) : List Descriptor :=
  d.methods.flatMap (fun m => m.returnType :: m.params) ++ d.fields.map (·.type)
    ++ d.constructors.flatMap (·.params) ++ d.supertypes.map (·.2)

namespace TypeTable

/-- The host mentions declared types only. -/
def Declared (t : TypeTable) : Prop := ∀ id d, t.find? id = some d → ∀ type ∈ d.mentioned, type.isDeclared = true

/-- All remembered bindings are declared types. -/
def CacheDeclared (cache : BindingsCache) : Prop := ∀ entry ∈ cache, entry.2.Declared

/-- What is seen through a declared reference, with declared bindings behind it, is declared. -/
theorem declared_seenThrough {t : TypeTable} {reference : Descriptor} (href : reference.isDeclared = true)
    {parent : Bindings} (hparent : parent.Declared) : (t.seenThrough reference parent).Declared := by
  have hown : (t.referenceBindings reference).Declared := by
    intro entry hentry
    obtain ⟨raw, args, rfl, harg, -⟩ := mem_referenceBindings hentry
    exact (Descriptor.isDeclared_parameterized.mp href).2 entry.2 harg
  exact every_seenThrough (P := fun _ d => d.isDeclared = true) hown fun known hknown =>
    hown.substitute (hparent known hknown)

theorem declared_merge {merged contribution : Bindings} (hmerged : merged.Declared)
    (hcontribution : contribution.Declared) (isSuperclass : Bool) :
    (merge isSuperclass merged contribution).Declared :=
  every_merge (P := fun _ d => d.isDeclared = true) hmerged hcontribution isSuperclass

/-- A supertype reference of a declared table is declared. -/
theorem Declared.supertype {t : TypeTable} (ht : t.Declared) {id : TypeId} {d : TypeDecl} (hd : t.find? id = some d)
    {reference : Bool × Descriptor} (href : reference ∈ d.supertypes) : reference.2.isDeclared = true :=
  ht id d hd _ (List.mem_append_right _ (List.mem_map_of_mem href))

/-- Working out the bindings of a type keeps all bindings declared. -/
theorem inheritedWithin_declared {t : TypeTable} (ht : t.Declared) (n : Nat) :
    ∀ (visiting : List TypeId) (cache : BindingsCache) (id : TypeId), CacheDeclared cache →
      (t.inheritedWithin n visiting cache id).1.Declared ∧
        CacheDeclared (t.inheritedWithin n visiting cache id).2 := by
  induction n with
  | zero =>
    intro visiting cache id hcache
    exact ⟨Bindings.declared_empty, hcache⟩
  | succ n ih =>
    intro visiting cache id hcache
    rw [inheritedWithin]
    cases hlookup : cache.lookup id with
    | some known => exact ⟨hcache (id, known) (mem_of_lookup hlookup), hcache⟩
    | none =>
      dsimp only
      split
      · exact ⟨Bindings.declared_empty, hcache⟩
      · -- one supertype after the other, with the bindings merged so far and the cache declared
        generalize hrun : List.foldl _ (Bindings.empty, cache) _ = result
        have hresult : result.1.Declared ∧ CacheDeclared result.2 := by
          rw [← hrun]
          refine List.foldlRecOn (motive := fun state : Bindings × BindingsCache =>
            state.1.Declared ∧ CacheDeclared state.2) _ _ ⟨Bindings.declared_empty, hcache⟩ fun state hstate x hx => ?_
          have hx : x.2.isDeclared = true := by
            split at hx
            · cases hx
            · cases hfind : t.find? id with
              | none => rw [hfind] at hx; cases hx
              | some d => rw [hfind] at hx; exact ht.supertype hfind hx
          cases x.2.typeId? with
          | none => exact hstate
          | some parentId =>
            obtain ⟨hparent, hcache'⟩ := ih (id :: visiting) state.2 parentId hstate.2
            exact ⟨declared_merge hstate.1 (declared_seenThrough hx hparent) x.1, hcache'⟩
        -- the answer is kept as it was computed
        refine ⟨hresult.1, fun entry hentry => ?_⟩
        rcases List.mem_append.mp hentry with hentry | hentry
        · exact hresult.2 entry hentry
        · rw [List.mem_singleton.mp hentry]
          exact hresult.1

/-- **Bindings are declared types**, in hierarchies of any shape. -/
theorem inheritedBindings_declared {t : TypeTable} (ht : t.Declared) {cache : BindingsCache}
    (hcache : CacheDeclared cache) (id : TypeId) :
    (t.inheritedBindings cache id).1.Declared ∧ CacheDeclared (t.inheritedBindings cache id).2 :=
  inheritedWithin_declared ht _ [] cache id hcache

end TypeTable

/-- A stop elsewhere than at a type variable. -/
def Stop.NotAtVariable (stop : Stop) : Prop := ∀ name, stop ≠ .unresolvedVariable name

theorem Stop.notAtVariable_failed (failure : Failure) : (Stop.failed failure).NotAtVariable := fun _ => nofun

theorem Stop.notAtVariable_diverged : Stop.diverged.NotAtVariable := fun _ => nofun

/-! ## Types of members -/

/-- The types of the parameters and of the result. -/
def Callable.types (c : Callable) : List Descriptor := c.returnType :: c.params

def OverloadSet.types (set : OverloadSet) : List Descriptor := set.candidates.flatMap Callable.types

/-- The type of a field, and those of the methods behind it. -/
def MemberField.types (f : MemberField) : List Descriptor := f.type :: f.methods.toList.flatMap OverloadSet.types

def Property.types (p : Property) : List Descriptor :=
  (p.getter.toList ++ p.setter.toList).flatMap Callable.types ++ p.setters.toList.flatMap OverloadSet.types

def Member.types : Member → List Descriptor
  | .methods set => set.types
  | .field f => f.types
  | .property p => p.types

def MemberTable.types (t : MemberTable) : List Descriptor := t.rows.flatMap (·.2.types)

/-- The types of all parameters, results and fields of an entry. -/
def TypeMembers.types (e : TypeMembers) : List Descriptor :=
  e.instances.types ++ e.statics.types ++ e.constructors.toList.flatMap OverloadSet.types

/-- No type mentions a variable. -/
def Resolved (types : List Descriptor) : Prop := ∀ d ∈ types, d.mentionsVariables = false

namespace Resolved

/-- Types are resolved together where they are one by one. -/
theorem append {xs ys : List Descriptor} (hxs : Resolved xs) (hys : Resolved ys) : Resolved (xs ++ ys) :=
  List.forall_mem_append.mpr ⟨hxs, hys⟩

theorem flatMap_iff {types : α → List Descriptor} {xs : List α} :
    Resolved (xs.flatMap types) ↔ ∀ x ∈ xs, Resolved (types x) := List.forall_mem_flatMap

theorem toList {types : α → List Descriptor} {o : Option α} (h : ∀ x, o = some x → Resolved (types x)) :
    Resolved (o.toList.flatMap types) :=
  flatMap_iff.mpr fun x hx => h x (Option.mem_toList.mp hx)

end Resolved

/-- Members that mention no variables. -/
def Requirement.resolved : Requirement where
  callable c := Resolved c.types
  field type _ := type.mentionsVariables = false

/-- The overloads of a set that obeys the rule have resolved types alone. -/
theorem OverloadSet.Meets.resolved {set : OverloadSet} (h : set.Meets .resolved) : Resolved set.types :=
  Resolved.flatMap_iff.mpr h

theorem Member.Meets.resolved {m : Member} (h : m.Meets .resolved) : Resolved m.types := by
  cases m with
  | methods set => exact OverloadSet.Meets.resolved h
  | field f =>
    obtain ⟨htype, hmethods⟩ := h
    exact List.forall_mem_cons.mpr ⟨htype, Resolved.toList fun set hset => (hmethods set hset).resolved⟩
  | property p =>
    obtain ⟨hgetter, hsetter, hsetters⟩ := h
    refine Resolved.append (Resolved.flatMap_iff.mpr fun c hc => ?_)
      (Resolved.toList fun set hset => (hsetters set hset).resolved)
    rcases List.mem_append.mp hc with hc | hc
    · exact hgetter c (Option.mem_toList.mp hc)
    · exact hsetter c (Option.mem_toList.mp hc)

/-- No type of such members mentions a variable. -/
theorem TypeMembers.Meets.resolved {e : TypeMembers} (h : e.Meets .resolved) : Resolved e.types := by
  have htable : ∀ {t : MemberTable}, t.Meets .resolved → Resolved t.types := fun ht =>
    Resolved.flatMap_iff.mpr fun row hrow => (ht row hrow).resolved
  exact ((htable h.instances).append (htable h.statics)).append
    (Resolved.toList fun set hset => (h.constructors set hset).resolved)

/-! ## Collecting -/

/-- **Declared types are resolved by declared bindings.** -/
theorem resolveType_yields {b : Bindings} (hb : b.Declared) {d : Descriptor} (hd : d.isDeclared = true) :
    Yields Stop.NotAtVariable (resolveType b d) fun resolved => resolved.mentionsVariables = false := by
  have hresolved : (d.substitute b).eraseVariables.mentionsVariables = false :=
    Descriptor.mentionsVariables_eraseVariables _ (hb.substitute hd)
  have heq : resolveType b d = .ok (d.substitute b).eraseVariables := if_neg (by simp [hresolved])
  rw [heq]
  exact hresolved

/-- A method is resolved under declared bindings, or resolving it stops at none of its variables. -/
theorem Callable.ofMethod?_yields {b : Bindings} (hb : b.Declared) {m : MethodDecl}
    (hm : ∀ type ∈ m.returnType :: m.params, type.isDeclared = true) :
    Yields Stop.NotAtVariable (Callable.ofMethod? b m) fun made => ∀ c ∈ made.toList, Resolved c.types := by
  obtain ⟨hreturn, hparams⟩ := List.forall_mem_cons.mp hm
  unfold ofMethod?
  split
  · exact List.forall_mem_nil _
  · refine (Yields.mapM fun d hd => resolveType_yields hb (hparams d hd)).bind fun params hparams => ?_
    refine (resolveType_yields hb hreturn).bind fun returnType hreturn => ?_
    exact List.forall_mem_singleton.mpr (List.forall_mem_cons.mpr ⟨hreturn, hparams⟩)

theorem Callable.ofConstructor?_yields {b : Bindings} (hb : b.Declared) (typeName : String) {c : ConstructorDecl}
    (hc : ∀ type ∈ c.params, type.isDeclared = true) :
    Yields Stop.NotAtVariable (Callable.ofConstructor? b typeName c) fun made =>
      ∀ c ∈ made.toList, Resolved c.types := by
  unfold ofConstructor?
  split
  · exact List.forall_mem_nil _
  · refine (Yields.mapM fun d hd => resolveType_yields hb (hc d hd)).bind fun params hparams => ?_
    exact List.forall_mem_singleton.mpr (List.forall_mem_cons.mpr ⟨rfl, hparams⟩)

theorem MemberField.ofField?_yields {b : Bindings} (hb : b.Declared) {f : FieldDecl}
    (hf : f.type.isDeclared = true) :
    Yields Stop.NotAtVariable (MemberField.ofField? b f) fun made =>
      ∀ accessor ∈ made.toList, accessor.Meets .resolved := by
  unfold ofField?
  split
  · exact List.forall_mem_nil _
  · refine (resolveType_yields hb hf).bind fun type htype => ?_
    exact List.forall_mem_singleton.mpr ⟨htype, nofun⟩

namespace TypeTable

variable {t : TypeTable} {b : Bindings}

/-- The types of a declared method are declared. -/
theorem Declared.method (ht : t.Declared) {id : TypeId} {d : TypeDecl} (hd : t.find? id = some d) {m : MethodDecl}
    (hm : m ∈ d.methods) : ∀ type ∈ m.returnType :: m.params, type.isDeclared = true := by
  intro type htype
  refine ht id d hd type ?_
  simp only [TypeDecl.mentioned, List.mem_append]
  exact .inl (.inl (.inl (List.mem_flatMap.mpr ⟨m, hm, htype⟩)))

theorem Declared.field (ht : t.Declared) {id : TypeId} {d : TypeDecl} (hd : t.find? id = some d) {f : FieldDecl}
    (hf : f ∈ d.fields) : f.type.isDeclared = true := by
  refine ht id d hd _ ?_
  simp only [TypeDecl.mentioned, List.mem_append]
  exact .inl (.inl (.inr (List.mem_map_of_mem hf)))

theorem Declared.constructor (ht : t.Declared) {id : TypeId} {d : TypeDecl} (hd : t.find? id = some d)
    {c : ConstructorDecl} (hc : c ∈ d.constructors) : ∀ type ∈ c.params, type.isDeclared = true := by
  intro type htype
  refine ht id d hd type ?_
  simp only [TypeDecl.mentioned, List.mem_append]
  exact .inl (.inr (List.mem_flatMap.mpr ⟨c, hc, htype⟩))

/-- A declared table makes resolved members, whatever is collected. -/
theorem Declared.makes (ht : t.Declared) (hb : b.Declared) : t.Makes b Stop.NotAtVariable .resolved where
  failed := Stop.notAtVariable_failed
  method _ _ hd _ hm := Callable.ofMethod?_yields hb (ht.method hd hm)
  field _ _ hd _ hf := MemberField.ofField?_yields hb (ht.field hd hf)
  constructor _ _ hd _ hc typeName := Callable.ofConstructor?_yields hb typeName (ht.constructor hd hc)

/-- **Collected members are resolved.** -/
theorem collectOrAbove_yields (ht : t.Declared) (hb : b.Declared) (flag : Bool) (declared : Option TypeId)
    (id : TypeId) :
    Yields Stop.NotAtVariable (t.collectOrAbove b flag declared id) fun entry => Resolved entry.types :=
  (collectOrAbove_meets (ht.makes hb) Stop.notAtVariable_diverged flag declared id).mono fun _ hentry => hentry.resolved

end TypeTable

/-! ## Kept members -/

namespace MemberCache

/-- Everything that a cache keeps is declared or resolved. -/
structure Sound (r : MemberCache) : Prop where
  bindings : TypeTable.CacheDeclared r.bindings
  entries : ∀ kept ∈ r.entries, Resolved kept.2.entry.types

theorem sound_empty : Sound {} := ⟨List.forall_mem_nil _, List.forall_mem_nil _⟩

theorem Sound.bindingsOf {r : MemberCache} {t : TypeTable} (hr : r.Sound) (ht : t.Declared) (id : TypeId) :
    (r.bindingsOf t id).2.Sound :=
  ⟨(TypeTable.inheritedBindings_declared ht hr.bindings id).2, hr.entries⟩

theorem Sound.forget {r : MemberCache} (hr : r.Sound) (id : TypeId) : (r.forget id).Sound :=
  ⟨fun entry hentry => hr.bindings entry (List.mem_filter.mp hentry).1,
    fun kept hkept => hr.entries kept (List.mem_filter.mp hkept).1⟩

/-- **A look-up gives resolved members** or stops elsewhere than at a variable, and leaves a sound cache. -/
theorem Sound.lookup {r : MemberCache} {t : TypeTable} (hr : r.Sound) (ht : t.Declared) (id : TypeId)
    (declared : Option TypeId) (flag : Bool) :
    Yields Stop.NotAtVariable (r.lookup t id declared flag).1 (fun m => Resolved m.entry.types) ∧
      (r.lookup t id declared flag).2.Sound := by
  unfold MemberCache.lookup
  cases hfind : r.find? id flag with
  | some known => exact ⟨hr.entries ((id, flag), known) (mem_of_lookup hfind), hr⟩
  | none =>
    obtain ⟨hb, hbindings⟩ := TypeTable.inheritedBindings_declared ht hr.bindings id
    have hcollected := TypeTable.collectOrAbove_yields ht hb flag declared id
    dsimp only
    split
    · next entry hentry =>
      rw [hentry] at hcollected
      refine ⟨hcollected, hbindings, fun kept hkept => ?_⟩
      rcases List.mem_append.mp hkept with hold | hnew
      · exact hr.entries kept hold
      · rw [List.mem_singleton.mp hnew]
        exact hcollected
    · next stop hstop =>
      -- no entry is published, but the bindings stay
      rw [hstop] at hcollected
      exact ⟨hcollected, hbindings, hr.entries⟩

/-- The caches that look-ups, questions for bindings and evictions lead to, while the host may declare more and more
types. -/
inductive Reached : MemberCache → Prop where
  | empty : Reached {}
  | lookup {r : MemberCache} (h : Reached r) {t : TypeTable} (ht : t.Declared) (id : TypeId)
    (declared : Option TypeId) (flag : Bool) : Reached (r.lookup t id declared flag).2
  | bindingsOf {r : MemberCache} (h : Reached r) {t : TypeTable} (ht : t.Declared) (id : TypeId) :
    Reached (r.bindingsOf t id).2
  | forget {r : MemberCache} (h : Reached r) (id : TypeId) : Reached (r.forget id)

theorem Reached.sound {r : MemberCache} (h : Reached r) : r.Sound := by
  induction h with
  | empty => exact sound_empty
  | lookup _ ht id declared flag ih => exact (ih.lookup ht id declared flag).2
  | bindingsOf _ ht id ih => exact ih.bindingsOf ht id
  | forget _ id ih => exact ih.forget id

end MemberCache

end Interop
