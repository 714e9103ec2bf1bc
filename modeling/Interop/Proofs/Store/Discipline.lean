import Interop.Proofs.Store.AdapterCache
import Interop.Proofs.Store.Evaluation
import Interop.Proxy.Wrap

/-!
# What computations do to a store

Apart from looking up members, computations change a store in few ways: they make objects, change what containers and
records hold, note what they have looked up, recorded and remembered, and let adapters go. `Store.Step` says what these
changes are, and `Store.Change` which of them computations make on their own: no object changes its kind, adapters are
kept under the script values that they adapt, and proxies take note of members that were looked up. A `Discipline` is an
invariant that survives each such change and every look-up, together with the ways in which a computation may stop; a
computation follows it when it keeps the invariant and stops in no other way. A `Regime` asks less: its invariant may be
broken by changing a list, so that it can say that lists stay as they are. What never changes a list follows it too.

* **`Store.Step`**, **`Store.Change`**, **`Store.LeavesLists`**: one change.
* **`Regime`**, **`Discipline`**, **`Eval.Follows`**: invariants and the computations that keep them.
* **`Eval.Follows.bind`**, **`get_bind`**, **`attempt`**, **`holding`**, **`mapM`**: following is closed under the ways
  in which computations are put together.
-/

namespace Interop

/-! ## Changes -/

/-- The same object with other content: class and element types stay. -/
inductive NativeObject.Updates : NativeObject → NativeObject → Prop where
  | array (a : NativeArray) (elements : List Native) : Updates (.array a) (.array { a with elements := elements })
  | list (l : NativeList) (elements : List Native) : Updates (.list l) (.list { l with elements := elements })
  | map (m : NativeMap) (order : List Native) (table : List (Native × Native)) :
    Updates (.map m) (.map { m with order := order, table := table })
  | record (typeName : String) (display : Option String) (before after : List (String × Native)) :
    Updates (.record typeName display before) (.record typeName display after)

/-- A new object is found under its own number. -/
theorem Store.native_addNative (s : Store) (o : NativeObject) : (s.addNative o).2.native (s.addNative o).1 = o := by
  simp [addNative, native]

/-- An object that is not the record that stands in for missing objects is there. -/
theorem Store.index_lt_of_native {s : Store} {r : NativeRef} (h : s.native r ≠ .record Standard.objectName none []) :
    r.index < s.natives.size := by
  refine Nat.lt_of_not_le fun hle => h ?_
  rw [native, Array.getD_eq_getD_getElem?, Array.getElem?_eq_none hle]
  rfl

/-- What is set in its place is there. -/
theorem Store.native_setNative {s : Store} {r : NativeRef} (h : s.native r ≠ .record Standard.objectName none [])
    (o : NativeObject) : (s.setNative r o).native r = o := by
  simp [native, setNative, index_lt_of_native h]

/-- A new proxy is the last object, and has not looked up its members. -/
theorem Store.object_addProxy (s : Store) (kind : ProxyKind) (v : Native) (type : Descriptor) :
    (s.addProxy kind v type).2.object ⟨s.objects.size⟩ = .proxy ⟨kind, v, type, none⟩ := by
  simp [addProxy, addObject, object, Array.getD_eq_getD_getElem?]

/-- Where an object is put, every number has what it had or the object that was put. -/
theorem Store.object_set (s : Store) (changed r : ObjectRef) (o : ScriptObject) :
    (s.setObject changed o).object r = s.object r ∨ (changed = r ∧ (s.setObject changed o).object r = o) := by
  simp only [object, setObject, Array.getD_eq_getD_getElem?, Array.getElem?_setIfInBounds]
  split
  · next heq =>
    have hsame : changed = r := congrArg ObjectRef.mk heq
    split
    · exact .inr ⟨hsame, rfl⟩
    · next hle =>
      rw [Array.getElem?_eq_none (by omega)]
      exact .inl rfl
  · exact .inl rfl

/-- The kind of proxy that a native value gets. -/
def Store.proxyKind (s : Store) : Native → ProxyKind
  | .object r =>
    match s.native r with
    | .array _ => .ofArray
    | .list _ => .ofList
    | .map _ => .ofMap
    | .classRef _ => .ofClass
    | _ => .ofInstance
  | _ => .ofInstance

def ScriptObject.isProxy : ScriptObject → Bool
  | proxy _ => true
  | _ => false

/-- The storage of no final field. -/
def TypeTable.LeavesOpen (t : TypeTable) (r : CellRef) : Prop :=
  ∀ id d, t.find? id = some d → ∀ f ∈ d.fields, f.flags.isFinal = true → f.storage ≠ some (.cell r)

/-- One change of a store, other than by looking up members. -/
inductive Store.Step : Store → Store → Prop where
  | addNative (s : Store) (o : NativeObject) : Step s (s.addNative o).2
  | setNative {s : Store} {r : NativeRef} {o : NativeObject} (h : (s.native r).Updates o) : Step s (s.setNative r o)
  | addProxy (s : Store) (v : Native) (type : Descriptor) : Step s (s.addProxy (s.proxyKind v) v type).2
  | setMembers {s : Store} {r : ObjectRef} {p : Proxy} (h : s.object r = .proxy p) (m : Membership) :
    Step s (s.setObject r (.proxy { p with members := some m }))
  | addObject {s : Store} {o : ScriptObject} (h : o.isProxy = false) : Step s (s.addObject o).2
  | setObject {s : Store} {r : ObjectRef} {o : ScriptObject} (hr : (s.object r).isProxy = false)
    (h : o.isProxy = false) : Step s (s.setObject r o)
  | addFunction (s : Store) (f : ScriptFunction) : Step s (s.addFunction f).2
  | setCell {s : Store} {r : CellRef} (h : s.types.LeavesOpen r) (v : Native) : Step s (s.setCell r v)
  | calls (s : Store) (calls : List CallRecord) : Step s { s with calls := calls }
  | inUse (s : Store) (inUse : List Referent) : Step s { s with inUse := inUse }
  | memos (s : Store) (memos : List (SetKey × Memo)) : Step s { s with memos := memos }
  | nextSet (s : Store) (n : Nat) : Step s { s with nextSet := n }
  | referred (s : Store) (referred : List NativeRef) : Step s { s with referred := referred }
  | releaseAdapters (s : Store) : Step s s.releaseAdapters
  /-- An adapter is kept under the script value and the interface whose members it was given. -/
  | keepAdapter {s : Store} {r : NativeRef} {target : Script} {interface : Descriptor} {m : Membership} {id : TypeId}
    {flag : Bool} {key : Option AdapterKey} (hr : s.native r = .adapter target interface m key)
    (hm : s.memberCache.find? id flag = some m) (identity : Identity) :
    Step s { s with adapters := putEntry (identity, id) r s.adapters }

/-- Without a look-up the types and the collected members stay as they are. -/
theorem Store.Step.types_memberCache_eq {s s' : Store} (h : s.Step s') :
    s'.types = s.types ∧ s'.memberCache = s.memberCache := by
  cases h with
  | releaseAdapters =>
    obtain ⟨adapters, referred, heq, -⟩ := s.releaseAdapters_frame
    rw [heq]
    exact ⟨rfl, rfl⟩
  | _ => exact ⟨rfl, rfl⟩

/-- Objects are still there, and each is of the kind that it was. -/
structure Store.KeepsKinds (s s' : Store) : Prop where
  size : s.objects.size ≤ s'.objects.size
  kind : ∀ r : ObjectRef, r.index < s.objects.size → (s'.object r).kindOf = (s.object r).kindOf

namespace Store.KeepsKinds

theorem refl (s : Store) : s.KeepsKinds s := ⟨Nat.le_refl _, fun _ _ => rfl⟩

theorem trans {s₁ s₂ s₃ : Store} (h : s₁.KeepsKinds s₂) (h' : s₂.KeepsKinds s₃) : s₁.KeepsKinds s₃ :=
  ⟨Nat.le_trans h.size h'.size, fun r hr => (h'.kind r (Nat.lt_of_lt_of_le hr h.size)).trans (h.kind r hr)⟩

/-- Where no script object changes, no kind does. -/
theorem of_objects_eq {s s' : Store} (h : s'.objects = s.objects) : s.KeepsKinds s' :=
  ⟨Nat.le_of_eq (congrArg Array.size h).symm, fun r _ => by rw [object, object, h]⟩

/-- A new object leaves those before it alone. -/
theorem addObject (s : Store) (o : ScriptObject) : s.KeepsKinds (s.addObject o).2 := by
  refine ⟨by simp [Store.addObject], fun r hr => ?_⟩
  have hne : r.index ≠ s.objects.size := Nat.ne_of_lt hr
  simp [Store.addObject, object, Array.getElem?_push, hne]

/-- An object with other content is of the kind that it was. -/
theorem setObject {s : Store} {changed : ObjectRef} {o : ScriptObject} (ho : o.kindOf = (s.object changed).kindOf) :
    s.KeepsKinds (s.setObject changed o) := by
  refine ⟨by simp [Store.setObject], fun r _ => ?_⟩
  rcases s.object_set changed r o with hsame | ⟨rfl, hset⟩
  · rw [hsame]
  · rw [hset, ho]

end Store.KeepsKinds

/-- Adapters that are kept from now on are kept under the identity of the script value that they adapt. -/
def Store.NamesAdapters (s s' : Store) : Prop :=
  ∀ kept ∈ s'.adapters, kept ∈ s.adapters ∨ ∃ target interface m key,
    s'.native kept.2 = .adapter target interface m key ∧ target.identity? = some kept.1.1

/-- Entries that are left name the adapters that they named. -/
theorem Store.NamesAdapters.of_subset {s s' : Store} (h : s'.adapters ⊆ s.adapters) : s.NamesAdapters s' :=
  fun _ hkept => .inl (h hkept)

/-- Members that a proxy has noted from now on are those that it had noted before, or members that are kept. -/
def Store.NotesKept (s s' : Store) : Prop :=
  ∀ r p m, s'.object r = .proxy p → p.members = some m →
    (∃ before, s.object r = .proxy before ∧ before.members = some m) ∨ ∃ id flag, s.memberCache.find? id flag = some m

namespace Store.NotesKept

/-- Where no script object changes, no noted members do. -/
theorem of_objects_eq {s s' : Store} (h : s'.objects = s.objects) : s.NotesKept s' := by
  intro r p m hp hm
  rw [object, h] at hp
  exact .inl ⟨p, hp, hm⟩

/-- A new object has no members noted. -/
theorem addObject (s : Store) {o : ScriptObject} (ho : ∀ p, o = .proxy p → p.members = none) :
    s.NotesKept (s.addObject o).2 := by
  intro r p m hp hm
  by_cases hr : r.index = s.objects.size
  · simp only [object, Store.addObject, hr, Array.getD_eq_getD_getElem?, Array.getElem?_push_size,
      Option.getD_some] at hp
    rw [ho p hp] at hm
    cases hm
  · simp only [object, Store.addObject, Array.getD_eq_getD_getElem?, Array.getElem?_push, if_neg hr] at hp
    rw [← Array.getD_eq_getD_getElem?] at hp
    exact .inl ⟨p, hp, hm⟩

/-- An object that is put in the place of another one has no members noted that were not collected. -/
theorem setObject {s : Store} (changed : ObjectRef) {o : ScriptObject}
    (ho : ∀ p m, o = .proxy p → p.members = some m → ∃ id flag, s.memberCache.find? id flag = some m) :
    s.NotesKept (s.setObject changed o) := by
  intro r p m hp hm
  rcases s.object_set changed r o with hsame | ⟨-, hset⟩
  · exact .inl ⟨p, hsame.symm.trans hp, hm⟩
  · exact .inr (ho p m (hset.symm.trans hp) hm)

end Store.NotesKept

/-- A change that keeps the kinds of objects and adapters under what they adapt; proxies note what is kept. -/
structure Store.Change (s s' : Store) : Prop where
  step : s.Step s'
  kinds : s.KeepsKinds s'
  adapters : s.NamesAdapters s'
  notes : s.NotesKept s'

namespace Store.Change

/-- To make a native object is a change. -/
theorem addNative (s : Store) (o : NativeObject) : s.Change (s.addNative o).2 :=
  ⟨.addNative s o, .of_objects_eq rfl, .of_subset (List.Subset.refl _), .of_objects_eq rfl⟩

/-- To write to a container or a record is a change. -/
theorem setNative {s : Store} {r : NativeRef} {o : NativeObject} (h : (s.native r).Updates o) :
    s.Change (s.setNative r o) :=
  ⟨.setNative h, .of_objects_eq rfl, .of_subset (List.Subset.refl _), .of_objects_eq rfl⟩

/-- To make a proxy is a change. -/
theorem addProxy (s : Store) (v : Native) (type : Descriptor) : s.Change (s.addProxy (s.proxyKind v) v type).2 := by
  refine ⟨.addProxy s v type, .addObject s _, .of_subset (List.Subset.refl _), .addObject s ?_⟩
  rintro _ ⟨⟩
  rfl

/-- A proxy that notes members which have been collected is a change. -/
theorem setMembers {s : Store} {r : ObjectRef} {p : Proxy} (h : s.object r = .proxy p) {m : Membership} {id : TypeId}
    {flag : Bool} (hm : s.memberCache.find? id flag = some m) :
    s.Change (s.setObject r (.proxy { p with members := some m })) := by
  refine ⟨.setMembers h m, .setObject ?_, .of_subset (List.Subset.refl _), .setObject r ?_⟩
  · rw [h]
    rfl
  · rintro _ _ ⟨⟩ ⟨⟩
    exact ⟨id, flag, hm⟩

/-- To make a script object that is no proxy is a change. -/
theorem addObject (s : Store) {o : ScriptObject} (ho : o.isProxy = false) : s.Change (s.addObject o).2 := by
  refine ⟨.addObject ho, .addObject s o, .of_subset (List.Subset.refl _), .addObject s ?_⟩
  rintro p rfl
  cases ho

/-- To write to a script object is a change, if it keeps its kind and neither was nor becomes a proxy. -/
theorem setObject {s : Store} {r : ObjectRef} {o : ScriptObject} (hr : (s.object r).isProxy = false)
    (ho : o.isProxy = false) (hkind : o.kindOf = (s.object r).kindOf) : s.Change (s.setObject r o) := by
  refine ⟨.setObject hr ho, .setObject hkind, .of_subset (List.Subset.refl _), .setObject r ?_⟩
  rintro p _ rfl
  cases ho

theorem addFunction (s : Store) (f : ScriptFunction) : s.Change (s.addFunction f).2 :=
  ⟨.addFunction s f, .of_objects_eq rfl, .of_subset (List.Subset.refl _), .of_objects_eq rfl⟩

theorem calls (s : Store) (calls : List CallRecord) : s.Change { s with calls := calls } :=
  ⟨.calls s calls, .of_objects_eq rfl, .of_subset (List.Subset.refl _), .of_objects_eq rfl⟩

theorem inUse (s : Store) (inUse : List Referent) : s.Change { s with inUse := inUse } :=
  ⟨.inUse s inUse, .of_objects_eq rfl, .of_subset (List.Subset.refl _), .of_objects_eq rfl⟩

theorem memos (s : Store) (memos : List (SetKey × Memo)) : s.Change { s with memos := memos } :=
  ⟨.memos s memos, .of_objects_eq rfl, .of_subset (List.Subset.refl _), .of_objects_eq rfl⟩

theorem referred (s : Store) (referred : List NativeRef) : s.Change { s with referred := referred } :=
  ⟨.referred s referred, .of_objects_eq rfl, .of_subset (List.Subset.refl _), .of_objects_eq rfl⟩

/-- To let adapters go that nobody refers to is a change. -/
theorem releaseAdapters (s : Store) : s.Change s.releaseAdapters := by
  have hstep := Step.releaseAdapters s
  obtain ⟨adapters, referred, heq, hfewer⟩ := s.releaseAdapters_frame
  rw [heq] at hstep ⊢
  exact ⟨hstep, .of_objects_eq rfl, .of_subset hfewer.subset, .of_objects_eq rfl⟩

/-- To keep an adapter for its target is a change, if it is one. -/
theorem keepAdapter {s : Store} {r : NativeRef} {target : Script} {interface : Descriptor} {m : Membership}
    {id : TypeId} {flag : Bool} {key : Option AdapterKey} (hr : s.native r = .adapter target interface m key)
    (hm : s.memberCache.find? id flag = some m) {identity : Identity} (hidentity : target.identity? = some identity) :
    s.Change { s with adapters := putEntry (identity, id) r s.adapters } := by
  refine ⟨.keepAdapter hr hm identity, .of_objects_eq rfl, fun kept hkept => ?_, .of_objects_eq rfl⟩
  rcases mem_putEntry hkept with hold | rfl
  · exact .inl hold
  · exact .inr ⟨target, interface, m, key, hr, hidentity⟩

end Store.Change

/-- Objects are never given up. -/
theorem Store.Step.size_natives_le {s s' : Store} (h : s.Step s') : s.natives.size ≤ s'.natives.size := by
  cases h with
  | addNative o => simp [Store.addNative]
  | setNative => simp [Store.setNative]
  | releaseAdapters => exact Nat.le_of_eq (congrArg Array.size s.natives_releaseAdapters.symm)
  | _ => exact Nat.le_refl _

/-- Lists hold the elements that they held. -/
def Store.LeavesLists (s s' : Store) : Prop := ∀ r l, s.native r = .list l → s'.native r = .list l

namespace Store.LeavesLists

theorem refl (s : Store) : s.LeavesLists s := fun _ _ h => h

theorem trans {s₁ s₂ s₃ : Store} (h : s₁.LeavesLists s₂) (h' : s₂.LeavesLists s₃) : s₁.LeavesLists s₃ :=
  fun r l hl => h' r l (h r l hl)

/-- Where no native object changes, no list does. -/
theorem of_natives_eq {s s' : Store} (h : s'.natives = s.natives) : s.LeavesLists s' := by
  intro r l hl
  rw [native, h]
  exact hl

/-- A new object leaves those before it alone. -/
theorem addNative (s : Store) (o : NativeObject) : s.LeavesLists (s.addNative o).2 := by
  intro r l hl
  have hne : r.index ≠ s.natives.size := by
    intro heq
    rw [native, heq] at hl
    simp at hl
  simp only [native, Store.addNative, Array.getD_eq_getD_getElem?, Array.getElem?_push, if_neg hne]
  rw [← Array.getD_eq_getD_getElem?]
  exact hl

/-- An object that is no list may get other content. -/
theorem setNative {s : Store} {changed : NativeRef} (h : ∀ l, s.native changed ≠ .list l) (o : NativeObject) :
    s.LeavesLists (s.setNative changed o) := by
  intro r l hl
  have hne : changed.index ≠ r.index := by
    intro heq
    have hsame : changed = r := congrArg NativeRef.mk heq
    exact h l (hsame ▸ hl)
  simp only [native, Store.setNative, Array.getD_eq_getD_getElem?, Array.getElem?_setIfInBounds_ne hne]
  rw [← Array.getD_eq_getD_getElem?]
  exact hl

end Store.LeavesLists

/-- The store after members have been looked up. -/
def Store.lookedUp (s : Store) (id : TypeId) (declared : Option TypeId) (includeNonPublic : Bool) : Store :=
  { s with memberCache := (s.memberCache.lookup s.types id declared includeNonPublic).2 }

/-! ## Disciplines -/

/-- An invariant that every look-up keeps, and every change that leaves lists as they are, and the stops that may
happen. -/
structure Regime where
  holds : Store → Prop
  allows : Stop → Prop
  change : ∀ {s s' : Store}, s.Change s' → s.LeavesLists s' → holds s → holds s'
  lookedUp : ∀ {s : Store} (id : TypeId) (declared : Option TypeId) (flag : Bool), holds s →
    holds (s.lookedUp id declared flag)
  failed : ∀ failure, allows (.failed failure)
  diverged : allows .diverged
  lookup : ∀ {s : Store} {id : TypeId} {declared : Option TypeId} {flag : Bool} {stop : Stop}, holds s →
    (s.memberCache.lookup s.types id declared flag).1 = .error stop → allows stop

/-- An invariant that the changes of computations and every look-up keep, and the stops that may happen. -/
structure Discipline extends Regime where
  step : ∀ {s s' : Store}, s.Change s' → holds s → holds s'
  change := fun hchange _ hs => step hchange hs

instance : Coe Discipline Regime := ⟨Discipline.toRegime⟩

/-- Lists may get other elements. -/
def Regime.LetsListsChange (D : Regime) : Prop :=
  ∀ {s : Store} {r : NativeRef} {l l' : NativeList}, s.native r = .list l →
    (NativeObject.list l).Updates (.list l') → D.holds s → D.holds (s.setNative r (.list l'))

/-- A discipline that holds for all natives does not care which lists are changed. -/
theorem Discipline.letsListsChange (D : Discipline) : (D : Regime).LetsListsChange :=
  fun hr hupdates hs => D.step (.setNative (hr ▸ hupdates)) hs

/-- A proxy of the kind that a value asks for may be made at any time. -/
theorem Regime.addProxy (D : Regime) {s : Store} (hs : D.holds s) (v : Native) (type : Descriptor) :
    D.holds (s.addProxy (s.proxyKind v) v type).2 :=
  D.change (.addProxy s v type) (.of_natives_eq rfl) hs

/-- An object as script code gets it is what it stands for, or a new proxy. -/
theorem Regime.wrapObject (D : Regime) {s : Store} (hs : D.holds s) (r : NativeRef) (type : Descriptor) :
    D.holds (s.wrapObject r type).2 := by
  have hproxy := D.addProxy hs (.object r)
  simp only [Store.wrapObject]
  simp only [Store.proxyKind] at hproxy
  cases hr : s.native r <;> rw [hr] at hproxy <;> first | exact hs | exact hproxy _

namespace Eval

/-- In one store, a computation leaves the invariant behind and stops as allowed. -/
def FollowsAt (D : Regime) (x : Eval α) (s : Store) : Prop :=
  D.holds (x.outcome s).2 ∧ ∀ stop, (x.outcome s).1 = .error stop → D.allows stop

/-- A computation keeps the invariant and stops as allowed. -/
def Follows (D : Regime) (x : Eval α) : Prop := ∀ s, D.holds s → x.FollowsAt D s

variable {D : Regime}

/-- What the first part gave, and the store it left, can be relied on in the second one. -/
theorem FollowsAt.bind {x : Eval α} {f : α → Eval β} {s : Store} (hx : x.FollowsAt D s)
    (hf : ∀ a s₁, x.outcome s = (.ok a, s₁) → D.holds s₁ → (f a).FollowsAt D s₁) : (x >>= f).FollowsAt D s := by
  obtain ⟨hs₁, hstop⟩ := hx
  rcases hrun : x.outcome s with ⟨stop | a, s₁⟩ <;> rw [hrun] at hs₁ hstop
  · rw [FollowsAt, outcome_bind_of_error hrun]
    refine ⟨hs₁, fun stop' heq => ?_⟩
    cases heq
    exact hstop stop rfl
  · rw [FollowsAt, outcome_bind_of_ok hrun]
    exact hf a s₁ hrun hs₁

theorem FollowsAt.get_bind {f : Store → Eval α} {s : Store} (hf : (f s).FollowsAt D s) :
    (get >>= f : Eval α).FollowsAt D s := hf

/-- A computation that is tried keeps what it keeps when it is not, since it stops in no other ways. -/
theorem FollowsAt.attempt {x : Eval α} {s : Store} (hx : x.FollowsAt D s) : (Eval.attempt x).FollowsAt D s := by
  obtain ⟨hs₁, hstop⟩ := hx
  rw [FollowsAt, outcome_attempt]
  rcases hrun : x.outcome s with ⟨(failure | name | _) | a, s₁⟩ <;> rw [hrun] at hs₁ hstop <;> refine ⟨hs₁, ?_⟩
  · exact nofun
  · rintro _ ⟨⟩
    exact hstop _ rfl
  · rintro _ ⟨⟩
    exact hstop _ rfl
  · exact nofun

namespace Follows

/-! ## Putting computations together -/

theorem pure (a : α) : (pure a : Eval α).Follows D := fun _ hs => ⟨hs, nofun⟩

theorem stop {stop : Stop} (h : D.allows stop) : (throw stop : Eval α).Follows D := by
  intro s hs
  refine ⟨hs, fun stop' heq => ?_⟩
  cases heq
  exact h

theorem fail (failure : Failure) : (Eval.fail failure : Eval α).Follows D := stop (D.failed failure)

/-- A result that stops only in ways that are allowed. -/
theorem ofResult {result : Except Stop α} (h : ∀ stop, result = .error stop → D.allows stop) :
    (Eval.ofResult result).Follows D := by
  intro s hs
  rw [FollowsAt, outcome_ofResult]
  exact ⟨hs, h⟩

theorem ofFailure (result : Except Failure α) : (Eval.ofFailure result).Follows D := by
  cases result with
  | ok a => exact pure a
  | error failure => exact fail failure

theorem bind {x : Eval α} {f : α → Eval β} (hx : x.Follows D) (hf : ∀ a, (f a).Follows D) :
    (x >>= f).Follows D :=
  fun s hs => (hx s hs).bind fun a s₁ _ hs₁ => hf a s₁ hs₁

theorem map {x : Eval α} (hx : x.Follows D) (f : α → β) : (f <$> x).Follows D := by
  rw [← bind_pure_comp]
  exact hx.bind fun a => pure (f a)

theorem get_bind {f : Store → Eval α} (hf : ∀ s, D.holds s → (f s).FollowsAt D s) :
    (get >>= f : Eval α).Follows D := hf

/-- A computation that first reads the store follows what it follows in every store. -/
theorem read {f : Store → Eval α} (hf : ∀ s, (f s).Follows D) : (get >>= f : Eval α).Follows D :=
  get_bind fun s hs => hf s s hs

/-- A change that leaves native objects alone. -/
theorem modify {f : Store → Store} (h : ∀ s : Store, s.Change (f s)) (hnatives : ∀ s : Store, (f s).natives = s.natives) :
    (modify f : Eval PUnit).Follows D :=
  fun s hs => ⟨D.change (h s) (.of_natives_eq (hnatives s)) hs, nofun⟩

/-- A computation with a handler for its stops. -/
theorem tryCatch {x : Eval α} {handler : Stop → Eval α} (hx : x.Follows D)
    (hhandler : ∀ stop, D.allows stop → (handler stop).Follows D) : (tryCatch x handler).Follows D := by
  intro s hs
  obtain ⟨hs₁, hstop⟩ := hx s hs
  rw [FollowsAt, outcome_tryCatch]
  rcases hrun : x.outcome s with ⟨stop | a, s₁⟩ <;> rw [hrun] at hs₁ hstop
  · exact hhandler stop (hstop stop rfl) s₁ hs₁
  · exact ⟨hs₁, nofun⟩

theorem attempt {x : Eval α} (hx : x.Follows D) : (Eval.attempt x).Follows D := fun s hs => (hx s hs).attempt

/-- Values may be in use while a computation runs. -/
theorem holding (held : List Referent) {x : Eval α} (hx : x.Follows D) : (Eval.holding held x).Follows D := by
  intro s hs
  obtain ⟨hs₁, hstop⟩ := hx _ (D.change (.inUse s (held ++ s.inUse)) (.of_natives_eq rfl) hs)
  exact ⟨D.change (.inUse _ s.inUse) (.of_natives_eq rfl) hs₁, hstop⟩

/-- Elements in turn. -/
theorem mapM {f : α → Eval β} : ∀ {xs : List α}, (∀ x ∈ xs, (f x).Follows D) → (xs.mapM f).Follows D
  | [], _ => by
    rw [List.mapM_nil]
    exact pure []
  | x :: xs, h => by
    rw [List.mapM_cons]
    exact bind (h x List.mem_cons_self) fun _ =>
      bind (mapM fun y hy => h y (List.mem_cons_of_mem _ hy)) fun _ => pure _

/-! ## Primitives -/

theorem newNative (o : NativeObject) : (Eval.newNative o).Follows D :=
  fun s hs => ⟨D.change (.addNative s o) (.addNative s o) hs, nofun⟩

/-- To look members up keeps every discipline. -/
theorem membersOf (id : TypeId) (declared : Option TypeId) (includeProtected : Bool) :
    (Eval.membersOf id declared includeProtected).Follows D := by
  intro s hs
  rw [FollowsAt, outcome_membersOf]
  exact ⟨D.lookedUp id declared (includeProtected || s.config.includeNonPublic) hs, fun _ => D.lookup hs⟩

/-- To wrap a value makes a proxy at most. -/
theorem wrap (v : Native) (type : Descriptor) : (Eval.wrap v type).Follows D := by
  intro s hs
  refine ⟨?_, nofun⟩
  show D.holds (s.wrap v type).2
  have hproxy := D.addProxy hs v type
  cases v with
  | void => exact hs
  | null => exact hs
  | object r => exact D.wrapObject hs r type
  | _ =>
    simp only [Store.wrap]
    split
    · exact hs
    · exact hproxy

end Follows

end Eval

end Interop
