import Interop.Proofs.Member.Without

/-!
# Declarations that are skipped

A declaration that is not visible, or for which the host has no handle, gives no member. Taking it away from the type
that declares it changes no member of any type either, with one exception: a visible method without a handle keeps its
key taken. Where it is the first of its key, the next visible method of that key is left out because of it, and turns
up once it is gone.

* **`added`**: the candidates that visible declarations add; `added_lag` and `added_unmasked` compare runs that differ
  in one key.
* **`kept_without`**, **`scanFields_without`**, **`scanConstructors_without`**: the scans without a skipped declaration.
* **`TypeTable.collectMembers_without`**: when a skipped declaration can be taken away.
-/

namespace Interop

-- ids are compared as they stand; unfolding one means computing a digest
attribute [local irreducible] TypeId.ofName TypeId.ofSignature

theorem exists_of_bind_eq_ok {α β : Type} {x : Except Stop α} {f : α → Except Stop β} {y : β} (h : x >>= f = .ok y) :
    ∃ a, x = .ok a ∧ f a = .ok y := by
  cases x with
  | error stop => cases h
  | ok a => exact ⟨a, rfl, h⟩

/-! ## Candidates that are added -/

section Added

variable {b : Bindings}

/-- The candidates that visible declarations add, given the keys that are taken. -/
def added (b : Bindings) : List TypeId → List MethodDecl → Except Stop (List Callable)
  | _, [] => .ok []
  | taken, m :: ms =>
    if m.overrideKey ∈ taken then added b taken ms
    else do
      let callable ← Callable.ofMethod? b m
      let rest ← added b (m.overrideKey :: taken) ms
      .ok (callable.toList ++ rest)

/-- Of the keys that are taken only those of the declarations matter, and not their order. -/
theorem added_congr {taken taken' : List TypeId} {ms : List MethodDecl}
    (h : ∀ m ∈ ms, m.overrideKey ∈ taken ↔ m.overrideKey ∈ taken') : added b taken ms = added b taken' ms := by
  induction ms generalizing taken taken' with
  | nil => rfl
  | cons m ms ih =>
    obtain ⟨hm, hms⟩ := List.forall_mem_cons.mp h
    have hcons : ∀ m' ∈ ms, m'.overrideKey ∈ m.overrideKey :: taken ↔ m'.overrideKey ∈ m.overrideKey :: taken' := by
      intro m' hm'
      rw [List.mem_cons, List.mem_cons, hms m' hm']
    rw [added, added, if_congr hm (ih hms) rfl, ih hcons]

/-- What a scan keeps of further methods is what is added of the visible ones, behind what it has kept. -/
theorem kept_foldlM {flag : Bool} (ms : List MethodDecl) (scan : TypeTable.MethodScan) :
    (ms.foldlM (TypeTable.MethodScan.add b flag) scan).map (·.kept) =
      (added b scan.seen (ms.filter (·.flags.isVisible flag))).map (scan.kept ++ ·) := by
  induction ms generalizing scan with
  | nil => simp [added, Except.map, pure, Except.pure]
  | cons m ms ih =>
    rw [List.foldlM_cons, TypeTable.MethodScan.add]
    by_cases hvisible : m.flags.isVisible flag = true
    · rw [List.filter_cons, if_pos hvisible, added]
      by_cases hseen : m.overrideKey ∈ scan.seen
      · rw [if_pos (by simp [hseen]), if_pos hseen]
        exact ih scan
      · rw [if_neg (by simp [hvisible, hseen]), if_neg hseen]
        cases Callable.ofMethod? b m with
        | error stop => rfl
        | ok made =>
          refine (ih ⟨scan.seen ++ [m.overrideKey], scan.kept ++ made.toList⟩).trans ?_
          have hsame : added b (scan.seen ++ [m.overrideKey]) (ms.filter (·.flags.isVisible flag))
              = added b (m.overrideKey :: scan.seen) (ms.filter (·.flags.isVisible flag)) :=
            added_congr fun m' _ => by rw [List.mem_append, List.mem_singleton, List.mem_cons, or_comm]
          dsimp only
          rw [hsame]
          cases added b (m.overrideKey :: scan.seen) (ms.filter (·.flags.isVisible flag)) with
          | error stop => rfl
          | ok rest => simp [Except.map, bind, Except.bind]
    · rw [List.filter_cons, if_neg hvisible, if_pos (by simp [hvisible])]
      exact ih scan

/-- What is added of two lists is what is added of the first and then of the second, where the keys of the first are
taken. -/
theorem added_append (taken : List TypeId) (first second : List MethodDecl) :
    added b taken (first ++ second) = (do
      let early ← added b taken first
      let late ← added b (taken ++ first.map (·.overrideKey)) second
      pure (early ++ late)) := by
  induction first generalizing taken with
  | nil =>
    rw [List.nil_append, List.map_nil, List.append_nil, added]
    cases added b taken second <;> rfl
  | cons m first ih =>
    rw [List.cons_append, added, added]
    split
    · next htaken =>
      -- the key is taken already, so taking it again makes no difference
      rw [ih]
      have hsame : added b (taken ++ first.map (·.overrideKey)) second
          = added b (taken ++ (m :: first).map (·.overrideKey)) second :=
        added_congr fun m' _ => by
          rw [List.map_cons, List.mem_append, List.mem_append, List.mem_cons]
          constructor
          · rintro (h | h)
            · exact .inl h
            · exact .inr (.inr h)
          · rintro (h | h | h)
            · exact .inl h
            · exact .inl (h ▸ htaken)
            · exact .inr h
      rw [hsame]
    · rw [ih]
      have hsame : added b (m.overrideKey :: taken ++ first.map (·.overrideKey)) second
          = added b (taken ++ (m :: first).map (·.overrideKey)) second :=
        added_congr fun m' _ => by simp [or_left_comm]
      rw [hsame]
      cases Callable.ofMethod? b m with
      | error stop => rfl
      | ok made =>
        cases added b (m.overrideKey :: taken) first with
        | error stop => rfl
        | ok early =>
          cases added b (taken ++ (m :: first).map (·.overrideKey)) second with
          | error stop => rfl
          | ok late => simp [bind, Except.bind, pure, Except.pure]

/-- A declaration without a handle adds nothing, but its key is taken. -/
theorem added_of_noHandle {m : MethodDecl} (hm : m.invoker = none) {taken : List TypeId} (hkey : m.overrideKey ∉ taken)
    (ms : List MethodDecl) : added b taken (m :: ms) = added b (m.overrideKey :: taken) ms := by
  rw [added, if_neg hkey, Callable.ofMethod?, hm]
  cases added b (m.overrideKey :: taken) ms <;> rfl

/-- **A key that is taken makes no difference** if its next declaration has no handle. -/
theorem added_lag {key : TypeId} {taken : List TypeId} (hkey : key ∉ taken) {ms : List MethodDecl}
    (hnext : ∀ m, ms.find? (·.overrideKey = key) = some m → m.invoker = none) :
    added b (key :: taken) ms = added b taken ms := by
  induction ms generalizing taken with
  | nil => rfl
  | cons m ms ih =>
    by_cases hm : m.overrideKey = key
    · -- from here on the key is taken in both runs
      subst hm
      have hhandle := hnext m (List.find?_cons_of_pos (decide_eq_true rfl))
      rw [added_of_noHandle hhandle hkey, added, if_pos List.mem_cons_self]
    · have hnext : ∀ m', ms.find? (·.overrideKey = key) = some m' → m'.invoker = none := by
        intro m' hm'
        exact hnext m' ((List.find?_cons_of_neg (by simpa using hm)).trans hm')
      have hiff : m.overrideKey ∈ key :: taken ↔ m.overrideKey ∈ taken := by simp [hm]
      have hswap : added b (m.overrideKey :: key :: taken) ms = added b (key :: m.overrideKey :: taken) ms :=
        added_congr fun m' _ => by simp [or_left_comm]
      have hfresh : key ∉ m.overrideKey :: taken := by simp [Ne.symm hm, hkey]
      rw [added, added, hswap, ih hkey hnext, ih hfresh hnext, if_congr hiff rfl rfl]

/-- **A key that is taken hides its next declaration** if that has a handle. -/
theorem added_unmasked {key : TypeId} {taken : List TypeId} (hkey : key ∉ taken) {ms : List MethodDecl}
    {m : MethodDecl} (hnext : ms.find? (·.overrideKey = key) = some m) (hhandle : m.invoker.isSome = true)
    {hidden shown : List Callable} (hhidden : added b (key :: taken) ms = .ok hidden)
    (hshown : added b taken ms = .ok shown) : ∃ l c r, hidden = l ++ r ∧ shown = l ++ c :: r := by
  induction ms generalizing taken hidden shown with
  | nil => cases hnext
  | cons m' ms ih =>
    by_cases hm' : m'.overrideKey = key
    · -- the next declaration of the key: passed over where the key is taken, and the one candidate more where not
      subst hm'
      obtain rfl : m' = m := by simpa using hnext
      rw [added, if_pos List.mem_cons_self] at hhidden
      rw [added, if_neg hkey, hhidden] at hshown
      obtain ⟨made, hmade, hshown⟩ := exists_of_bind_eq_ok hshown
      rcases Callable.ofMethod?_cases hmade with ⟨hnone, -⟩ | ⟨c, -, rfl, -, -⟩
      · rw [hhandle] at hnone
        cases hnone
      · exact ⟨[], c, hidden, rfl, (Except.ok.inj hshown).symm⟩
    · rw [List.find?_cons_of_neg (by simpa using hm')] at hnext
      have hiff : m'.overrideKey ∈ key :: taken ↔ m'.overrideKey ∈ taken := by simp [hm']
      rw [added, if_congr hiff rfl rfl] at hhidden
      rw [added] at hshown
      by_cases htaken : m'.overrideKey ∈ taken
      · rw [if_pos htaken] at hhidden hshown
        exact ih hkey hnext hhidden hshown
      · rw [if_neg htaken] at hhidden hshown
        -- the order in which keys were taken does not matter
        have hswap : added b (m'.overrideKey :: key :: taken) ms = added b (key :: m'.overrideKey :: taken) ms :=
          added_congr fun m' _ => by simp [or_left_comm]
        rw [hswap] at hhidden
        obtain ⟨made, hmade, hhidden⟩ := exists_of_bind_eq_ok hhidden
        obtain ⟨rest, hrest, hhidden⟩ := exists_of_bind_eq_ok hhidden
        obtain ⟨made', hmade', hshown⟩ := exists_of_bind_eq_ok hshown
        obtain ⟨rest', hrest', hshown⟩ := exists_of_bind_eq_ok hshown
        obtain rfl : made = made' := Except.ok.inj (hmade.symm.trans hmade')
        obtain ⟨l, c, r, rfl, rfl⟩ := ih (by simp [Ne.symm hm', hkey]) hnext hrest hrest'
        refine ⟨made.toList ++ l, c, r, ?_, ?_⟩
        · rw [List.append_assoc]
          exact (Except.ok.inj hhidden).symm
        · rw [List.append_assoc]
          exact (Except.ok.inj hshown).symm

/-- **A declaration without a handle can be left out** if its key was met before, or if the next declaration of its key
has no handle either. -/
theorem added_leaveOut {before after : List MethodDecl} {m : MethodDecl} (hm : m.invoker = none)
    (h : (∀ m' ∈ before, m'.overrideKey ≠ m.overrideKey) →
      ∀ m', after.find? (·.overrideKey = m.overrideKey) = some m' → m'.invoker = none) :
    added b [] (before ++ after) = added b [] (before ++ m :: after) := by
  have hsame : added b (before.map (·.overrideKey)) after = added b (before.map (·.overrideKey)) (m :: after) := by
    by_cases hkey : m.overrideKey ∈ before.map (·.overrideKey)
    · rw [added, if_pos hkey]
    · have hfirst : ∀ m' ∈ before, m'.overrideKey ≠ m.overrideKey :=
        fun m' hm' heq => hkey (heq ▸ List.mem_map_of_mem hm')
      rw [added_of_noHandle hm hkey, added_lag hkey (h hfirst)]
  rw [added_append, added_append, List.nil_append, hsame]

/-- **Otherwise one more candidate turns up.** -/
theorem added_turnsUp {before after : List MethodDecl} {m m' : MethodDecl} (hm : m.invoker = none)
    (hfirst : ∀ m' ∈ before, m'.overrideKey ≠ m.overrideKey)
    (hnext : after.find? (·.overrideKey = m.overrideKey) = some m') (hhandle : m'.invoker.isSome = true)
    {hidden shown : List Callable} (hhidden : added b [] (before ++ m :: after) = .ok hidden)
    (hshown : added b [] (before ++ after) = .ok shown) : ∃ l c r, hidden = l ++ r ∧ shown = l ++ c :: r := by
  have hkey : m.overrideKey ∉ before.map (·.overrideKey) := by
    intro hmem
    obtain ⟨m', hm', heq⟩ := List.mem_map.mp hmem
    exact hfirst m' hm' heq
  rw [added_append, List.nil_append, added_of_noHandle hm hkey] at hhidden
  rw [added_append, List.nil_append] at hshown
  obtain ⟨early, hbefore, hhidden⟩ := exists_of_bind_eq_ok hhidden
  obtain ⟨late, hafter, hhidden⟩ := exists_of_bind_eq_ok hhidden
  obtain ⟨early', hbefore', hshown⟩ := exists_of_bind_eq_ok hshown
  obtain ⟨late', hafter', hshown⟩ := exists_of_bind_eq_ok hshown
  obtain rfl : early = early' := Except.ok.inj (hbefore.symm.trans hbefore')
  obtain ⟨l, c, r, rfl, rfl⟩ := added_unmasked hkey hnext hhandle hafter hafter'
  refine ⟨early ++ l, c, r, ?_, ?_⟩
  · rw [List.append_assoc]
    exact (Except.ok.inj hhidden).symm
  · rw [List.append_assoc]
    exact (Except.ok.inj hshown).symm

end Added

/-! ## Skipped declarations -/

/-- A member that is declared, but not visible or without a handle. -/
def TypeDecl.Skips (d : TypeDecl) (includeNonPublic : Bool) : Place → Prop
  | .method i => ∃ m, d.methods[i]? = some m ∧ (m.flags.isVisible includeNonPublic = false ∨ m.invoker = none)
  | .field i => ∃ f, d.fields[i]? = some f ∧ (f.flags.isVisible includeNonPublic = false ∨ f.storage = none)
  | .constructor i =>
    ∃ c, d.constructors[i]? = some c ∧ (c.flags.isVisible includeNonPublic = false ∨ c.invoker = none)

namespace TypeTable

variable {t : TypeTable} {b : Bindings} {flag : Bool} {owner : TypeId} {place : Place}

/-- The methods that the host lists along types, up to the first type that it refuses. -/
def listedMethods (t : TypeTable) (root : TypeId) (closure : List TypeId) : List MethodDecl :=
  (t.listing (·.methods) root closure).1

/--
A visible method without a handle stands in the way of another one: it is the first of its key that is met, and the next
visible one of that key has a handle.
-/
def Masks (t : TypeTable) (id : TypeId) (flag : Bool) (owner : TypeId) : Place → Prop
  | .method i => ∃ d m pre post, t.find? owner = some d ∧ d.methods[i]? = some m ∧
      t.ancestry id = pre ++ owner :: post ∧ m.flags.isVisible flag = true ∧ m.invoker = none ∧
      (∀ m' ∈ t.listedMethods id pre ++ d.methods.take i,
        m'.flags.isVisible flag = true → m'.overrideKey ≠ m.overrideKey) ∧
      ∃ m', (d.methods.drop (i + 1) ++ t.listedMethods id post).find?
          (fun m' => m'.flags.isVisible flag && m'.overrideKey = m.overrideKey) = some m' ∧
        m'.invoker.isSome = true
  | _ => False

/-- An entry, made of what the scans for methods, fields and constructors give. -/
def entryOf (id : TypeId) (decl : TypeDecl) (kept : List Callable) (fields : FieldScan)
    (constructors : Option OverloadSet) : TypeMembers :=
  { typeId := id
    typeName := decl.name
    instances := .build (kept.filter (!·.isStatic)) fields.instances
    statics := .build (kept.filter (·.isStatic)) fields.statics
    constructors := constructors }

/-- The members of a type are made of what the three scans keep. -/
theorem collectMembers_eq (b : Bindings) (flag : Bool) {id : TypeId} {decl : TypeDecl}
    (hdecl : t.find? id = some decl) :
    t.collectMembers id b flag = (do
      let kept ← (t.scanMethods b flag id (t.ancestry id)).map (·.kept)
      let fields ← t.scanFields b flag id (t.ancestry id)
      let constructors ← t.scanConstructors b flag id decl
      pure (entryOf id decl kept fields constructors)) := by
  rw [collectMembers, hdecl]
  dsimp only
  cases t.scanMethods b flag id (t.ancestry id) <;> rfl

/-- The scan of the methods is a run through their listing, which a refusal ends. -/
theorem kept_scanMethods (t : TypeTable) (b : Bindings) (flag : Bool) (root : TypeId) (closure : List TypeId) :
    (t.scanMethods b flag root closure).map (·.kept) =
      added b [] ((t.listing (·.methods) root closure).1.filter (·.flags.isVisible flag))
        >>= orRefusal (t.listing (·.methods) root closure).2 := by
  have hkept : ((t.listing (·.methods) root closure).1.foldlM (MethodScan.add b flag) {}).map (·.kept) =
      added b [] ((t.listing (·.methods) root closure).1.filter (·.flags.isVisible flag)) := by
    rw [kept_foldlM]
    cases added b _ _ <;> rfl
  rw [scanMethods, foldlM_listing, ← hkept]
  cases (t.listing (·.methods) root closure).1.foldlM (MethodScan.add b flag) {} with
  | error stop => rfl
  | ok scan => cases (t.listing (·.methods) root closure).2 <;> rfl

/-! ## Methods -/

/-- A list without one of its places is what stands before it and what stands behind. -/
theorem eraseIdx_split {α : Type} {xs : List α} {i : Nat} {x : α} (h : xs[i]? = some x) :
    xs = xs.take i ++ x :: xs.drop (i + 1) ∧ xs.eraseIdx i = xs.take i ++ xs.drop (i + 1) := by
  obtain ⟨hi, rfl⟩ := List.getElem?_eq_some_iff.mp h
  refine ⟨?_, List.eraseIdx_eq_take_drop_succ xs i⟩
  rw [List.getElem_cons_drop, List.take_append_drop]

/-- Looking for a key among the visible methods is looking for a visible method of the key. -/
theorem find?_visible (ms : List MethodDecl) (flag : Bool) (key : TypeId) :
    (ms.filter (·.flags.isVisible flag)).find? (·.overrideKey = key) =
      ms.find? fun m => m.flags.isVisible flag && m.overrideKey = key := by
  rw [List.find?_filter]
  exact congrFun (congrArg List.find? (funext fun m => by simp)) ms

/-- **Candidates without a skipped method**, if it does not stand in the way of another one. -/
theorem kept_without {d : TypeDecl} (hd : t.find? owner = some d) (hskips : d.Skips flag place) (id : TypeId)
    (hmasks : ¬ t.Masks id flag owner place) :
    ((t.without owner place).scanMethods b flag id (t.ancestry id)).map (·.kept)
      = (t.scanMethods b flag id (t.ancestry id)).map (·.kept) := by
  rw [kept_scanMethods, kept_scanMethods]
  cases place with
  | field | constructor => rw [listing_without_of_eq fun _ => rfl]
  | method i =>
    by_cases howner : owner ∈ t.ancestry id
    · obtain ⟨pre, post, hancestry⟩ := List.append_of_mem howner
      obtain ⟨m, hm, hskip⟩ := hskips
      obtain ⟨hsplit, herase⟩ := eraseIdx_split hm
      have herase : (d.without (.method i)).methods = d.methods.take i ++ d.methods.drop (i + 1) := herase
      rcases listing_without_cases hd hsplit herase hancestry with
        ⟨-, heq⟩ | ⟨refusal, hlisting, hlisting'⟩
      · rw [heq]
      · rw [hlisting, hlisting']
        dsimp only
        generalize hbefore : (t.listing TypeDecl.methods id pre).1 ++ d.methods.take i = before
        generalize hafter : d.methods.drop (i + 1) ++ (t.listing TypeDecl.methods id post).1 = after
        rw [List.filter_append, List.filter_append, List.filter_cons]
        split
        · -- it is visible and without a handle, which matters only where a later declaration of its key has one
          next hvisible =>
          have hhandle : m.invoker = none := hskip.resolve_left (by simp [hvisible])
          rw [added_leaveOut hhandle fun hfirst m' hm' => ?_]
          by_contra hsome
          refine hmasks ⟨d, m, pre, post, hd, hm, hancestry, hvisible, hhandle, ?_, m', ?_, ?_⟩
          · exact fun m'' hm'' hvisible' => hfirst m'' (List.mem_filter.mpr ⟨hbefore ▸ hm'', hvisible'⟩)
          · rwa [find?_visible, ← hafter] at hm'
          · exact Option.isSome_iff_ne_none.mpr hsome
        · rfl
    · rw [listing_without_of_not_mem _ howner]

/-- **One more candidate without a method that stands in the way**, if nothing stops either scan. -/
theorem kept_without_of_masks {id : TypeId} (hmasks : t.Masks id flag owner place) {hidden shown : List Callable}
    (hhidden : (t.scanMethods b flag id (t.ancestry id)).map (·.kept) = .ok hidden)
    (hshown : ((t.without owner place).scanMethods b flag id (t.ancestry id)).map (·.kept) = .ok shown) :
    ∃ l c r, hidden = l ++ r ∧ shown = l ++ c :: r := by
  cases place with
  | field | constructor => cases hmasks
  | method i =>
    obtain ⟨d, m, pre, post, hd, hm, hancestry, hvisible, hhandle, hfirst, m', hnext, hhandle'⟩ := hmasks
    obtain ⟨hsplit, herase⟩ := eraseIdx_split hm
    have herase : (d.without (.method i)).methods = d.methods.take i ++ d.methods.drop (i + 1) := herase
    rw [kept_scanMethods] at hhidden hshown
    obtain ⟨hcomplete, hhidden⟩ := bind_orRefusal_eq_ok hhidden
    obtain ⟨-, hshown⟩ := bind_orRefusal_eq_ok hshown
    rcases listing_without_cases hd hsplit herase hancestry with ⟨hrefused, -⟩ | ⟨refusal, hlisting, hlisting'⟩
    · exact absurd hcomplete hrefused
    · rw [hlisting, List.filter_append, List.filter_cons, if_pos hvisible] at hhidden
      rw [hlisting', List.filter_append] at hshown
      refine added_turnsUp hhandle (fun m'' hm'' => ?_) ((find?_visible _ flag _).trans hnext) hhandle' hhidden hshown
      obtain ⟨hmem, hvisible'⟩ := List.mem_filter.mp hm''
      exact hfirst m'' hmem hvisible'

/-! ## Fields and constructors -/

/-- A declaration that a run passes over can be left out. -/
theorem foldlM_leaveOut {α σ : Type} {step : σ → α → Except Stop σ} {x : α} (hx : ∀ s, step s x = .ok s)
    (before after : List α) (s : σ) : (before ++ after).foldlM step s = (before ++ x :: after).foldlM step s := by
  rw [List.foldlM_append, List.foldlM_append]
  refine congrArg (before.foldlM step s >>= ·) (funext fun s' => ?_)
  rw [List.foldlM_cons, hx]
  rfl

/-- **Fields without a skipped declaration.** -/
theorem scanFields_without {d : TypeDecl} (hd : t.find? owner = some d) (hskips : d.Skips flag place) (id : TypeId) :
    (t.without owner place).scanFields b flag id (t.ancestry id) = t.scanFields b flag id (t.ancestry id) := by
  have hstep : FieldScan.add (t.without owner place) b flag = FieldScan.add t b flag := by
    funext scan f
    unfold FieldScan.add
    simp only [(sameHierarchy_without t owner place).addField]
  rw [scanFields, scanFields, foldlM_listing, foldlM_listing, hstep]
  cases place with
  | method | constructor => rw [listing_without_of_eq fun _ => rfl]
  | field i =>
    by_cases howner : owner ∈ t.ancestry id
    · obtain ⟨pre, post, hancestry⟩ := List.append_of_mem howner
      obtain ⟨f, hf, hskip⟩ := hskips
      obtain ⟨hsplit, herase⟩ := eraseIdx_split hf
      have herase : (d.without (.field i)).fields = d.fields.take i ++ d.fields.drop (i + 1) := herase
      rcases listing_without_cases hd hsplit herase hancestry with ⟨-, heq⟩ | ⟨refusal, hlisting, hlisting'⟩
      · rw [heq]
      · rw [hlisting, hlisting']
        dsimp only
        rw [foldlM_leaveOut fun scan => ?_]
        unfold FieldScan.add MemberField.ofField?
        rcases hskip with hskip | hskip
        · simp [hskip]
        · split
          · rfl
          · rw [hskip]
            rfl
    · rw [listing_without_of_not_mem _ howner]

/-- The constructors of a type, by those that it declares. -/
def constructorsOf (b : Bindings) (flag : Bool) (name : String) (declared : List ConstructorDecl) :
    Except Stop (List Callable) :=
  ((declared.filter (·.flags.isVisible flag)).mapM (Callable.ofConstructor? b name)).map (·.filterMap id)

/-- A constructor that is not visible or has no handle may be left out. -/
theorem constructorsOf_leaveOut {name : String} {c : ConstructorDecl}
    (hc : c.flags.isVisible flag = false ∨ c.invoker = none) (before after : List ConstructorDecl) :
    constructorsOf b flag name (before ++ after) = constructorsOf b flag name (before ++ c :: after) := by
  unfold constructorsOf
  rw [List.filter_append, List.filter_append, List.filter_cons]
  split
  · next hvisible =>
    have hhandle : c.invoker = none := hc.resolve_left (by simp [hvisible])
    have hnone : Callable.ofConstructor? b name c = .ok none := by rw [Callable.ofConstructor?, hhandle]
    rw [List.mapM_append, List.mapM_append, List.mapM_cons, hnone]
    cases (before.filter (·.flags.isVisible flag)).mapM (Callable.ofConstructor? b name) with
    | error stop => rfl
    | ok early =>
      cases (after.filter (·.flags.isVisible flag)).mapM (Callable.ofConstructor? b name) with
      | error stop => rfl
      | ok late => simp [bind, Except.bind, pure, Except.pure, Except.map]
  · rfl

/-- Only classes that can be constructed have their constructors scanned. -/
theorem scanConstructors_eq (t : TypeTable) (b : Bindings) (flag : Bool) (root : TypeId) (decl : TypeDecl) :
    t.scanConstructors b flag root decl =
      if decl.isAbstract || decl.kind == .ofEnum then .ok none
      else (do
        let declared ← t.declaredBy root root
        let found ← constructorsOf b flag decl.name ((declared.map (·.constructors)).getD [])
        pure (OverloadSet.ofMethods? decl.name found)) := by
  unfold scanConstructors constructorsOf
  split
  · rfl
  · cases t.declaredBy root root with
    | error stop => rfl
    | ok declared =>
      simp only [bind, Except.bind, pure, Except.pure]
      cases (((declared.map (·.constructors)).getD []).filter (·.flags.isVisible flag)).mapM
          (Callable.ofConstructor? b decl.name) with
      | error stop => rfl
      | ok candidates =>
        simp only [Except.map]
        cases candidates.filterMap id <;> rfl

/-- **Constructors without a skipped declaration.** -/
theorem scanConstructors_without {d : TypeDecl} (hd : t.find? owner = some d) (hskips : d.Skips flag place)
    (id : TypeId) (decl : TypeDecl) :
    (t.without owner place).scanConstructors b flag id (if id = owner then decl.without place else decl)
      = t.scanConstructors b flag id decl := by
  have hkept : (if id = owner then decl.without place else decl).name = decl.name ∧
      (if id = owner then decl.without place else decl).isAbstract = decl.isAbstract ∧
      (if id = owner then decl.without place else decl).kind = decl.kind := by
    split
    · cases place <;> exact ⟨rfl, rfl, rfl⟩
    · exact ⟨rfl, rfl, rfl⟩
  obtain ⟨hname, habstract, hkind⟩ := hkept
  rw [scanConstructors_eq, scanConstructors_eq, hname, habstract, hkind, declaredBy_without]
  cases hdeclared : t.declaredBy id id with
  | error stop => rfl
  | ok declared =>
    obtain rfl := eq_of_declaredBy hdeclared
    have hsame : constructorsOf b flag decl.name ((((t.find? id).map fun d =>
        if id = owner then d.without place else d).map (·.constructors)).getD [])
        = constructorsOf b flag decl.name (((t.find? id).map (·.constructors)).getD []) := by
      by_cases hid : id = owner
      · subst hid
        rw [hd]
        cases place with
        | method | field => simp [TypeDecl.without]
        | constructor i =>
          obtain ⟨c, hc, hskip⟩ := hskips
          obtain ⟨hsplit, herase⟩ := eraseIdx_split hc
          simp only [Option.map_some, if_true, Option.getD_some, TypeDecl.without, herase]
          rw [constructorsOf_leaveOut hskip, ← hsplit]
      · simp [hid]
    simp only [bind, Except.bind, Except.map, hsame]

/-! ## Without a skipped declaration -/

/-- The flags of a type are not among what is left out. -/
theorem entryOf_without (id : TypeId) (decl : TypeDecl) (kept : List Callable) (fields : FieldScan)
    (constructors : Option OverloadSet) :
    entryOf id (if id = owner then decl.without place else decl) kept fields constructors
      = entryOf id decl kept fields constructors := by
  unfold entryOf
  split
  · cases place <;> rfl
  · rfl

theorem ofMethods?_inj {name : String} {cs cs' : List Callable}
    (h : OverloadSet.ofMethods? name cs = OverloadSet.ofMethods? name cs') : cs = cs' := by
  cases cs <;> cases cs' <;> simp_all [OverloadSet.ofMethods?]

/-- An entry tells its candidates, name by name and kind by kind. -/
theorem filter_eq_of_entryOf_eq {id : TypeId} {decl : TypeDecl} {kept kept' : List Callable} {fields : FieldScan}
    (htidy : Tidy fields.instances ∧ Tidy fields.statics) {constructors constructors' : Option OverloadSet}
    (h : entryOf id decl kept fields constructors = entryOf id decl kept' fields constructors') (name : String)
    (isStatic : Bool) : (kept.filter fun c => c.name = name ∧ c.isStatic = isStatic)
      = kept'.filter fun c => c.name = name ∧ c.isStatic = isStatic := by
  have hoverloads : ∀ (kept : List Callable) (constructors : Option OverloadSet),
      ((entryOf id decl kept fields constructors).table isStatic).overloads? name
        = OverloadSet.ofMethods? name (kept.filter fun c => c.name = name ∧ c.isStatic = isStatic) := by
    intro kept constructors
    cases isStatic with
    | false =>
      rw [TypeMembers.table, if_neg (by decide), entryOf,
        MemberTable.overloads?_build htidy.1.nodup_names htidy.1.bare, List.filter_filter]
      exact congrArg _ (List.filter_congr fun c _ => by simp)
    | true =>
      rw [TypeMembers.table, if_pos rfl, entryOf,
        MemberTable.overloads?_build htidy.2.nodup_names htidy.2.bare, List.filter_filter]
      exact congrArg _ (List.filter_congr fun c _ => by simp)
  have hsets := (hoverloads kept constructors).symm
  rw [h, hoverloads] at hsets
  exact ofMethods?_inj hsets

/-- Entries with and without one more candidate differ. -/
theorem entryOf_ne {id : TypeId} {decl : TypeDecl} {l r : List Callable} {c : Callable} {fields : FieldScan}
    (htidy : Tidy fields.instances ∧ Tidy fields.statics) (constructors constructors' : Option OverloadSet) :
    entryOf id decl (l ++ c :: r) fields constructors ≠ entryOf id decl (l ++ r) fields constructors' := by
  intro heq
  have hlength := congrArg List.length (filter_eq_of_entryOf_eq htidy heq c.name c.isStatic)
  simp [List.filter_append] at hlength

/--
**A declaration that is skipped can be taken away** from any type, and no entry changes, unless it is a visible method
without a handle that stands in the way of another one. Then no entry stays what it is: one more candidate turns up, or
collecting stops at it.
-/
theorem collectMembers_without {d : TypeDecl} (hd : t.find? owner = some d) (hskips : d.Skips flag place) (id : TypeId)
    (b : Bindings) :
    (¬ t.Masks id flag owner place →
      (t.without owner place).collectMembers id b flag = t.collectMembers id b flag) ∧
    (t.Masks id flag owner place → ∀ entry, t.collectMembers id b flag = .ok entry →
      (t.without owner place).collectMembers id b flag ≠ .ok entry) := by
  cases hdecl : t.find? id with
  | none =>
    have hdecl' : (t.without owner place).find? id = none := by rw [find?_without, hdecl, Option.map_none]
    have hnone : t.collectMembers id b flag = .error (.failed (.unknownType id.text)) := by rw [collectMembers, hdecl]
    have hnone' : (t.without owner place).collectMembers id b flag = .error (.failed (.unknownType id.text)) := by
      rw [collectMembers, hdecl']
    rw [hnone, hnone']
    exact ⟨fun _ => rfl, fun _ entry hentry => nomatch hentry⟩
  | some decl =>
    have hdecl' : (t.without owner place).find? id = some (if id = owner then decl.without place else decl) := by
      rw [find?_without, hdecl, Option.map_some]
    rw [collectMembers_eq b flag hdecl, collectMembers_eq b flag hdecl', (sameHierarchy_without t owner place).ancestry,
      scanFields_without hd hskips, scanConstructors_without hd hskips]
    simp only [entryOf_without]
    refine ⟨fun hmasks => by rw [kept_without hd hskips id hmasks], fun hmasks entry hentry hentry' => ?_⟩
    obtain ⟨kept, hkept, hentry⟩ := exists_of_bind_eq_ok hentry
    obtain ⟨kept', hkept', hentry'⟩ := exists_of_bind_eq_ok hentry'
    obtain ⟨fields, hfields, hentry⟩ := exists_of_bind_eq_ok hentry
    obtain ⟨constructors, hconstructors, hentry⟩ := exists_of_bind_eq_ok hentry
    -- one more candidate makes another entry, whatever else the scans found
    have htidy := t.scanFields_tidy b flag id (t.ancestry id)
    rw [hfields] at hentry' htidy
    rw [hconstructors] at hentry'
    obtain ⟨l, c, r, rfl, rfl⟩ := kept_without_of_masks hmasks hkept hkept'
    have hsame : entryOf id decl (l ++ c :: r) fields constructors = entryOf id decl (l ++ r) fields constructors :=
      Except.ok.inj (hentry'.trans hentry.symm)
    exact entryOf_ne htidy constructors constructors hsame

/-- A class that can be opened, and one below it that declares the same method and a field, both without a handle. -/
def doors : TypeTable :=
  let door : TypeSpec :=
    { name := "demo.Door", kind := .ofClass, methods := [{ name := "open", code := some (.constant .void) }] }
  let locked : TypeSpec :=
    { name := "demo.Locked", kind := .ofClass, superclass := some (.plain "demo.Door")
      methods := [{ name := "open", accessible := false }]
      fields := [{ name := "open", type := .boolean, accessible := false }] }
  ([door, locked].foldl Store.declare (.standard {} false)).types

/-- The field does not stand in the way of anything, but the method does: without it the lower class can be opened. -/
theorem collectMembers_without_doors :
    ∃ d, doors.find? (.ofName "demo.Locked") = some d ∧ d.Skips false (.field 0) ∧ d.Skips false (.method 0) ∧
    doors.Masks (.ofName "demo.Locked") false (.ofName "demo.Locked") (.method 0) ∧
    (doors.without (.ofName "demo.Locked") (.field 0)).collectMembers (.ofName "demo.Locked") .empty false
      = doors.collectMembers (.ofName "demo.Locked") .empty false ∧
    ∃ entry, doors.collectMembers (.ofName "demo.Locked") .empty false = .ok entry ∧ entry.has "open" false = false ∧
      (doors.without (.ofName "demo.Locked") (.method 0)).collectMembers (.ofName "demo.Locked") .empty false
        ≠ .ok entry := by
  have hfield : ((doors.find? (.ofName "demo.Locked")).bind fun d => d.fields[0]?.map (·.storage.isNone))
      = some true := by decide +kernel
  have hmethod : ((doors.find? (.ofName "demo.Locked")).bind fun d => d.methods[0]?.map fun m =>
      (m.flags.isVisible false, m.invoker.isNone, ((d.methods.drop 1 ++
        doors.listedMethods (.ofName "demo.Locked") [.ofName "demo.Door", Standard.object]).find?
          fun m' => m'.flags.isVisible false && m'.overrideKey = m.overrideKey).map (·.invoker.isSome)))
      = some (true, true, some true) := by decide +kernel
  have hancestry : doors.ancestry (.ofName "demo.Locked")
      = [.ofName "demo.Locked", .ofName "demo.Door", Standard.object] := by decide +kernel
  have hclosed : ((doors.collectMembers (.ofName "demo.Locked") .empty false).toOption.map
      fun entry => entry.has "open" false) = some false := by decide +kernel
  obtain ⟨d, hd, hfield⟩ := Option.bind_eq_some_iff.mp hfield
  obtain ⟨f, hf, hstorage⟩ := Option.map_eq_some_iff.mp hfield
  rw [hd] at hmethod
  obtain ⟨m, hm, hfacts⟩ := Option.map_eq_some_iff.mp hmethod
  obtain ⟨hvisible, hfacts⟩ := Prod.mk.inj hfacts
  obtain ⟨hhandle, hnext⟩ := Prod.mk.inj hfacts
  obtain ⟨m', hnext, hhandle'⟩ := Option.map_eq_some_iff.mp hnext
  have hskipsField : d.Skips false (.field 0) := ⟨f, hf, .inr (Option.isNone_iff_eq_none.mp hstorage)⟩
  have hskipsMethod : d.Skips false (.method 0) := ⟨m, hm, .inr (Option.isNone_iff_eq_none.mp hhandle)⟩
  have hmasks : doors.Masks (.ofName "demo.Locked") false (.ofName "demo.Locked") (.method 0) :=
    ⟨d, m, [], _, hd, hm, hancestry, hvisible, Option.isNone_iff_eq_none.mp hhandle, List.forall_mem_nil _,
      m', hnext, hhandle'⟩
  refine ⟨d, hd, hskipsField, hskipsMethod, hmasks,
    (collectMembers_without hd hskipsField (.ofName "demo.Locked") .empty).1 id, ?_⟩
  cases hentry : doors.collectMembers (.ofName "demo.Locked") .empty false with
  | error stop =>
    rw [hentry] at hclosed
    cases hclosed
  | ok entry =>
    rw [hentry] at hclosed
    exact ⟨entry, rfl, Option.some.inj hclosed,
      (collectMembers_without hd hskipsMethod (.ofName "demo.Locked") .empty).2 hmasks entry hentry⟩

end TypeTable

end Interop
