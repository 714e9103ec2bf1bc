import Interop.Proofs.Coercion.Conformance
import Interop.Proofs.Store.Members

/-!
# Keys of proxies

A proxy lists keys by one path and tests them by another. The members of a type have distinct names, and a proxy which
has noted its members finds every one of them again, so that the keys of classes, instances, lists and arrays are all
there and listed once. A map shows each key by its text and tests a name by what the name is as a key; nothing makes
the one the inverse of the other. Two keys may have one text, and a text need not lead back to its key.

* **`MemberTable.distinct_build`**, **`MemberRule.distinct`**: members that are kept or noted have distinct names.
* **`noted_of_proxyMembers`**: a proxy keeps the members that it has looked up.
* **`lists_array`**, **`lists_members`**: the keys of everything but maps.
* **`hasProperty_ofMap_iff`**, **`keys_map`**: the keys of maps.
* **`objectKeys_listed`**: what listing keys gives, for every kind of proxy.
-/

namespace Interop

/-! ## Distinct names -/

namespace MemberTable

def Distinct (t : MemberTable) : Prop := t.names.Nodup

theorem distinct_insert {t : MemberTable} (ht : t.Distinct) (name : String) (m : Member) :
    (t.insert name m).Distinct := by
  refine nodup_keys_of_insertion (insertRow name m) rfl (fun first rest => ?_) ht
  rw [insertRow]
  split <;> rfl

theorem distinct_ofMethods (methods : List Callable) : (ofMethods methods).Distinct := by
  have hgroups : ((groupMethods methods).map (·.1)).Nodup := by
    refine List.foldlRecOn (b := []) (motive := fun groups => (groups.map (·.1)).Nodup) methods groupMethod
      List.nodup_nil fun groups hgroups c _ => ?_
    refine nodup_keys_of_insertion (groupMethod · c) rfl (fun first rest => ?_) hgroups
    rw [groupMethod]
    split <;> rfl
  rw [Distinct, names, ofMethods, List.map_map]
  exact hgroups

theorem distinct_addField {t : MemberTable} (ht : t.Distinct) (f : MemberField) : (t.addField f).Distinct := by
  unfold addField
  split <;> exact distinct_insert ht f.name _

/-- No name occurs twice in a table. -/
theorem distinct_build (methods : List Callable) (fields : TypeTable.NamedFields) :
    (build methods fields).Distinct := by
  refine List.foldlRecOn (motive := Distinct) _ _ ?_ fun _ ht p _ => distinct_insert ht p.name _
  exact List.foldlRecOn (motive := Distinct) fields _ (distinct_ofMethods methods) fun _ ht slot _ =>
    distinct_addField ht slot.2

end MemberTable

/-- No name occurs twice among the instance members, or among the static members. -/
structure TypeMembers.Distinct (e : TypeMembers) : Prop where
  instances : e.instances.Distinct
  statics : e.statics.Distinct

theorem TypeMembers.Distinct.table {e : TypeMembers} (h : e.Distinct) (isStatic : Bool) :
    (e.table isStatic).names.Nodup := by
  cases isStatic with
  | true => exact h.statics
  | false => exact h.instances

namespace TypeTable

variable {t : TypeTable} {b : Bindings} {flag : Bool} {e : TypeMembers}

/-- What is collected for a type has each name once. -/
theorem collectMembers_distinct {id : TypeId} (h : t.collectMembers id b flag = .ok e) : e.Distinct := by
  unfold collectMembers at h
  split at h
  · cases h
  · simp only [bind, Except.bind] at h
    repeat' split at h
    all_goals cases h
    exact ⟨MemberTable.distinct_build _ _, MemberTable.distinct_build _ _⟩

theorem collectAbove_distinct {refused : String} : ∀ {n : Nat} {id : Option TypeId},
    t.collectAbove b flag refused n id = .ok e → e.Distinct
  | 0, _, h => by cases h
  | _ + 1, none, h => by cases h
  | n + 1, some id, h => by
    rw [collectAbove] at h
    split at h
    · exact collectAbove_distinct h
    · exact collectMembers_distinct h

theorem collectOrAbove_distinct {declared : Option TypeId} {id : TypeId}
    (h : t.collectOrAbove b flag declared id = .ok e) : e.Distinct := by
  unfold collectOrAbove at h
  split at h
  · exact collectAbove_distinct h
  · exact collectMembers_distinct h

end TypeTable

/-- Whatever the types are, collected members have distinct names. -/
def MemberRule.distinct : MemberRule where
  types _ := True
  members := TypeMembers.Distinct
  collect _ := TypeTable.collectOrAbove_distinct

/-- The rule lasts, since it asks nothing of the table of types. -/
theorem MemberRule.lasts_distinct : MemberRule.distinct.Lasts where
  standard := trivial
  bare := trivial
  declare _ _ := trivial
  deny _ _ := trivial

/-! ## Noted members -/

variable {s s' : Store} {r : ObjectRef} {p : Proxy} {members : Membership}

/-- Browsing leaves a proxy as it is, or lets it take note of members for the first time. -/
theorem Store.Browses.object_proxy (h : s.Browses s') (hr : s.object r = .proxy p) :
    ∃ noted, s'.object r = .proxy { p with members := noted } ∧
      ∀ known, p.members = some known → noted = some known := by
  induction h with
  | refl => exact ⟨p.members, hr, fun _ heq => heq⟩
  | lookedUp _ _ _ _ ih => exact ih
  | @noted s₁ _ changed before hbefore hnew m _ _ _ ih =>
    obtain ⟨noted, hnoted, hkept⟩ := ih
    rcases s₁.object_set changed r (.proxy { before with members := some m }) with hsame | ⟨rfl, hset⟩
    · exact ⟨noted, hsame.trans hnoted, hkept⟩
    · rw [hbefore] at hnoted
      cases hnoted
      refine ⟨some m, hset, fun known hknown => ?_⟩
      rw [hkept known hknown] at hnew
      cases hnew

/-- Members that were noted are not looked up again. -/
theorem outcome_attempt_noted (h : p.members = some members) :
    (Eval.attempt (Eval.proxyMembers r p)).outcome s = (.ok (.ok members), s) := by
  rw [Eval.outcome_attempt, Eval.proxyMembers, h]
  rfl

/-- A proxy that has noted its members answers for them from there. -/
theorem outcome_memberBehind (h : p.members = some members) (name : String) :
    (Eval.memberBehind r p name).outcome s = (.ok (members.entry.has name false), s) := by
  rw [Eval.memberBehind, Eval.outcome_bind_of_ok (outcome_attempt_noted h)]
  rfl

/-- The keys of a proxy of members are the names in its table. -/
theorem outcome_keysOfMembers (h : (Eval.proxyMembers r p).outcome s = (.ok members, s')) (isStatic : Bool) :
    (keysOfMembers r p isStatic).outcome s = (.ok ((members.entry.table isStatic).names.map .name), s') := by
  have hattempt : (Eval.attempt (Eval.proxyMembers r p)).outcome s = (.ok (.ok members), s') := by
    rw [Eval.outcome_attempt, h]
  rw [keysOfMembers, Eval.outcome_bind_of_ok hattempt]
  rfl

/-- A name of the table that is listed is one that is found. -/
theorem TypeMembers.has_of_mem_names {e : TypeMembers} {b : Bool} {name : String} (h : name ∈ (e.table b).names) :
    e.has name b = true := by
  have hfind : ∀ t : MemberTable, name ∈ t.names → ∃ m, t.find? name = some m := by
    intro t hname
    obtain ⟨row, hrow, rfl⟩ := List.mem_map.mp hname
    cases hlookup : t.rows.lookup row.1 with
    | some m => exact ⟨m, hlookup⟩
    | none => simpa using List.lookup_eq_none_iff.mp hlookup row hrow
  obtain ⟨m, hm⟩ := hfind _ h
  cases b with
  | true =>
    have hstatic : e.statics.find? name = some m := hm
    simp [has, find?, hstatic]
  | false =>
    have hinstance : e.instances.find? name = some m := hm
    simp [has, find?, hinstance]

/-! ## Keys of everything but maps -/

/-- Keys are listed once each, and each of them is there. -/
structure Store.Lists (s : Store) (r : ObjectRef) (keys : List PropertyKey) : Prop where
  nodup : keys.Nodup
  has : ∀ key ∈ keys, (hasProperty r key).outcome s = (.ok true, s)

theorem nodup_names {e : TypeMembers} (he : e.Distinct) (isStatic : Bool) :
    ((e.table isStatic).names.map PropertyKey.name).Nodup :=
  (he.table isStatic).map fun _ _ => PropertyKey.name.inj

theorem nodup_indexKeys (length : Nat) : (indexKeys length).Nodup :=
  List.nodup_range.map fun _ _ => PropertyKey.index.inj

theorem lists_array (hr : s.object r = .proxy p) (hkind : p.kind = .ofArray) :
    ∃ keys, (objectKeys r).outcome s = (.ok keys, s) ∧ s.Lists r keys := by
  refine ⟨indexKeys (((s.array? p.value).map (·.elements.length)).getD 0), ?_, nodup_indexKeys _, fun key hkey => ?_⟩
  · rw [objectKeys, Eval.outcome_get_bind, hr]
    dsimp only
    rw [hkind]
    rfl
  · obtain ⟨i, hi, rfl⟩ := List.mem_map.mp hkey
    rw [hasProperty, Eval.outcome_get_bind, hr]
    dsimp only
    rw [hkind]
    cases ha : s.array? p.value with
    | none => simp [ha] at hi
    | some a =>
      have hlt : i < a.elements.length := by simpa [ha] using hi
      simp [hlt]

section Noted

variable (hr : s.object r = .proxy p) (hnoted : p.members = some members) (hdistinct : members.entry.Distinct)
include hr hnoted hdistinct

/-- The keys of an instance are the names of its members. -/
theorem lists_instance (hkind : p.kind = .ofInstance) :
    s.Lists r ((members.entry.table false).names.map .name) := by
  refine ⟨nodup_names hdistinct false, fun key hkey => ?_⟩
  obtain ⟨name, hname, rfl⟩ := List.mem_map.mp hkey
  rw [hasProperty, Eval.outcome_get_bind, hr]
  dsimp only
  rw [hkind]
  dsimp only
  rw [outcome_memberBehind hnoted, TypeMembers.has_of_mem_names hname]

/-- The keys of a class are the names of its static members. -/
theorem lists_class (hkind : p.kind = .ofClass) : s.Lists r ((members.entry.table true).names.map .name) := by
  refine ⟨nodup_names hdistinct true, fun key hkey => ?_⟩
  obtain ⟨name, hname, rfl⟩ := List.mem_map.mp hkey
  rw [hasProperty, Eval.outcome_get_bind, hr]
  dsimp only
  rw [hkind]
  dsimp only
  rw [Eval.outcome_bind_of_ok (outcome_attempt_noted hnoted)]
  dsimp only
  rw [TypeMembers.has_of_mem_names hname]
  rfl

/-- A list has its indices in front of the names. -/
theorem lists_list (hkind : p.kind = .ofList) :
    s.Lists r (indexKeys (((s.list? p.value).map (·.elements.length)).getD 0) ++
      (members.entry.table false).names.map .name) := by
  refine ⟨List.nodup_append.mpr ⟨nodup_indexKeys _, nodup_names hdistinct false, ?_⟩, fun key hkey => ?_⟩
  · intro index hindex name hname heq
    obtain ⟨_, -, rfl⟩ := List.mem_map.mp hindex
    obtain ⟨_, -, rfl⟩ := List.mem_map.mp hname
    cases heq
  · rw [hasProperty, Eval.outcome_get_bind, hr]
    dsimp only
    rw [hkind]
    rcases List.mem_append.mp hkey with hindex | hmember
    · obtain ⟨i, hi, rfl⟩ := List.mem_map.mp hindex
      cases hl : s.list? p.value with
      | none => simp [hl] at hi
      | some l =>
        have hlt : i < l.elements.length := by simpa [hl] using hi
        simp [hlt]
    · obtain ⟨name, hname, rfl⟩ := List.mem_map.mp hmember
      dsimp only
      split
      · rfl
      · rw [outcome_memberBehind hnoted, TypeMembers.has_of_mem_names hname]

end Noted

/-! ## Keys of maps -/

/-- Keys are added once each, so what is listed twice was listed twice before. -/
theorem nodup_addNewKeys {keys : List PropertyKey} (more : List PropertyKey) :
    (addNewKeys keys more).Nodup ↔ keys.Nodup := by
  unfold addNewKeys
  induction more generalizing keys with
  | nil => rfl
  | cons key more ih =>
    rw [List.foldl_cons, ih]
    split
    · rfl
    · next hnew =>
      rw [List.nodup_append]
      refine ⟨fun h => h.1, fun h => ⟨h, List.pairwise_singleton _ _, fun used hused new hadded heq => hnew ?_⟩⟩
      rw [← List.mem_singleton.mp hadded, ← heq]
      exact List.contains_iff_mem.mpr hused

/-- Keys that are added are the old ones and the new ones. -/
theorem mem_addNewKeys {keys more : List PropertyKey} {key : PropertyKey} :
    key ∈ addNewKeys keys more ↔ key ∈ keys ∨ key ∈ more := by
  unfold addNewKeys
  induction more generalizing keys with
  | nil => simp
  | cons new more ih =>
    rw [List.foldl_cons, ih]
    split
    · next hthere =>
      have hmem := List.contains_iff_mem.mp hthere
      grind
    · simp [or_assoc]

/-- A name as a key of the map behind a proxy is one of its keys. -/
def Store.ReadsBack (s : Store) (p : Proxy) (name : String) : Prop :=
  ∃ key m s', (Eval.keyInMap p (.name name)).outcome s = (.ok (.ok key), s') ∧ s'.map? p.value = some m ∧
    m.contains key = true

/-- The question what a name is as a key has an answer, if only that it is none. -/
def Store.Reads (s : Store) (p : Proxy) (name : String) : Prop :=
  ∃ answer s', (Eval.keyInMap p (.name name)).outcome s = (.ok answer, s')

/-- Whether a map contains what a key converts to is answered without a step. -/
theorem outcome_mapContains (p : Proxy) (answer : Except Failure Native) (s : Store) :
    ∃ found, (Eval.mapContains p answer).outcome s = (.ok found, s) ∧
      (found = true ↔ ∃ key m, answer = .ok key ∧ s.map? p.value = some m ∧ m.contains key = true) := by
  rw [Eval.mapContains, Eval.outcome_get_bind]
  split
  · next key m hm =>
    refine ⟨m.contains key, rfl, fun h => ⟨key, m, rfl, hm, h⟩, ?_⟩
    rintro ⟨_, other, ⟨⟩, hother, h⟩
    rw [hm] at hother
    cases hother
    exact h
  · next hnone =>
    refine ⟨false, rfl, nofun, ?_⟩
    rintro ⟨key, m, rfl, hm, -⟩
    exact absurd hm (hnone key m rfl)

/-- A map has what reads back to one of its keys, and the members of its type where it can be asked for them. -/
theorem hasProperty_ofMap_iff (hr : s.object r = .proxy p) (hkind : p.kind = .ofMap) (hnoted : p.members = some members)
    (name : String) :
    (∃ s', (hasProperty r (.name name)).outcome s = (.ok true, s')) ↔
      s.ReadsBack p name ∨ s.Reads p name ∧ members.entry.has name false = true := by
  have hunfold : (hasProperty r (.name name)).outcome s =
      (Eval.keyInMap p (.name name) >>= fun answer => Eval.mapContains p answer >>= fun found =>
        if found then pure true else Eval.memberBehind r p name).outcome s := by
    rw [hasProperty, Eval.outcome_get_bind, hr]
    dsimp only
    rw [hkind]
  rw [hunfold]
  -- a key that stops the conversion is neither in the map nor a member
  rcases hkey : (Eval.keyInMap p (.name name)).outcome s with ⟨stop | answer, s₁⟩
  · rw [Eval.outcome_bind_of_error hkey]
    constructor
    · rintro ⟨_, ⟨⟩⟩
    · rintro (⟨_, _, _, hread, -⟩ | ⟨⟨_, _, hread⟩, -⟩) <;> rw [hkey] at hread <;> cases hread
  · obtain ⟨found, hcontains, hfound⟩ := outcome_mapContains p answer s₁
    have hback : s.ReadsBack p name ↔ found = true := by
      rw [hfound]
      constructor
      · rintro ⟨key, m, _, hread, hm⟩
        rw [hkey] at hread
        cases hread
        exact ⟨key, m, rfl, hm⟩
      · rintro ⟨key, m, rfl, hm⟩
        exact ⟨key, m, s₁, hkey, hm⟩
    have hreads : s.Reads p name := ⟨answer, s₁, hkey⟩
    rw [Eval.outcome_bind_of_ok hkey, Eval.outcome_bind_of_ok hcontains, hback]
    cases found with
    | true => exact ⟨fun _ => .inl rfl, fun _ => ⟨s₁, rfl⟩⟩
    | false =>
      simp only [Bool.false_eq_true, if_false, false_or, hreads, true_and]
      rw [outcome_memberBehind hnoted]
      simp

/-! ## Key types that take texts -/

/-- Texts become values of such a type as they stand. -/
def TypeTable.takesTexts (t : TypeTable) (d : Descriptor) : Bool :=
  match t.targetOf d with
  | .ok .any => true
  | .ok .string => true
  | .ok .charSequence => true
  | .ok .object => true
  | _ => false

/-- To the targets that take texts a text converts as it is. -/
theorem outcome_convert_text {d : Descriptor} (hd : s.types.takesTexts d = true) (text : String) :
    (convert d (.string text)).outcome s = (.ok (.string text), s) := by
  have hunion : ∀ members, d = .union members → False := by
    rintro members rfl
    cases hd
  obtain ⟨parts, hparts⟩ := exists_convertBy hunion (.string text)
  rw [hparts, convertBy, Eval.outcome_get_bind]
  unfold TypeTable.takesTexts at hd
  split at hd
  case h_5 => cases hd
  all_goals
    next htarget =>
      rw [htarget]
      rfl

section Texts

variable {m : NativeMap} (hm : s.map? p.value = some m) (htype : s.types.takesTexts m.keyType = true)
include hm htype

/-- A name is looked for in a map as the text of it. -/
theorem outcome_keyInMap_text (text : String) :
    (Eval.keyInMap p (.name text)).outcome s = (.ok (.ok (.string text)), s) := by
  rw [Eval.keyInMap, Eval.outcome_get_bind, hm]
  show (Eval.attempt (convert m.keyType (.string text))).outcome s = _
  rw [Eval.outcome_attempt, outcome_convert_text htype]

/-- Where texts are keys as they stand, a name leads to the key that is this text and to no other. -/
theorem readsBack_text_iff (text : String) : s.ReadsBack p text ↔ m.contains (.string text) = true := by
  have hread := outcome_keyInMap_text hm htype text
  constructor
  · rintro ⟨key, found, s', hrun, hfound, hkey⟩
    rw [hread] at hrun
    cases hrun
    rw [hm] at hfound
    cases hfound
    exact hkey
  · intro hkey
    exact ⟨.string text, m, s, hread, hm, hkey⟩

end Texts

/-! ## All kinds of proxies -/

/-- The keys of the map behind a proxy, the earliest inserted first. -/
def Store.keysBehind (s : Store) (p : Proxy) : List Native := ((s.map? p.value).map (·.order)).getD []

/-- A proxy that looks up its members in a store that browsing led to keeps them there, and their names are distinct. -/
theorem noted_of_proxyMembers {s₁ : Store} (hs : s.Lived) (hr : s.object r = .proxy p) (hbrowses : s.Browses s₁)
    (hrun : (Eval.proxyMembers r p).outcome s₁ = (.ok members, s')) :
    s'.object r = .proxy { p with members := some members } ∧ members.entry.Distinct := by
  obtain ⟨noted, hobject, hkept⟩ := hbrowses.object_proxy hr
  have hobject' := object_proxyMembers hobject hkept hrun
  have hs₁ : s₁.Complies .distinct :=
    hbrowses.holds (D := Discipline.ofRule .distinct) (hs.complies MemberRule.lasts_distinct)
  have hs' : s'.Complies .distinct := by
    have hfollows := (followsAt_proxyMembers (D := .ofRule .distinct) hs₁ ⟨noted, hobject⟩).1
    rw [hrun] at hfollows
    exact hfollows
  exact ⟨hobject', hs'.noted r _ members hobject' rfl⟩

/-- All proxies but those of arrays and maps list their indices and members, each once. -/
theorem lists_members (hs : s.Lived) (hr : s.object r = .proxy p) (harray : p.kind ≠ .ofArray) (hmap : p.kind ≠ .ofMap)
    (hrun : (Eval.proxyMembers r p).outcome s = (.ok members, s')) :
    ∃ keys, (objectKeys r).outcome s = (.ok keys, s') ∧ s'.Lists r keys := by
  obtain ⟨hobject, hdistinct⟩ := noted_of_proxyMembers hs hr .refl hrun
  have hlist : s'.list? p.value = s.list? p.value := by
    have hbrowses := (Eval.browsesAt_proxyMembers hr).store
    rw [hrun] at hbrowses
    obtain ⟨objects, cache, rfl⟩ := hbrowses.exists_eq
    rfl
  rw [objectKeys, Eval.outcome_get_bind, hr]
  dsimp only
  cases hkind : p.kind with
  | ofInstance => exact ⟨_, outcome_keysOfMembers hrun false, lists_instance hobject rfl hdistinct hkind⟩
  | ofClass => exact ⟨_, outcome_keysOfMembers hrun true, lists_class hobject rfl hdistinct hkind⟩
  | ofList =>
    refine ⟨_, ?_, lists_list hobject rfl hdistinct hkind⟩
    dsimp only
    rw [Eval.outcome_bind_of_ok (outcome_keysOfMembers hrun false), hlist]
    rfl
  | ofArray => exact absurd hkind harray
  | ofMap => exact absurd hkind hmap

/-- The keys of a map are listed once each if their texts differ, and are all there if each text leads back. -/
theorem keys_map {texts : List String} {s₁ : Store} (hs : s.Lived) (hr : s.object r = .proxy p)
    (hkind : p.kind = .ofMap) (htexts : ((s.keysBehind p).mapM displayNative).outcome s = (.ok texts, s₁))
    (hrun : (Eval.proxyMembers r p).outcome s₁ = (.ok members, s')) :
    ∃ keys, (objectKeys r).outcome s = (.ok keys, s') ∧ (keys.Nodup ↔ texts.Nodup) ∧
      ((∀ key ∈ keys, ∃ s'', (hasProperty r key).outcome s' = (.ok true, s'')) ↔
        (∀ text ∈ texts, s'.ReadsBack p text ∨ s'.Reads p text ∧ members.entry.has text false = true) ∧
        ∀ name ∈ members.entry.instances.names, s'.Reads p name) := by
  have hbrowses : s.Browses s₁ := by
    have hmapM : ((s.keysBehind p).mapM displayNative).BrowsesAt s := .mapM fun v _ => browses_displayNative v
    have hstore := hmapM.store
    rw [htexts] at hstore
    exact hstore
  obtain ⟨hobject, -⟩ := noted_of_proxyMembers hs hr hbrowses hrun
  refine ⟨addNewKeys (texts.map .name) ((members.entry.table false).names.map .name), ?_, ?_, ?_⟩
  · rw [objectKeys, Eval.outcome_get_bind, hr]
    dsimp only
    rw [hkind]
    dsimp only
    rw [Store.keysBehind] at htexts
    rw [Eval.outcome_bind_of_ok htexts, Eval.outcome_bind_of_ok (outcome_keysOfMembers hrun false)]
    rfl
  · rw [nodup_addNewKeys]
    exact List.nodup_map_iff fun _ _ => PropertyKey.name.inj
  · have hhas : ∀ name, (∃ s'', (hasProperty r (.name name)).outcome s' = (.ok true, s'')) ↔
        s'.ReadsBack p name ∨ s'.Reads p name ∧ members.entry.has name false = true :=
      hasProperty_ofMap_iff (p := { p with members := some members }) hobject hkind rfl
    -- the texts of the keys come first, then the names of members that are not among them
    simp only [mem_addNewKeys, or_imp, forall_and, List.forall_mem_map, hhas]
    refine and_congr_right fun _ => forall₂_congr fun name hname => ?_
    have hmember : members.entry.has name false = true :=
      TypeMembers.has_of_mem_names (e := members.entry) (b := false) hname
    constructor
    · rintro (⟨key, _, s'', hread, -⟩ | ⟨hreads, -⟩)
      · exact ⟨.ok key, s'', hread⟩
      · exact hreads
    · exact fun hreads => .inr ⟨hreads, hmember⟩

/-- What listing the keys of a proxy gives, in any store that comes about. Arrays, lists, instances and classes list
keys that differ and that are all there. So does a map whose keys have different texts that read back to keys or name
members; no other map does. -/
theorem objectKeys_listed (hs : s.Lived) (hr : s.object r = .proxy p) :
    (p.kind = .ofArray → ∃ keys, (objectKeys r).outcome s = (.ok keys, s) ∧ s.Lists r keys) ∧
    (p.kind ≠ .ofArray → p.kind ≠ .ofMap → ∀ members s', (Eval.proxyMembers r p).outcome s = (.ok members, s') →
      ∃ keys, (objectKeys r).outcome s = (.ok keys, s') ∧ s'.Lists r keys) ∧
    (p.kind = .ofMap → ∀ texts s₁, ((s.keysBehind p).mapM displayNative).outcome s = (.ok texts, s₁) →
      ∀ members s', (Eval.proxyMembers r p).outcome s₁ = (.ok members, s') →
        ∃ keys, (objectKeys r).outcome s = (.ok keys, s') ∧ (keys.Nodup ↔ texts.Nodup) ∧
          ((∀ key ∈ keys, ∃ s'', (hasProperty r key).outcome s' = (.ok true, s'')) ↔
            (∀ text ∈ texts, s'.ReadsBack p text ∨ s'.Reads p text ∧ members.entry.has text false = true) ∧
            ∀ name ∈ members.entry.instances.names, s'.Reads p name)) :=
  ⟨lists_array hr, fun harray hmap _ _ hrun => lists_members hs hr harray hmap hrun,
    fun hkind _ _ htexts _ _ hrun => keys_map hs hr hkind htexts hrun⟩

/-- A map that host code made, with a number and its text as keys, and a proxy of it. -/
def Store.listed : Store :=
  let filled := ((Store.standard {} false).addNative
    (.map (.of .object .object [(.int 2, .null), (.string "2", .null)]))).2
  (filled.addProxy (filled.proxyKind (.object ⟨0⟩)) (.object ⟨0⟩) (.plain Standard.mapName)).2

/-- The map after script code has put another number into it. -/
def Store.counted : Store := ((Operation.putProperty 1 ⟨0⟩ (.index 1) .null).run.outcome .listed).2

/-- The registry of the example comes about by calls from a host. -/
theorem Store.lived_counted : counted.Lived := by
  have hfilled := (Lived.standard {} false).change
    (.addNative _ (.map (.of .object .object [(.int 2, .null), (.string "2", .null)])))
  have hlisted := hfilled.change (.addProxy _ (.object ⟨0⟩) (.plain Standard.mapName))
  exact hlisted.operation (.putProperty 1 ⟨0⟩ (.index 1) .null)

/-- The text `2` is listed twice, and the text `1` leads to no key. -/
theorem objectKeys_listed_counted :
    ∃ keys s', (objectKeys ⟨0⟩).outcome .counted = (.ok keys, s') ∧ ¬ keys.Nodup ∧
      ¬ ∀ key ∈ keys, ∃ s'', (hasProperty ⟨0⟩ key).outcome s' = (.ok true, s'') := by
  let p : Proxy := ⟨.ofMap, .object ⟨0⟩, .plain Standard.mapName, none⟩
  let s₁ := (((Store.counted.keysBehind p).mapM displayNative).outcome .counted).2
  let s' := ((Eval.proxyMembers ⟨0⟩ p).outcome s₁).2
  have htexts : (((Store.counted.keysBehind p).mapM displayNative).outcome .counted).1.toOption =
      some ["2", "2", "1"] := by decide +kernel
  have hmembers : (((Eval.proxyMembers ⟨0⟩ p).outcome s₁).1.toOption.map fun members =>
      members.entry.has "1" false) = some false := by decide +kernel
  have hmap : ((s'.map? p.value).map fun m => (s'.types.takesTexts m.keyType, m.contains (.string "1"))) =
      some (true, false) := by decide +kernel
  obtain ⟨members, hrun, hmember⟩ := Option.map_eq_some_iff.mp hmembers
  obtain ⟨m, hm, hpair⟩ := Option.map_eq_some_iff.mp hmap
  obtain ⟨htype, hkey⟩ := Prod.mk.inj hpair
  obtain ⟨keys, hkeys, hnodup, hreal⟩ := (objectKeys_listed (r := ⟨0⟩) (p := p) Store.lived_counted rfl).2.2 rfl
    ["2", "2", "1"] s₁ (Eval.outcome_of_toOption htexts) members s' (Eval.outcome_of_toOption hrun)
  refine ⟨keys, s', hkeys, fun h => absurd (hnodup.mp h) (by decide), fun hall => ?_⟩
  rcases (hreal.mp hall).1 "1" (by decide) with hback | ⟨-, hnamed⟩
  · rw [readsBack_text_iff hm htype, hkey] at hback
    cases hback
  · rw [hmember] at hnamed
    cases hnamed

end Interop
