import Interop.Proofs.Member.Shadowing

/-!
# Which properties a table makes

Accessor methods of several names make one property together (`getSize`, `isSize`, `setSize` and also `getsize`), and
they are met in the order of the table. What comes out is said here without that order, as far as it does not matter:
the last `get` method that qualifies is the getter, the first `is` method only where there is none, and all setters
are kept in order. The properties are added behind the rows of the table, each once and under a name that was free.

* **`AccessorKind.Announces`**, **`AccessorKind.accepts`**: when a method is an accessor of a property, and when it
  qualifies.
* **`AccessorGroup.getter_gather`**, **`AccessorGroup.setters_gather`**: what a run over accessors of one property
  finds.
* **`MemberTable.mem_properties_iff`**: a property is made of the accessors of its name.
* **`MemberTable.withProperties_adds`**: which properties are added, and that nothing else changes.
-/

namespace Interop

/-! ## Announcements -/

namespace AccessorKind

/-- The word that the names of accessors of a kind begin with. -/
def word : AccessorKind → List Char
  | get => ['g', 'e', 't']
  | is => ['i', 's']
  | set => ['s', 'e', 't']

/-- Whether the name of a method is that of an accessor of a property. -/
def Announces (kind : AccessorKind) (method property : String) : Prop :=
  ∃ rest, method.toList = kind.word ++ rest ∧ propertyName rest = some property.toList

/-- Whether a method qualifies: a getter takes nothing and gives something, a boolean where it asks a question; a
setter takes one argument. -/
def accepts : AccessorKind → Callable → Bool
  | get, c => c.arity == 0 && !c.returnType.isVoid
  | is, c => c.arity == 0 && c.returnType.primitiveKind? == some .boolean
  | set, c => c.arity == 1

end AccessorKind

/-- A name announces a property where it is a word and something behind it. -/
theorem accessorKind?_eq_some_iff {name rest : List Char} {kind : AccessorKind} :
    accessorKind? name = some (kind, rest) ↔ name = kind.word ++ rest := by
  constructor
  · intro h
    unfold accessorKind? at h
    split at h <;> cases h <;> rfl
  · rintro rfl
    cases kind <;> rfl

instance (kind : AccessorKind) (method property : String) : Decidable (kind.Announces method property) :=
  decidable_of_iff (kind.word <+: method.toList ∧
      propertyName (method.toList.drop kind.word.length) = some property.toList) <| by
    constructor
    · rintro ⟨⟨rest, heq⟩, hname⟩
      rw [← heq, List.drop_left] at hname
      exact ⟨rest, heq.symm, hname⟩
    · rintro ⟨rest, heq, hname⟩
      rw [heq, List.drop_left]
      exact ⟨List.prefix_append _ _, hname⟩

/-! ## Accessors of one property -/

/-- The methods of one kind, in order. -/
def ofKind (kind : AccessorKind) (met : List AccessorMethod) : List OverloadSet :=
  met.filterMap fun m => if m.kind = kind then some m.set else none

/-- The getter that overloads offer: of each name the first one that qualifies, of these the last `get` method, or
the first `is` method if there is none. -/
def preferredGetter (gets questions : List OverloadSet) : Option Callable :=
  (gets.filterMap fun set => set.candidates.find? (AccessorKind.accepts .get)).getLast?.or
    (questions.filterMap fun set => set.candidates.find? (AccessorKind.accepts .is)).head?

/-- The setters that overloads offer, in order. -/
def offeredSetters (sets : List OverloadSet) : List Callable :=
  sets.flatMap fun set => set.candidates.filter (AccessorKind.accepts .set)

/-- The setter among several that takes what the getter gives. -/
def setterFor (getter : Option Callable) (setters : List Callable) : Option Callable :=
  getter.bind fun g => setters.find? fun s => s.params.head?.any (· == g.returnType)

/-- What a property does with its accessors: it reads by the getter; it writes by the only setter, or by the one among
several that takes what the getter gives, and otherwise keeps them all in order. -/
structure Property.MadeOf (p : Property) (reader : Option Callable) (writers : List Callable) : Prop where
  reads : p.getter = reader
  readOnly : writers = [] → p.setter = none ∧ p.setters = none
  single : ∀ c, writers = [c] → p.setter = some c ∧ p.setters = none
  matching : 2 ≤ writers.length → ∀ c, setterFor reader writers = some c → p.setter = some c ∧ p.setters = none
  several : 2 ≤ writers.length → setterFor reader writers = none →
    p.setter = none ∧ ∃ name, p.setters = some ⟨name, writers⟩

namespace AccessorGroup

/-- Takes in accessors of one property, one after the other. -/
def gather (a : AccessorGroup) (met : List AccessorMethod) : AccessorGroup := met.foldl add a

theorem gather_cons (a : AccessorGroup) (m : AccessorMethod) (met : List AccessorMethod) :
    a.gather (m :: met) = (a.add m).gather met := rfl

/-- **The getter that a run finds.** A getter that is there already gives way to a `get` method only. -/
theorem getter_gather : ∀ (met : List AccessorMethod) (a : AccessorGroup),
    (a.gather met).getter =
      ((ofKind .get met).filterMap fun set => set.candidates.find? (AccessorKind.accepts .get)).getLast?.or
        (a.getter.or
          ((ofKind .is met).filterMap fun set => set.candidates.find? (AccessorKind.accepts .is)).head?)
  | [], a => by simp [gather, ofKind]
  | ⟨kind, name, set⟩ :: met, a => by
    rw [gather_cons, getter_gather met]
    cases kind with
    -- a later getter takes the place of an earlier one, so the last one counts
    | get =>
      cases hfind : set.candidates.find? (AccessorKind.accepts .get) with
      | none =>
        have hadd : (a.add ⟨.get, name, set⟩).getter = a.getter := by
          unfold add
          dsimp only
          split
          · next hsome => exact absurd (hfind.symm.trans hsome) nofun
          · rfl
        simp [hadd, ofKind, hfind]
      | some getter =>
        have hadd : (a.add ⟨.get, name, set⟩).getter = some getter := by
          unfold add
          dsimp only
          split
          · next hsome => rw [← hfind.symm.trans hsome]
          · next hnone => exact absurd (hfind.symm.trans hnone) nofun
        simp only [hadd, ofKind, List.filterMap_cons, hfind, if_pos, List.getLast?_cons]
        cases List.getLast? _ <;> rfl
    -- and of those that ask, the first, where there is no getter
    | is =>
      cases hgetter : a.getter with
      | some getter => simp [add, hgetter, ofKind]
      | none =>
        have hadd : (a.add ⟨.is, name, set⟩).getter = set.candidates.find? (AccessorKind.accepts .is) := by
          rw [add, if_neg (by simp [hgetter])]
          rfl
        rw [hadd]
        cases hfind : set.candidates.find? (AccessorKind.accepts .is) <;> simp [ofKind, hfind]
    | set => rfl

/-- **The setters that a run finds.** -/
theorem setters_gather : ∀ (met : List AccessorMethod) (a : AccessorGroup),
    (a.gather met).setters = a.setters ++ offeredSetters (ofKind .set met)
  | [], a => (List.append_nil _).symm
  | ⟨kind, name, set⟩ :: met, a => by
    rw [gather_cons, setters_gather met]
    cases kind with
    | get =>
      have hadd : (a.add ⟨.get, name, set⟩).setters = a.setters := by
        unfold add
        dsimp only
        split <;> rfl
      rw [hadd]
      rfl
    | is =>
      have hadd : (a.add ⟨.is, name, set⟩).setters = a.setters := by
        unfold add
        dsimp only
        split <;> rfl
      rw [hadd]
      rfl
    | set => exact List.append_assoc _ _ _

/-- A property is made of a getter or a setter, and of nothing less. -/
theorem toProperty?_eq_none_iff {a : AccessorGroup} {name : String} :
    a.toProperty? name = none ↔ a.getter = none ∧ a.setters = [] := by
  unfold toProperty?
  split
  · simp_all
  · simp_all
  · simp_all
  · split <;> simp_all

/-- A property is made of the getter and the setters of its group. -/
theorem madeOf_toProperty? {a : AccessorGroup} {name : String} {p : Property} (h : a.toProperty? name = some p) :
    p.MadeOf a.getter a.setters := by
  unfold toProperty? at h
  -- the arms of the definition: nothing to set, one setter, or a setter that has to match the getter
  split at h
  · cases h
  · next hnil _ =>
    cases h
    rw [hnil]
    refine ⟨rfl, fun _ => ⟨rfl, rfl⟩, ?_, ?_, ?_⟩
    all_goals simp
  · next only hsingle =>
    cases h
    rw [hsingle]
    refine ⟨rfl, ?_, fun c hc => ⟨congrArg List.head? hc, rfl⟩, ?_, ?_⟩
    all_goals simp
  · next hnil hsingle _ =>
    have hread : setterFor a.getter a.setters = a.getter.bind fun g => a.setters.find? (matchesGetter g) := rfl
    split at h
    · next setter hsetter =>
      cases h
      refine ⟨rfl, fun heq => (hnil heq).elim, fun c heq => (hsingle c heq).elim, fun _ c hc => ?_, fun _ hnone => ?_⟩
      · rw [hread, hsetter] at hc
        exact ⟨hc, rfl⟩
      · rw [hread, hsetter] at hnone
        cases hnone
    · next hnone =>
      cases h
      refine ⟨rfl, fun heq => (hnil heq).elim, fun c heq => (hsingle c heq).elim, fun _ c hc => ?_, fun _ _ => ?_⟩
      · rw [hread, hnone] at hc
        cases hc
      · exact ⟨rfl, _, rfl⟩

end AccessorGroup

/-! ## Properties of tables -/

namespace MemberTable

variable {t : MemberTable}

/-- The methods of a row, if their name announces an accessor of a property. -/
def announcedBy? (kind : AccessorKind) (property : String) : String × Member → Option OverloadSet
  | (method, .methods set) => if kind.Announces method property then some set else none
  | _ => none

/-- What announces a property is a method whose name does. -/
theorem announcedBy?_eq_some_iff {kind : AccessorKind} {property method : String} {m : Member} {set : OverloadSet} :
    announcedBy? kind property (method, m) = some set ↔ m = .methods set ∧ kind.Announces method property := by
  cases m with
  | methods found =>
    rw [announcedBy?, Option.ite_none_right_eq_some, Option.some.injEq, Member.methods.injEq, and_comm]
  | field f => simp [announcedBy?]
  | property p => simp [announcedBy?]

/-- The methods of a table whose names announce accessors of a property, in order. -/
def announced (t : MemberTable) (kind : AccessorKind) (property : String) : List OverloadSet :=
  t.rows.filterMap (announcedBy? kind property)

/-- The announced overloads are those of the methods whose names announce the property. -/
theorem mem_announced {kind : AccessorKind} {property : String} {set : OverloadSet} :
    set ∈ t.announced kind property ↔ ∃ method, (method, .methods set) ∈ t.rows ∧ kind.Announces method property := by
  simp only [announced, List.mem_filterMap, Prod.exists, announcedBy?_eq_some_iff]
  constructor
  · rintro ⟨method, m, hrow, rfl, hannounces⟩
    exact ⟨method, hrow, hannounces⟩
  · rintro ⟨method, hrow, hannounces⟩
    exact ⟨method, _, hrow, rfl, hannounces⟩

/-- A row counts for a property exactly if its name announces the property and the table leaves that name free. -/
theorem accessorOf?_eq_some_iff {row : String × Member} {name : String} {a : AccessorMethod} :
    t.accessorOf? row = some (name, a) ↔
      row = (a.name, .methods a.set) ∧ a.kind.Announces a.name name ∧ t.find? name = none := by
  obtain ⟨kind, method, set⟩ := a
  constructor
  · intro h
    refine ⟨accessorOf?_row h, ?_, find?_of_accessorOf? h⟩
    obtain rfl := accessorOf?_row h
    obtain ⟨⟨kind', rest⟩, hkind, h⟩ := Option.bind_eq_some_iff.mp h
    obtain ⟨property, hproperty, h⟩ := Option.bind_eq_some_iff.mp h
    dsimp only at h
    split at h
    · cases h
    · cases h
      refine ⟨rest, accessorKind?_eq_some_iff.mp hkind, ?_⟩
      rw [hproperty, String.toList_ofList]
  · rintro ⟨rfl, ⟨rest, hword, hproperty⟩, hfree⟩
    rw [accessorOf?]
    simp [accessorKind?_eq_some_iff.mpr hword, hproperty, contains, hfree]

/-- The accessors of a property that are met in a table, in order. -/
def met (t : MemberTable) (name : String) : List AccessorMethod :=
  ((t.rows.filterMap t.accessorOf?).filter (·.1 = name)).map (·.2)

/-- Where its name is free, all methods that announce a property are met. -/
theorem ofKind_met {name : String} (hfree : t.find? name = none) (kind : AccessorKind) :
    ofKind kind (t.met name) = t.announced kind name := by
  rw [ofKind, met, announced, List.filterMap_map, List.filterMap_filter, List.filterMap_filterMap]
  refine List.filterMap_congr fun ⟨method, m⟩ _ => Option.ext fun set => ?_
  rw [announcedBy?_eq_some_iff, Option.bind_eq_some_iff]
  constructor
  · rintro ⟨⟨found, a⟩, haccessor, hkept⟩
    obtain ⟨hname, hkept⟩ := Option.ite_none_right_eq_some.mp hkept
    obtain ⟨hkind, hset⟩ := Option.ite_none_right_eq_some.mp hkept
    cases of_decide_eq_true hname
    cases hkind
    cases hset
    obtain ⟨hrow, hannounces, -⟩ := accessorOf?_eq_some_iff.mp haccessor
    cases hrow
    exact ⟨rfl, hannounces⟩
  · rintro ⟨rfl, hannounces⟩
    exact ⟨(name, ⟨kind, method, set⟩), accessorOf?_eq_some_iff.mpr ⟨rfl, hannounces, hfree⟩, by simp⟩

/-- Collecting an accessor changes the group of its name alone. -/
theorem lookup_collectAccessor (name : String) (m : AccessorMethod) (n : String) :
    ∀ found : List (String × AccessorGroup),
      ((collectAccessor found name m).lookup n).getD {} =
        if n = name then ((found.lookup n).getD {}).add m else (found.lookup n).getD {}
  | [] => by
    rw [collectAccessor, lookup_cons_ite]
    split <;> rfl
  | (first, a) :: rest => by
    rw [collectAccessor]
    split
    · next hfirst =>
      rw [lookup_cons_ite, lookup_cons_ite, hfirst]
      split <;> rfl
    · next hfirst =>
      rw [lookup_cons_ite, lookup_cons_ite]
      by_cases hn : n = first
      · -- the accessors of another property come first
        rw [if_pos hn, if_pos hn, if_neg fun heq => hfirst (hn.symm.trans heq)]
      · rw [if_neg hn, if_neg hn]
        exact lookup_collectAccessor name m n rest

/-- **Accessors are grouped by the names of their properties**, each group in the order in which they are met. -/
theorem lookup_accessors (t : MemberTable) (name : String) :
    (t.accessors.lookup name).getD {} = ({} : AccessorGroup).gather (t.met name) := by
  -- on the accessors that are met, for all groups that there are already
  have hrun : ∀ (l : List (String × AccessorMethod)) (found : List (String × AccessorGroup)),
      ((l.foldl (fun found x => collectAccessor found x.1 x.2) found).lookup name).getD {} =
        ((found.lookup name).getD {}).gather ((l.filter (·.1 = name)).map (·.2)) := by
    intro l
    induction l with
    | nil => exact fun _ => rfl
    | cons x l ih =>
      obtain ⟨n, m⟩ := x
      intro found
      rw [List.foldl_cons, ih, lookup_collectAccessor]
      by_cases hn : n = name
      · rw [if_pos hn.symm, List.filter_cons_of_pos (by simpa using hn)]
        rfl
      · rw [if_neg (Ne.symm hn), List.filter_cons_of_neg (by simpa using hn)]
  exact hrun _ []

theorem nodup_accessors (t : MemberTable) : (t.accessors.map (·.1)).Nodup := by
  refine List.foldlRecOn (motive := fun found : List (String × AccessorGroup) =>
    (found.map Prod.fst).Nodup) _ _ List.nodup_nil ?_
  rintro found hfound ⟨name, m⟩ -
  refine nodup_keys_of_insertion (collectAccessor · name m) rfl (fun first rest => ?_) hfound
  rw [collectAccessor]
  split <;> rfl

/-- **A property is made of the accessors of its name.** -/
theorem mem_properties_iff {p : Property} :
    p ∈ t.properties ↔ (({} : AccessorGroup).gather (t.met p.name)).toProperty? p.name = some p := by
  rw [← lookup_accessors]
  constructor
  · intro hp
    obtain ⟨⟨name, a⟩, hentry, hmade⟩ := List.mem_filterMap.mp hp
    rw [name_of_toProperty? hmade, lookup_of_mem t.nodup_accessors hentry]
    exact hmade
  · intro hmade
    cases hlookup : t.accessors.lookup p.name with
    | none =>
      rw [hlookup] at hmade
      cases hmade
    | some a =>
      rw [hlookup] at hmade
      exact List.mem_filterMap.mpr ⟨(p.name, a), mem_of_lookup hlookup, hmade⟩

theorem nodup_properties (t : MemberTable) : (t.properties.map (·.name)).Nodup := by
  rw [List.Nodup, List.pairwise_map]
  refine List.Pairwise.filterMap _ (fun entry entry' hne p hp p' hp' => ?_) (List.pairwise_map.mp t.nodup_accessors)
  rwa [name_of_toProperty? hp, name_of_toProperty? hp']

/-- A member under a free name is put at the end. -/
theorem insertRow_of_lookup {name : String} (m : Member) : ∀ {rows : List (String × Member)},
    rows.lookup name = none → insertRow name m rows = rows ++ [(name, m)]
  | [], _ => rfl
  | (first, k) :: rest, h => by
    rw [lookup_cons_ite] at h
    split at h
    · cases h
    · next hne => rw [insertRow, if_neg (Ne.symm hne), insertRow_of_lookup m h, List.cons_append]

/-- Properties under free names, all different, are added behind the rows. -/
theorem rows_foldl_insert : ∀ {added : List Property} {t : MemberTable}, (∀ p ∈ added, t.find? p.name = none) →
    (added.map (·.name)).Nodup →
      (added.foldl (fun t p => t.insert p.name (.property p)) t).rows =
        t.rows ++ added.map fun p => (p.name, .property p)
  | [], _, _, _ => (List.append_nil _).symm
  | p :: added, t, hfree, hnodup => by
    obtain ⟨hp, hadded⟩ := List.forall_mem_cons.mp hfree
    rw [List.map_cons, List.nodup_cons] at hnodup
    have hrows : (t.insert p.name (.property p)).rows = t.rows ++ [(p.name, .property p)] := insertRow_of_lookup _ hp
    rw [List.foldl_cons, rows_foldl_insert (fun q hq => ?_) hnodup.2, hrows, List.append_assoc]
    · rfl
    · have hne : q.name ≠ p.name := fun heq => hnodup.1 (heq ▸ List.mem_map_of_mem hq)
      rw [find?_insert, if_neg hne]
      exact hadded q hq

/-- The getter that the methods of a table offer for a property. -/
def getterFor (t : MemberTable) (property : String) : Option Callable :=
  preferredGetter (t.announced .get property) (t.announced .is property)

/-- The setters that the methods of a table offer for a property. -/
def settersFor (t : MemberTable) (property : String) : List Callable :=
  offeredSetters (t.announced .set property)

/-- The groups that are met in the order of the table have the getter and the setters that the property is to have. -/
theorem gather_met {name : String} (hfree : t.find? name = none) :
    (({} : AccessorGroup).gather (t.met name)).getter = t.getterFor name ∧
      (({} : AccessorGroup).gather (t.met name)).setters = t.settersFor name := by
  rw [AccessorGroup.getter_gather, AccessorGroup.setters_gather, ofKind_met hfree, ofKind_met hfree, ofKind_met hfree]
  exact ⟨rfl, rfl⟩

/-- A property has no getter where no announced overload is accepted as one. -/
theorem getterFor_eq_none_iff {name : String} :
    t.getterFor name = none ↔ ∀ kind : AccessorKind, kind ≠ .set → ∀ set ∈ t.announced kind name,
      ∀ c ∈ set.candidates, kind.accepts c ≠ true := by
  rw [getterFor, preferredGetter, Option.or_eq_none_iff, List.getLast?_eq_none_iff, List.head?_eq_none_iff]
  simp only [List.filterMap_eq_nil_iff, List.find?_eq_none]
  constructor
  · rintro ⟨hget, his⟩ kind hkind
    cases kind with
    | get => exact hget
    | is => exact his
    | set => exact absurd rfl hkind
  · exact fun h => ⟨h .get nofun, h .is nofun⟩

theorem settersFor_eq_nil_iff {name : String} :
    t.settersFor name = [] ↔
      ∀ set ∈ t.announced .set name, ∀ c ∈ set.candidates, AccessorKind.accepts .set c ≠ true := by
  simp [settersFor, offeredSetters]

/-- A name is free where it is not among the names of the table. -/
theorem find?_eq_none_iff {name : String} : t.find? name = none ↔ name ∉ t.names := by
  rw [find?, List.lookup_eq_none_iff, names, List.mem_map]
  simp only [bne_iff_ne, ne_eq, not_exists, not_and]
  exact forall₂_congr fun row _ => not_congr eq_comm

/-- **The names that properties are made for**: those that are free and that a method which qualifies announces. -/
theorem mem_names_properties_iff {name : String} :
    name ∈ t.properties.map (·.name) ↔ t.find? name = none ∧
      ∃ kind, ∃ set ∈ t.announced kind name, ∃ c ∈ set.candidates, AccessorKind.accepts kind c = true := by
  constructor
  · intro hname
    obtain ⟨p, hp, rfl⟩ := List.mem_map.mp hname
    have hfree := find?_of_mem_properties hp
    -- a free name for which nothing is announced would have neither getter nor setters
    refine ⟨hfree, by_contra fun hnone => ?_⟩
    simp only [not_exists, not_and] at hnone
    obtain ⟨hgetter, hsetters⟩ := gather_met hfree
    rw [getterFor_eq_none_iff.mpr fun kind _ => hnone kind] at hgetter
    rw [settersFor_eq_nil_iff.mpr (hnone .set)] at hsetters
    have hmade := mem_properties_iff.mp hp
    rw [AccessorGroup.toProperty?_eq_none_iff.mpr ⟨hgetter, hsetters⟩] at hmade
    cases hmade
  · rintro ⟨hfree, kind, set, hset, c, hc, haccepts⟩
    cases hmade : (({} : AccessorGroup).gather (t.met name)).toProperty? name with
    | some p =>
      obtain rfl := name_of_toProperty? hmade
      exact List.mem_map_of_mem (mem_properties_iff.mpr hmade)
    -- the candidate that qualifies is the getter or a setter, so a property is made
    | none =>
      obtain ⟨hgetter, hsetters⟩ := AccessorGroup.toProperty?_eq_none_iff.mp hmade
      rw [(gather_met hfree).1] at hgetter
      rw [(gather_met hfree).2] at hsetters
      by_cases hkind : kind = .set
      · subst hkind
        exact absurd haccepts (settersFor_eq_nil_iff.mp hsetters set hset c hc)
      · exact absurd haccepts (getterFor_eq_none_iff.mp hgetter kind hkind set hset c hc)

/--
**Accessor methods add properties and disturb nothing.** Every member stays under its name, and the rows of a table
stay in front. Added are properties under different names: those that the table leaves free and that the name of some
method announces of which a candidate qualifies. A `get` method makes the getter wherever one qualifies, and the setter
is chosen among all methods that take one argument.
-/
theorem withProperties_adds (t : MemberTable) :
    (∀ name m, t.find? name = some m → t.withProperties.find? name = some m) ∧
    t.withProperties.rows = t.rows ++ t.properties.map (fun p => (p.name, .property p)) ∧
    (t.properties.map (·.name)).Nodup ∧
    (∀ name, name ∈ t.properties.map (·.name) ↔ name ∉ t.names ∧
      ∃ (method : String) (set : OverloadSet) (kind : AccessorKind), (method, .methods set) ∈ t.rows ∧
        kind.Announces method name ∧ ∃ c ∈ set.candidates, kind.accepts c = true) ∧
    ∀ p ∈ t.properties, t.withProperties.find? p.name = some (.property p) ∧
      p.MadeOf (t.getterFor p.name) (t.settersFor p.name) := by
  have hrows : t.withProperties.rows = t.rows ++ t.properties.map (fun p => (p.name, .property p)) :=
    rows_foldl_insert (fun _ hp => find?_of_mem_properties hp) t.nodup_properties
  refine ⟨fun _ _ h => find?_withProperties h, hrows, t.nodup_properties, fun name => ?_, fun p hp => ⟨?_, ?_⟩⟩
  · rw [mem_names_properties_iff, ← find?_eq_none_iff]
    simp only [mem_announced]
    refine and_congr_right fun _ => ⟨?_, ?_⟩
    · rintro ⟨kind, set, ⟨method, hrow, hannounces⟩, hc⟩
      exact ⟨method, set, kind, hrow, hannounces, hc⟩
    · rintro ⟨method, set, kind, hrow, hannounces, hc⟩
      exact ⟨kind, set, ⟨method, hrow, hannounces⟩, hc⟩
  · have hfree : t.rows.lookup p.name = none := find?_of_mem_properties hp
    have hnodup : ((t.properties.map fun p => (p.name, Member.property p)).map (·.1)).Nodup := by
      rw [List.map_map]
      exact t.nodup_properties
    rw [find?, hrows, List.lookup_append, hfree, Option.none_or]
    exact lookup_of_mem hnodup (List.mem_map_of_mem hp)
  · obtain ⟨hgetter, hsetters⟩ := gather_met (find?_of_mem_properties hp)
    rw [← hgetter, ← hsetters]
    exact AccessorGroup.madeOf_toProperty? (mem_properties_iff.mp hp)

/-- A table of one name to be read, to be asked for and to be written, and of an address to be read. -/
example :
    let accessor (name : String) (params : List Descriptor) (type : Descriptor) : String × Member :=
      (name, .methods ⟨name, [⟨name, Standard.object, params, type, {}, .missing name⟩]⟩)
    let t : MemberTable := ⟨[accessor "isName" [] .boolean, accessor "getName" [] .string,
      accessor "setName" [.string] .void, accessor "getURL" [] .string]⟩
    [propertyName "Name".toList, propertyName "URL".toList, propertyName []]
      = [some "name".toList, some "URL".toList, none] ∧
    t.withProperties.names = ["isName", "getName", "setName", "getURL", "name", "URL"] ∧
    t.properties.map (fun p => (p.getter.map (·.name), p.setter.map (·.name)))
      = [(some "getName", some "setName"), (some "getURL", none)] := by
  decide +kernel

end MemberTable

end Interop
