import Interop.Proofs.Proxy.Keys

/-!
# Testing, reading and writing members

A proxy of an instance or of a class tests, reads and writes the members of its type, each by a path of its own. A name
that is tested as absent is read as absent, and writing it is refused without a trace. Indices are no names: they are
absent as well, and an instance refuses to be written by index. A class does not. It takes an index for its text, so
that a static member with digits for a name is written by an index under which it is neither there nor read.

* **`ProxyKind.ofMembers`**: the proxies that show instance members or static members only.
* **`outcome_hasName`**, **`outcome_getName`**, **`outcome_putName`**: names, once the members are known;
  **`getName_eq_none_iff`**: when nothing is read.
* **`outcome_putIndex_class`**: an index of a class is the name that it is written with.
* **`members_agree`**: when a key is absent, how absent keys are read and written, and which are written all the same.
-/

namespace Interop

/-- The kind of proxies that show members of instances, or static members. -/
def ProxyKind.ofMembers (isStatic : Bool) : ProxyKind := if isStatic then .ofClass else .ofInstance

/-- Browsing leaves all that is native as it is, and calls nothing. -/
theorem Store.Browses.natives_eq {s s' : Store} (h : s.Browses s') :
    s'.natives = s.natives ∧ s'.cells = s.cells ∧ s'.calls = s.calls := by
  obtain ⟨objects, cache, rfl⟩ := h.exists_eq
  exact ⟨rfl, rfl, rfl⟩

/-- What members are read and written of. -/
def Proxy.receiver (p : Proxy) (isStatic : Bool) : Option Native := if isStatic then none else some p.value

variable {s s' : Store} {r : ObjectRef} {p : Proxy} {members : Membership} {isStatic : Bool}

/-- A member that is not there is refused by its name. -/
theorem outcome_writeMember_missing {name : String} (h : members.entry.has name isStatic = false) (n : Nat)
    (this : Option Native) (v : Script) (s : Store) :
    (writeMember n members this name v isStatic).outcome s =
      (.error (.failed (.memberNotFound members.entry.typeName name)), s) := by
  have hfind : members.entry.find? name isStatic = none := by simpa [TypeMembers.has] using h
  rw [writeMember, hfind]
  rfl

section Names

variable (hr : s.object r = .proxy p) (hkind : p.kind = .ofMembers isStatic)
  (hmembers : (Eval.proxyMembers r p).outcome s = (.ok members, s')) (name : String)
include hr hkind hmembers

/-- A proxy of members has a name where its table has. -/
theorem outcome_hasName :
    (hasProperty r (.name name)).outcome s = (.ok (members.entry.has name isStatic), s') := by
  have hattempt : (Eval.attempt (Eval.proxyMembers r p)).outcome s = (.ok (.ok members), s') := by
    rw [Eval.outcome_attempt, hmembers]
  rw [hasProperty, Eval.outcome_get_bind, hr]
  cases isStatic with
  | true =>
    simp only [hkind, ProxyKind.ofMembers, if_true]
    rw [Eval.outcome_bind_of_ok hattempt]
    rfl
  | false =>
    simp only [hkind, ProxyKind.ofMembers, Bool.false_eq_true, if_false, Eval.memberBehind]
    rw [Eval.outcome_bind_of_ok hattempt]
    rfl

/-- A name is read from the member behind it, and is nothing where there is none. -/
theorem outcome_getName (n : Nat) :
    (getProperty (n + 1) r (.name name)).outcome s =
      (if members.entry.has name isStatic then
        some <$> readMember n members (p.receiver isStatic) name isStatic
      else pure none).outcome s' := by
  rw [getProperty, Eval.outcome_get_bind, hr]
  cases isStatic with
  | true =>
    simp only [hkind, ProxyKind.ofMembers, if_true]
    rw [Eval.outcome_bind_of_ok hmembers, bind_pure_comp]
    rfl
  | false =>
    simp only [hkind, ProxyKind.ofMembers, Bool.false_eq_true, if_false]
    rw [Eval.outcome_bind_of_ok hmembers, bind_pure_comp]
    rfl

theorem outcome_putName (n : Nat) (v : Script) :
    (putProperty n r (.name name) v).outcome s =
      (writeMember n members (p.receiver isStatic) name v isStatic).outcome s' := by
  rw [putProperty, Eval.outcome_get_bind, hr]
  cases isStatic with
  | true =>
    simp only [hkind, ProxyKind.ofMembers, if_true]
    rw [Eval.outcome_bind_of_ok hmembers]
    rfl
  | false =>
    simp only [hkind, ProxyKind.ofMembers, Bool.false_eq_true, if_false]
    rw [Eval.outcome_bind_of_ok hmembers]
    rfl

/-- Whatever a member is, it is read as something, so that nothing is read only where there is none. -/
theorem getName_eq_none_iff (n : Nat) :
    (∃ s₂, (getProperty (n + 1) r (.name name)).outcome s = (.ok none, s₂)) ↔
      members.entry.has name isStatic = false := by
  rw [outcome_getName hr hkind hmembers name]
  cases members.entry.has name isStatic with
  | false => exact iff_of_true ⟨s', rfl⟩ rfl
  | true =>
    refine iff_of_false ?_ nofun
    rintro ⟨s₂, hnone⟩
    rw [if_pos rfl, Eval.outcome_map] at hnone
    rcases hread : (readMember n members (p.receiver isStatic) name isStatic).outcome s' with ⟨stop | w, s₃⟩ <;>
      rw [hread] at hnone <;> cases hnone

end Names

/-! ## Indices -/

section Indices

variable (hr : s.object r = .proxy p) (i : Nat)
include hr

theorem outcome_hasIndex (hkind : p.kind = .ofMembers isStatic) :
    (hasProperty r (.index i)).outcome s = (.ok false, s) := by
  rw [hasProperty, Eval.outcome_get_bind, hr]
  cases isStatic <;> simp [hkind, ProxyKind.ofMembers]

theorem outcome_getIndex (hkind : p.kind = .ofMembers isStatic) (n : Nat) :
    (getProperty (n + 1) r (.index i)).outcome s = (.ok none, s) := by
  rw [getProperty, Eval.outcome_get_bind, hr]
  cases isStatic <;> simp [hkind, ProxyKind.ofMembers]

theorem outcome_putIndex_instance (hkind : p.kind = .ofInstance) (n : Nat) (v : Script) :
    (putProperty n r (.index i) v).outcome s =
      (.error (.failed (.memberNotFound p.type.signature (toString i))), s) := by
  rw [putProperty, Eval.outcome_get_bind, hr]
  simp [hkind]

/-- A class takes an index for the name that it is written with. -/
theorem outcome_putIndex_class (hkind : p.kind = .ofClass) (n : Nat) (v : Script) :
    (putProperty n r (.index i) v).outcome s = (putProperty n r (.name (toString i)) v).outcome s := by
  rw [putProperty, putProperty, Eval.outcome_get_bind, Eval.outcome_get_bind, hr]
  simp only [hkind, PropertyKey.text]

end Indices

/-- An index of a class whose text is the name of a static member. -/
def Proxy.TakesForName (p : Proxy) (members : Membership) (key : PropertyKey) : Prop :=
  p.kind = .ofClass ∧ ∃ i, key = .index i ∧ members.entry.has (toString i) true = true

/-- **Testing, reading and writing agree on the members of instances and classes**, but for writes by index to classes.
For every proxy of an instance or a class whose members can be looked up, and for every key,
* it can be told whether the key is there, and nothing is read exactly where it is not;
* where it is not, writing fails for want of a member, with nothing called and nothing native changed, unless the proxy
  is of a class and the key an index whose text is the name of a static member;
* and then the key is not there, while its text is, and a write by the index is one to the static member. -/
theorem members_agree (hr : s.object r = .proxy p) (hkind : p.kind = .ofInstance ∨ p.kind = .ofClass)
    (hmembers : (Eval.proxyMembers r p).outcome s = (.ok members, s')) (key : PropertyKey) :
    ∃ present s₁, (hasProperty r key).outcome s = (.ok present, s₁) ∧
      (∀ n, (∃ s₂, (getProperty (n + 1) r key).outcome s = (.ok none, s₂)) ↔ present = false) ∧
      (present = false → ¬p.TakesForName members key → ∀ n v, ∃ typeName s₂,
        (putProperty n r key v).outcome s = (.error (.failed (.memberNotFound typeName key.text)), s₂) ∧
          s.Browses s₂ ∧ s₂.natives = s.natives ∧ s₂.cells = s.cells ∧ s₂.calls = s.calls) ∧
      (p.TakesForName members key → present = false ∧
        (hasProperty r (.name key.text)).outcome s = (.ok true, s') ∧
        ∀ n v, (putProperty n r key v).outcome s = (writeMember n members none key.text v true).outcome s') := by
  obtain ⟨isStatic, hkind⟩ : ∃ isStatic, p.kind = .ofMembers isStatic :=
    hkind.elim (⟨false, ·⟩) (⟨true, ·⟩)
  have hbrowses : s.Browses s' := by
    have := (Eval.browsesAt_proxyMembers hr).store
    rwa [hmembers] at this
  cases key with
  | name name =>
    -- a name is looked up in the table of the proxy, whatever is done with it
    refine ⟨_, s', outcome_hasName hr hkind hmembers name, fun n => ?_, fun habsent _ n v => ?_, nofun⟩
    · exact getName_eq_none_iff hr hkind hmembers name n
    · rw [outcome_putName hr hkind hmembers, outcome_writeMember_missing habsent]
      exact ⟨_, s', rfl, hbrowses, hbrowses.natives_eq⟩
  | index i =>
    -- an index is never present, and only a class turns it into a name when it is written
    refine ⟨_, s, outcome_hasIndex hr i hkind, fun n => ?_, fun _ hother n v => ?_, fun htaken => ⟨rfl, ?_⟩⟩
    · exact iff_of_true ⟨s, outcome_getIndex hr i hkind n⟩ rfl
    · cases isStatic with
      | false => exact ⟨_, s, outcome_putIndex_instance hr i hkind n v, .refl, Store.Browses.refl.natives_eq⟩
      | true =>
        have habsent : members.entry.has (toString i) true = false :=
          Bool.eq_false_of_not_eq_true fun h => hother ⟨hkind, i, rfl, h⟩
        rw [outcome_putIndex_class hr i hkind, outcome_putName hr hkind hmembers, outcome_writeMember_missing habsent]
        exact ⟨_, s', rfl, hbrowses, hbrowses.natives_eq⟩
    · obtain ⟨hclass, j, hj, hpresent⟩ := htaken
      cases hj
      cases isStatic with
      | false => cases hclass.symm.trans hkind
      | true =>
        refine ⟨?_, fun n v => ?_⟩
        · rw [PropertyKey.text, outcome_hasName hr hkind hmembers, hpresent]
        · rw [outcome_putIndex_class hr i hkind, outcome_putName hr hkind hmembers]
          rfl

/-- A class with a static field that has a digit for a name, and a proxy of it. -/
def Store.tally : Store :=
  let tally : TypeSpec := { name := "demo.Tally", kind := .ofClass, fields :=
    [{ name := "0", type := .boolean, flags := { isStatic := true } }] }
  let s := (((Store.standard {} false).declare tally).addNative (.classRef (.plain "demo.Tally"))).2
  (s.addProxy .ofClass (.object ⟨0⟩) (.plain "demo.Tally")).2

/-- The index `0` of the class is not there and reads as nothing, but the field of this name is written by it. Writing
another index is refused. -/
theorem members_agree_tally :
    (∃ s₁, (hasProperty ⟨0⟩ (.index 0)).outcome .tally = (.ok false, s₁)) ∧
    (∃ s₁, (getProperty 1 ⟨0⟩ (.index 0)).outcome .tally = (.ok none, s₁)) ∧
    (∃ members s', (putProperty 1 ⟨0⟩ (.index 0) (.boolean true)).outcome .tally =
      (writeMember 1 members none "0" (.boolean true) true).outcome s' ∧ members.entry.has "0" true = true) ∧
    ((putProperty 1 ⟨0⟩ (.index 0) (.boolean true)).outcome .tally).2.cell ⟨0⟩ = .boolean true ∧
    ∃ typeName s₁, (putProperty 1 ⟨0⟩ (.index 1) (.boolean true)).outcome .tally =
      (.error (.failed (.memberNotFound typeName "1")), s₁) ∧ s₁.cells = Store.tally.cells := by
  let p : Proxy := ⟨.ofClass, .object ⟨0⟩, .plain "demo.Tally", none⟩
  have hr : Store.tally.object ⟨0⟩ = .proxy p := rfl
  have hfound : (((Eval.proxyMembers ⟨0⟩ p).outcome .tally).1.toOption.map fun members =>
      (members.entry.has "0" true, members.entry.has "1" true)) = some (true, false) := by decide +kernel
  obtain ⟨members, hrun, hpair⟩ := Option.map_eq_some_iff.mp hfound
  obtain ⟨hzero, hone⟩ := Prod.mk.inj hpair
  have hmembers := Eval.outcome_of_toOption hrun
  have htaken : p.TakesForName members (.index 0) := ⟨rfl, 0, rfl, hzero⟩
  have hother : ¬p.TakesForName members (.index 1) := by
    rintro ⟨-, i, hi, h⟩
    cases hi
    cases hone.symm.trans h
  obtain ⟨_, s₁, hhas, hget, -, hput⟩ := members_agree hr (.inr rfl) hmembers (.index 0)
  obtain ⟨rfl, -, hwrite⟩ := hput htaken
  obtain ⟨_, _, hhas', -, hrefused, -⟩ := members_agree hr (.inr rfl) hmembers (.index 1)
  have hkind : p.kind = .ofMembers true := rfl
  cases hhas'.symm.trans (outcome_hasIndex hr 1 hkind)
  obtain ⟨typeName, s₂, hfails, -, -, hcells, -⟩ := hrefused rfl hother 1 (.boolean true)
  exact ⟨⟨s₁, hhas⟩, (hget 0).mpr rfl, ⟨members, _, hwrite 1 (.boolean true), hzero⟩, by decide +kernel,
    typeName, s₂, hfails, hcells⟩

end Interop
