import Interop.Proofs.Call.Operations
import Interop.Proxy.Property

/-!
# Properties under a discipline

Testing, writing, removing and listing properties keeps every lenient discipline. An object that is not a proxy gets
other content of its own kind; a proxy of a container changes what the container holds, and a proxy of any kind may
write a member or take note of its members. Before a proxy does so, conversions and calls may have run since it was
read, so what is known of it is only that it is still there (`Store.ShowsProxy`).

* **`follows_writeMember`**: writing members.
* **`follows_hasProperty`**, **`follows_putProperty`**, **`follows_deleteProperty`**, **`follows_objectKeys`**.
-/

namespace Interop

variable {D : Discipline}

/-! ## Objects and containers after an update -/

theorem Store.Change.setPlain {s : Store} {r : ObjectRef} {before : List (String × Script)}
    (hr : s.object r = .plain before) (after : List (String × Script)) : s.Change (s.setObject r (.plain after)) := by
  refine .setObject ?_ rfl ?_ <;> rw [hr] <;> rfl

theorem Store.Change.setArray {s : Store} {r : ObjectRef} {before : List Script} (hr : s.object r = .array before)
    (after : List Script) : s.Change (s.setObject r (.array after)) := by
  refine .setObject ?_ rfl ?_ <;> rw [hr] <;> rfl

/-- Writing an element is one of the updates that an array allows. -/
theorem NativeArray.updates_set {a a' : NativeArray} {i : Nat} {v : Native} (h : a.set i v = .ok a') :
    (NativeObject.array a).Updates (.array a') := by
  unfold set at h
  split at h <;> cases h
  exact .array a _

theorem NativeMap.updates_erase (m : NativeMap) (key : Native) :
    (NativeObject.map m).Updates (.map (m.erase key).2) := by
  unfold erase
  split <;> exact .map m _ _

section Referred

variable {s : Store} {v : Native} {r : NativeRef} (hr : v.toRef? = some r)
include hr

theorem Store.native_of_array? {a : NativeArray} (h : s.array? v = some a) : s.native r = .array a := by
  cases v <;> cases hr
  simp only [array?] at h
  split at h <;> cases h
  assumption

theorem Store.native_of_list? {l : NativeList} (h : s.list? v = some l) : s.native r = .list l := by
  cases v <;> cases hr
  simp only [list?] at h
  split at h <;> cases h
  assumption

theorem Store.native_of_map? {m : NativeMap} (h : s.map? v = some m) : s.native r = .map m := by
  cases v <;> cases hr
  simp only [map?] at h
  split at h <;> cases h
  assumption

end Referred

/-! ## Members -/

/-- Whether a member stands behind a name is a look-up of members. -/
theorem followsAt_memberBehind {s : Store} (hs : D.holds s) {r : ObjectRef} {p : Proxy} (hr : s.ShowsProxy r p)
    (name : String) : (Eval.memberBehind r p name).FollowsAt D s := by
  refine (followsAt_proxyMembers hs hr).attempt.bind fun members s₁ _ hs₁ => ?_
  cases members <;> exact Eval.Follows.pure _ s₁ hs₁

theorem followsAt_keysOfMembers {s : Store} (hs : D.holds s) {r : ObjectRef} {p : Proxy} (hr : s.ShowsProxy r p)
    (isStatic : Bool) : (keysOfMembers r p isStatic).FollowsAt D s := by
  refine (followsAt_proxyMembers hs hr).attempt.bind fun members s₁ _ hs₁ => ?_
  cases members <;> exact Eval.Follows.pure _ s₁ hs₁

theorem follows_mapContains (p : Proxy) (key : Except Failure Native) : (Eval.mapContains p key).Follows D := by
  refine .read fun s => ?_
  split <;> exact .pure _

/-- The map behind a proxy gets a key. -/
def insertKey (p : Proxy) (native : Except Failure Native) (v : Script) : Eval Unit := do
  let k ← Eval.ofFailure native
  let valueType := (((← get).map? p.value).map (·.valueType)).getD .unspecified
  let value ← convert valueType v
  let s ← get
  match p.value.toRef?, s.map? p.value with
  | some ref, some m => modify (·.setNative ref (.map (m.insert k value).2))
  | _, _ => pure ()

section Lenient

variable (hD : D.Lenient)
include hD

/-- Writing a field touches no more than the place where it is stored. -/
theorem Storage.follows_write (storage : Storage) (this : Option Native) (v : Native) :
    (storage.write this v).Follows D := by
  unfold write
  refine .get_bind fun s hs => ?_
  cases storage with
  | cell r => exact ⟨hD.cells r v hs, nofun⟩
  | slot name type =>
    dsimp only
    split
    · next r typeName display fields hrecord =>
      obtain ⟨_, -, hv⟩ := Option.bind_eq_some_iff.mp hrecord
      have hr := Store.native_of_record? hv
      exact ⟨D.step (.setNative (hr ▸ .record typeName display fields _)) hs, nofun⟩
    · exact Eval.Follows.fail _ s hs
  | broken name => exact Eval.Follows.fail _ s hs

/-- Writing a member converts the value and writes a field or calls a setter. -/
theorem follows_writeMember (n : Nat) (members : Membership) (this : Option Native) (name : String) (v : Script)
    (isStatic : Bool) : (writeMember n members this name v isStatic).Follows D := by
  unfold writeMember
  dsimp only
  split
  · exact .fail _
  · exact .fail _
  · split
    · exact .fail _
    · exact (follows_convert _ (hD.admits _) v).bind fun native => Storage.follows_write hD _ this native
  · split
    · exact (follows_convert _ (hD.admits _) v).bind fun native =>
        (Eval.Follows.holding _ (Invoker.follows_run (callsFollow hD n).send _ this _ (.inr D.letsListsChange))).bind
          fun _ => .pure _
    · exact ((callsFollow hD n).callOverload _ this _).bind fun _ => .pure _
    · exact .fail _

/-- A proxy that was read earlier writes a member. -/
theorem followsAt_putMember {s : Store} (hs : D.holds s) {r : ObjectRef} {p : Proxy} (hr : s.ShowsProxy r p) (n : Nat)
    (this : Option Native) (name : String) (v : Script) (isStatic : Bool) :
    (do
      let members ← Eval.proxyMembers r p
      writeMember n members this name v isStatic : Eval Unit).FollowsAt D s :=
  (followsAt_proxyMembers hs hr).bind fun members s₁ _ hs₁ =>
    follows_writeMember hD n members this name v isStatic s₁ hs₁

theorem follows_keyInMap (p : Proxy) (key : PropertyKey) : (Eval.keyInMap p key).Follows D :=
  .read fun _ => follows_attempt_convert hD _ _

/-! ## Testing -/

/-- Asking for a property looks up members, or reads a container. -/
theorem follows_hasProperty (r : ObjectRef) (key : PropertyKey) : (hasProperty r key).Follows D := by
  unfold hasProperty
  refine .get_bind fun s hs => ?_
  cases hr : s.object r with
  | plain properties => exact Eval.Follows.pure _ s hs
  | array elements =>
    dsimp only
    split <;> exact Eval.Follows.pure _ s hs
  | proxy p =>
    have hshown : s.ShowsProxy r p := ⟨p.members, hr⟩
    dsimp only
    split
    · exact followsAt_memberBehind hs hshown _
    · exact Eval.Follows.pure _ s hs
    · refine (followsAt_proxyMembers hs hshown).attempt.bind fun members s₁ _ hs₁ => ?_
      cases members <;> exact Eval.Follows.pure _ s₁ hs₁
    · exact Eval.Follows.pure _ s hs
    · exact Eval.Follows.pure _ s hs
    · exact Eval.Follows.pure _ s hs
    · split
      · exact Eval.Follows.pure _ s hs
      · exact followsAt_memberBehind hs hshown _
    · exact Eval.Follows.pure _ s hs
    · -- the conversion of the key may call and look up anything, but the proxy is still there when members are tested
      refine .bind_keeping hD (follows_keyInMap · p _ s) hs hshown fun native s₁ hs₁ hshown₁ => ?_
      refine .bind_keeping hD (fun _ => follows_mapContains p native s₁) hs₁ hshown₁ fun found s₂ hs₂ hshown₂ => ?_
      split
      · exact Eval.Follows.pure _ s₂ hs₂
      · split
        · exact followsAt_memberBehind hs₂ hshown₂ _
        · exact Eval.Follows.pure _ s₂ hs₂

/-! ## Writing -/

/-- Writing an element of an array converts the value and updates the array. -/
theorem follows_putArrayElement (p : Proxy) (i : Nat) (v : Script) : (putArrayElement p i v).Follows D := by
  refine (follows_convert _ (hD.admits _) v).bind fun native => .get_bind fun s hs => ?_
  split
  · next r a hr ha =>
    cases hset : a.set i native with
    | error failure => exact Eval.Follows.fail _ s hs
    | ok a' => exact ⟨D.step (.setNative (Store.native_of_array? hr ha ▸ NativeArray.updates_set hset)) hs, nofun⟩
  · exact Eval.Follows.pure _ s hs

/-- Writing one of a list may add it at the end. -/
theorem follows_putListElement (p : Proxy) (i : Nat) (v : Script) : (putListElement p i v).Follows D := by
  unfold putListElement
  refine .read fun before => ?_
  split
  · exact .pure _
  · split
    · exact .fail _
    · refine (follows_convert _ (hD.admits _) v).bind fun native => .get_bind fun s hs => ?_
      split
      · next r l hr hl =>
        have hnative := Store.native_of_list? hr hl
        split
        · exact ⟨D.step (.setNative (hnative ▸ l.updates_add native)) hs, nofun⟩
        · cases hreplace : l.replaceAt i native with
          | error failure => exact Eval.Follows.fail _ s hs
          | ok result => exact ⟨D.step (.setNative (hnative ▸ NativeList.updates_replaceAt hreplace)) hs, nofun⟩
      · exact Eval.Follows.pure _ s hs

theorem follows_insertKey (p : Proxy) (native : Except Failure Native) (v : Script) :
    (insertKey p native v).Follows D := by
  refine (Eval.Follows.ofFailure native).bind fun k => .read fun before =>
    (follows_convert _ (hD.admits _) v).bind fun value => .get_bind fun s hs => ?_
  split
  · next ref m hr hm =>
    exact ⟨D.step (.setNative (Store.native_of_map? hr hm ▸ m.updates_insert k value)) hs, nofun⟩
  · exact Eval.Follows.pure _ s hs

/-- Writing to a map binds the key, or writes to a member of the name where the map lacks the key. -/
theorem followsAt_putMapKey {s : Store} (hs : D.holds s) {r : ObjectRef} {p : Proxy} (hr : s.ShowsProxy r p) (n : Nat)
    (key : PropertyKey) (v : Script) : (putMapKey n r p key v).FollowsAt D s := by
  refine .bind_keeping hD (follows_keyInMap · p key s) hs hr fun native s₁ hs₁ hr₁ => ?_
  refine .bind_keeping hD (fun _ => follows_mapContains p native s₁) hs₁ hr₁ fun present s₂ hs₂ hr₂ => ?_
  have hput : ∀ member s₃, D.holds s₃ → s₃.ShowsProxy r p →
      (if member = true then do
        let members ← Eval.proxyMembers r p
        writeMember n members (some p.value) key.text v false
      else insertKey p native v : Eval Unit).FollowsAt D s₃ := by
    intro member s₃ hs₃ hr₃
    split
    · exact followsAt_putMember hD hs₃ hr₃ n _ _ v false
    · exact follows_insertKey hD p native v s₃ hs₃
  dsimp only
  split
  · exact .bind_keeping hD (fun _ hs => followsAt_memberBehind hs hr₂ _) hs₂ hr₂ hput
  · exact hput false s₂ hs₂ hr₂

/-- Writing a property is writing to the member, the container or the object behind it. -/
theorem follows_putProperty (n : Nat) (r : ObjectRef) (key : PropertyKey) (v : Script) :
    (putProperty n r key v).Follows D := by
  unfold putProperty
  refine .get_bind fun s hs => ?_
  cases hr : s.object r with
  | plain properties => exact ⟨D.step (.setPlain hr _) hs, nofun⟩
  | array elements =>
    dsimp only
    split
    · exact ⟨D.step (.setArray hr _) hs, nofun⟩
    · exact Eval.Follows.fail _ s hs
  | proxy p =>
    have hshown : s.ShowsProxy r p := ⟨p.members, hr⟩
    -- kinds and keys in the order of the definition; indices of instances and names of arrays are refused
    dsimp only
    split
    · exact followsAt_putMember hD hs hshown n _ _ v false
    · exact Eval.Follows.fail _ s hs
    · exact followsAt_putMember hD hs hshown n none _ v true
    · exact follows_putArrayElement hD p _ v s hs
    · split <;> exact Eval.Follows.fail _ s hs
    · exact follows_putListElement hD p _ v s hs
    · split
      · exact Eval.Follows.fail _ s hs
      · exact followsAt_putMember hD hs hshown n _ _ v false
    · exact followsAt_putMapKey hD hs hshown n _ v

/-! ## Removing and listing -/

/-- Deleting one updates the container or the object. -/
theorem follows_deleteProperty (r : ObjectRef) (key : PropertyKey) : (deleteProperty r key).Follows D := by
  unfold deleteProperty
  refine .get_bind fun s hs => ?_
  cases hr : s.object r with
  | plain properties => exact ⟨D.step (.setPlain hr _) hs, nofun⟩
  | array elements =>
    dsimp only
    split
    · split
      · exact ⟨D.step (.setArray hr _) hs, nofun⟩
      · exact Eval.Follows.pure _ s hs
    · exact Eval.Follows.pure _ s hs
  | proxy p =>
    dsimp only
    split
    · refine (follows_keyInMap hD p key s hs).bind fun native s₁ _ hs₁ => ?_
      cases native with
      | error failure => exact Eval.Follows.pure _ s₁ hs₁
      | ok k =>
        refine .get_bind ?_
        split
        · next ref m href hm =>
          exact ⟨D.step (.setNative (Store.native_of_map? href hm ▸ m.updates_erase k)) hs₁, nofun⟩
        · exact Eval.Follows.pure _ s₁ hs₁
    · exact Eval.Follows.pure _ s hs

/-- Listing the keys looks up members and reads the container. -/
theorem follows_objectKeys (r : ObjectRef) : (objectKeys r).Follows D := by
  unfold objectKeys
  refine .get_bind fun s hs => ?_
  cases hr : s.object r with
  | plain properties => exact Eval.Follows.pure _ s hs
  | array elements => exact Eval.Follows.pure _ s hs
  | proxy p =>
    have hshown : s.ShowsProxy r p := ⟨p.members, hr⟩
    dsimp only
    split
    · exact followsAt_keysOfMembers hs hshown false
    · exact followsAt_keysOfMembers hs hshown true
    · exact Eval.Follows.pure _ s hs
    · exact (followsAt_keysOfMembers hs hshown false).bind fun _ s₁ _ hs₁ => Eval.Follows.pure _ s₁ hs₁
    · refine .bind_keeping hD (fun _ => Eval.Follows.mapM (fun v _ => follows_displayNative v) s) hs hshown
        fun texts s₁ hs₁ hr₁ => ?_
      exact (followsAt_keysOfMembers hs₁ hr₁ false).bind fun _ s₂ _ hs₂ => Eval.Follows.pure _ s₂ hs₂

end Lenient

end Interop
