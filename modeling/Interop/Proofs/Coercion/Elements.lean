import Interop.Call.Basic
import Interop.Proofs.Coercion.Agreement
import Interop.Proofs.Coercion.Identity

/-!
# Script arrays, element by element

A script array becomes an array, a list or a set. Its elements are converted one after the other, each in the store that
the ones before have left, and the first that cannot be converted decides how the whole conversion stops. A failed
conversion says where in the array it failed, and in which array that array is an element, up to the outermost.

* **`InTurn`**, **`StopsAt`**: values that are taken in turn, and the first that stops; there is always one or the other
  (`inTurn_or_stopsAt`).
* **`TakesInTurn`**: the loops that take values in turn.
* **`NativeList.of_eq`**: a list keeps all elements, a set those without an equal before them.
* **`Descriptor.Takes`**: the types that take script arrays.
* **`FailsAlong`**: the way through nested arrays to what cannot be converted.
* **`convert_scriptArray`**: when such a conversion succeeds, what comes of it and how it stops.
-/

namespace Interop

-- ids are compared as they stand; unfolding one means computing a digest
attribute [local irreducible] TypeId.ofName

variable {α : Type} {f : α → Eval Native} {s s₁ s' : Store}

/-! ## One after the other -/

/-- Values are taken one after the other, each in the store that the ones before have left and with what came of them in
use. -/
inductive InTurn (f : α → Eval Native) : Store → List α → List Native → Store → Prop where
  | nil (s : Store) : InTurn f s [] [] s
  | cons {s s₁ s' : Store} {a : α} {native : Native} {rest : List α} {natives : List Native}
    (h : (f a).outcome s = (.ok native, s₁))
    (hrest : InTurn f (s₁.withInUse (native.held ++ s₁.inUse)) rest natives s') :
    InTurn f s (a :: rest) (native :: natives) s'

/-- The ones before a place have been taken in turn, and the one at the place stops. -/
def StopsAt (f : α → Eval Native) (s : Store) (values : List α) (i : Nat) (stop : Stop) : Prop :=
  ∃ before a after natives s₁ s₂, values = before ++ a :: after ∧ before.length = i ∧
    InTurn f s before natives s₁ ∧ (f a).outcome s₁ = (.error stop, s₂)

theorem InTurn.length_eq {values : List α} {natives : List Native} (h : InTurn f s values natives s') :
    natives.length = values.length := by
  induction h with
  | nil => rfl
  | cons _ _ ih => rw [List.length_cons, List.length_cons, ih]

/-- A loop stops at its first value where that stops. -/
theorem StopsAt.first {a : α} {stop : Stop} (h : (f a).outcome s = (.error stop, s₁)) (rest : List α) :
    StopsAt f s (a :: rest) 0 stop :=
  ⟨[], a, rest, [], s, s₁, rfl, rfl, .nil s, h⟩

/-- A stop in the rest of the loop is one of the whole, a place further on. -/
theorem StopsAt.later {a : α} {native : Native} (h : (f a).outcome s = (.ok native, s₁)) {rest : List α} {i : Nat}
    {stop : Stop} (hrest : StopsAt f (s₁.withInUse (native.held ++ s₁.inUse)) rest i stop) :
    StopsAt f s (a :: rest) (i + 1) stop := by
  obtain ⟨before, b, after, natives, s₂, s₃, rfl, rfl, hbefore, hstop⟩ := hrest
  exact ⟨a :: before, b, after, native :: natives, s₂, s₃, rfl, rfl, .cons h hbefore, hstop⟩

/-- All values are taken, or one of them is the first that stops. -/
theorem inTurn_or_stopsAt (f : α → Eval Native) (values : List α) (s : Store) :
    (∃ natives s', InTurn f s values natives s') ∨ ∃ i stop, StopsAt f s values i stop := by
  induction values generalizing s with
  | nil => exact .inl ⟨[], s, .nil s⟩
  | cons a rest ih =>
    rcases hrun : (f a).outcome s with ⟨stop | native, s₁⟩
    · exact .inr ⟨0, stop, .first hrun rest⟩
    · rcases ih (s₁.withInUse (native.held ++ s₁.inUse)) with ⟨natives, s', hrest⟩ | ⟨i, stop, hrest⟩
      · exact .inl ⟨native :: natives, s', .cons hrun hrest⟩
      · exact .inr ⟨i + 1, stop, .later hrun hrest⟩

/-- A loop that takes values in turn, and says of the one that stops where it is. -/
structure TakesInTurn (f : α → Eval Native) (place : Nat → Stop → Stop) (loop : Nat → List α → Eval (List Native)) :
    Prop where
  nil : ∀ i s, (loop i []).outcome s = (.ok [], s)
  ok : ∀ {i a rest s native s₁}, (f a).outcome s = (.ok native, s₁) →
    (loop i (a :: rest)).outcome s = ((native :: ·) <$> Eval.holding native.held (loop (i + 1) rest)).outcome s₁
  error : ∀ {i a rest s stop s₁}, (f a).outcome s = (.error stop, s₁) →
    (loop i (a :: rest)).outcome s = (.error (place i stop), s₁)

namespace TakesInTurn

variable {place : Nat → Stop → Stop} {loop : Nat → List α → Eval (List Native)}

/-- A loop over values that are all taken gives the natives that they are taken for. -/
theorem outcome_of_inTurn (hloop : TakesInTurn f place loop) {values : List α} {natives : List Native}
    (h : InTurn f s values natives s') (i : Nat) :
    ∃ inUse, (loop i values).outcome s = (.ok natives, s'.withInUse inUse) := by
  induction h generalizing i with
  | nil s => exact ⟨s.inUse, hloop.nil i s⟩
  | @cons s s₁ s' a native rest natives h _ ih =>
    obtain ⟨inUse, hrest⟩ := ih (i + 1)
    refine ⟨s₁.inUse, ?_⟩
    rw [hloop.ok h, Eval.outcome_map, Eval.outcome_holding, hrest]
    rfl

/-- A loop over values of which one stops ends with that stop, placed where it is counted from. -/
theorem outcome_of_stopsAt (hloop : TakesInTurn f place loop) {values : List α} {j : Nat} {stop : Stop}
    (h : StopsAt f s values j stop) (i : Nat) :
    ∃ s', (loop i values).outcome s = (.error (place (i + j) stop), s') := by
  obtain ⟨before, a, after, natives, s₁, s₂, rfl, rfl, hbefore, hstop⟩ := h
  induction hbefore generalizing i with
  | nil s => exact ⟨s₂, hloop.error hstop⟩
  | @cons s s₁ s' b native rest natives h _ ih =>
    obtain ⟨s₃, hrest⟩ := ih (i + 1) hstop
    refine ⟨s₃.withInUse s₁.inUse, ?_⟩
    rw [List.cons_append, hloop.ok h, Eval.outcome_map, Eval.outcome_holding, hrest, List.length_cons,
      Nat.add_right_comm i 1, Nat.add_assoc]
    rfl

/-! A container is made of what the loop gives. -/

section Made

variable (hloop : TakesInTurn f place loop) (make : List Native → NativeObject) {values : List α} {i : Nat}
include hloop

/-- The container takes the next place among the natives and holds what was taken. -/
theorem outcome_made {natives : List Native} (h : InTurn f s values natives s₁) :
    ∃ inUse, (loop i values >>= fun natives => Eval.newNative (make natives)).outcome s =
      (.ok (.object ⟨s₁.natives.size⟩), ((s₁.withInUse inUse).addNative (make natives)).2) := by
  obtain ⟨inUse, hrun⟩ := hloop.outcome_of_inTurn h i
  refine ⟨inUse, ?_⟩
  rw [Eval.outcome_bind_of_ok hrun]
  rfl

/-- It is made exactly where all values are taken. -/
theorem succeedsAt_made_iff :
    (loop i values >>= fun natives => Eval.newNative (make natives)).SucceedsAt s ↔
      ∃ natives s₁, InTurn f s values natives s₁ := by
  refine ⟨fun ⟨n, s', hok⟩ => ?_, fun ⟨natives, s₁, h⟩ => ?_⟩
  · rcases inTurn_or_stopsAt f values s with h | ⟨j, stop, h⟩
    · exact h
    · obtain ⟨s₁, hstop⟩ := hloop.outcome_of_stopsAt h i
      rw [Eval.outcome_bind_of_error hstop] at hok
      cases hok
  · obtain ⟨inUse, hok⟩ := hloop.outcome_made make h (i := i)
    exact ⟨_, _, hok⟩

/-- Otherwise the first value that stops decides how. -/
theorem error_made_iff {stop : Stop} :
    (∃ s', (loop i values >>= fun natives => Eval.newNative (make natives)).outcome s = (.error stop, s')) ↔
      ∃ j first, StopsAt f s values j first ∧ stop = place (i + j) first := by
  refine ⟨fun ⟨s', hs'⟩ => ?_, fun ⟨j, first, h, heq⟩ => ?_⟩
  · rcases inTurn_or_stopsAt f values s with ⟨others, s₁, h⟩ | ⟨j, first, h⟩
    · obtain ⟨inUse, hok⟩ := hloop.outcome_made make h (i := i)
      cases hs'.symm.trans hok
    · obtain ⟨s₁, hstop⟩ := hloop.outcome_of_stopsAt h i
      rw [Eval.outcome_bind_of_error hstop] at hs'
      cases hs'
      exact ⟨j, first, h, rfl⟩
  · obtain ⟨s₁, hstop⟩ := hloop.outcome_of_stopsAt h i
    rw [heq]
    exact ⟨s₁, Eval.outcome_bind_of_error hstop⟩

end Made

end TakesInTurn

/-! ## Elements of script arrays -/

/-- A failed conversion is said to be at a place in a script array; other stops say nothing of places. -/
def Stop.atIndex (i length : Nat) : Stop → Stop
  | .failed (.conversion value target) =>
    .failed (.conversion
      (value ++ " at index " ++ toString i ++ " of script array of length " ++ toString length) target)
  | stop => stop

/-- The path of a failed element names the array by its length. -/
theorem arraySource_eq (length : Nat) :
    " of " ++ ScriptObject.arraySource length = " of script array of length " ++ toString length := by
  have htext : " of " ++ "script array of length " = " of script array of length " := by decide +kernel
  unfold ScriptObject.arraySource
  generalize toString length = digits
  rw [← htext, String.append_assoc]

/-- Only the path of a failure tells that it came from an element. -/
theorem outcome_atElement (i length : Nat) (x : Eval α) (s : Store) :
    (atElement i length x).outcome s = ((x.outcome s).1.mapError (Stop.atIndex i length), (x.outcome s).2) := by
  rw [atElement, Eval.outcome_tryCatch]
  rcases x.outcome s with ⟨stop | a, s₁⟩
  · dsimp only
    split
    · next value target =>
      rw [Eval.outcome_fail, Except.mapError, Stop.atIndex]
      simp only [String.append_assoc, arraySource_eq]
    · next hother =>
      have hkept : stop.atIndex i length = stop := by
        unfold Stop.atIndex
        split
        · next value target => exact absurd rfl (hother value target)
        · rfl
      rw [Eval.outcome_throw, Except.mapError, hkept]
  · rfl

/-- The elements of a script array are converted in turn. -/
theorem takesInTurn_convertElements (f : Script → Eval Native) (length : Nat) :
    TakesInTurn f (fun i => Stop.atIndex i length) (convertElements f length) where
  nil i s := rfl
  ok {i a rest s native s₁} h := by
    have hat : (atElement i length (f a)).outcome s = (.ok native, s₁) := by rw [outcome_atElement, h]; rfl
    rw [convertElements, Eval.outcome_bind_of_ok hat, bind_pure_comp]
  error {i a rest s stop s₁} h := by
    have hat : (atElement i length (f a)).outcome s = (.error (stop.atIndex i length), s₁) := by
      rw [outcome_atElement, h]
      rfl
    rw [convertElements, Eval.outcome_bind_of_error hat]

/-! ## Elements that are kept -/

theorem Native.same_comm (a b : Native) : a.same b = b.same a := by
  have hdouble : ∀ x y : Double, x.equivalent y = y.equivalent x := fun x y => by
    rw [Bool.eq_iff_iff, Double.equivalent_iff, Double.equivalent_iff, eq_comm]
  cases a <;> cases b <;> simp only [same]
  case float.float x y => exact hdouble x.toDouble y.toDouble
  case double.double x y => exact hdouble x y
  all_goals exact Bool.beq_comm

/-- The elements that a collection of a kind keeps: all of them, or those that have no equal before them. -/
def CollectionKind.keeps : CollectionKind → List Native → List Native
  | .list, natives => natives
  | .set, natives => natives.eraseDupsBy Native.same

/-- Elements that are added to a set are compared with those that it holds. -/
theorem NativeList.elements_addAll_set (natives : List Native) (element : Descriptor) (held : List Native) :
    natives.foldl (fun (l : NativeList) v => (l.add v).2) ⟨.set, element, held⟩
      = ⟨.set, element, List.eraseDupsBy.loop Native.same natives held.reverse⟩ := by
  induction natives generalizing held with
  | nil => rw [List.foldl_nil, List.eraseDupsBy.loop, List.reverse_reverse]
  | cons v rest ih =>
    have hcontains : (NativeList.mk .set element held).contains v = held.reverse.any (Native.same v) := by
      rw [List.any_reverse]
      exact congrArg held.any (funext fun w => Native.same_comm w v)
    rw [List.foldl_cons, add, List.eraseDupsBy.loop, hcontains]
    cases held.reverse.any (Native.same v) with
    | true => exact ih held
    | false =>
      have hadded := ih (held ++ [v])
      rw [List.reverse_append] at hadded
      exact hadded

/-- A list keeps all that is added to it, in order. -/
theorem NativeList.elements_addAll_list (natives : List Native) (element : Descriptor) (held : List Native) :
    natives.foldl (fun (l : NativeList) v => (l.add v).2) ⟨.list, element, held⟩ = ⟨.list, element, held ++ natives⟩ := by
  induction natives generalizing held with
  | nil => rw [List.foldl_nil, List.append_nil]
  | cons v rest ih =>
    have hadded := ih (held ++ [v])
    rw [List.append_assoc] at hadded
    exact hadded

/-- **What is kept of the elements that a collection is made of.** -/
theorem NativeList.of_eq (kind : CollectionKind) (element : Descriptor) (natives : List Native) :
    NativeList.of kind element natives = ⟨kind, element, kind.keeps natives⟩ := by
  cases kind with
  | list => exact elements_addAll_list natives element []
  | set => exact elements_addAll_set natives element []

/-! ## Types that take script arrays -/

/-- What a script array becomes. -/
inductive Sequence where
  | array
  | collection (kind : CollectionKind)
  deriving DecidableEq

namespace Sequence

/-- The collection that a standard type stands for; a collection of no particular kind is a list. -/
def ofTypeId? (id : TypeId) : Option Sequence :=
  if id = Standard.list ∨ id = Standard.collection then some (.collection .list)
  else if id = Standard.set then some (.collection .set)
  else none

def keeps : Sequence → List Native → List Native
  | array, natives => natives
  | collection kind, natives => kind.keeps natives

/-- The container of a component or element type that is made of converted elements. -/
def container (q : Sequence) (element : Descriptor) (natives : List Native) : NativeObject :=
  match q with
  | array => .array ⟨element, natives⟩
  | collection kind => .list ⟨kind, element, kind.keeps natives⟩

end Sequence

/-- The types that take script arrays, with what these become and the type of the elements: arrays, and the standard
collections applied to an element type. Without one, elements are not converted. -/
inductive Descriptor.Takes : Descriptor → Sequence → Descriptor → Prop where
  | array (component : Descriptor) : Takes (.array component) .array component
  | parameterized {raw : Descriptor} {id : TypeId} {q : Sequence} (hraw : raw.typeId? = some id)
    (hq : Sequence.ofTypeId? id = some q) (args : List Descriptor) :
    Takes (.parameterized raw args) q (args.getD 0 .unspecified)
  | plain {name : String} {q : Sequence} (hq : Sequence.ofTypeId? (.ofName name) = some q) :
    Takes (.plain name) q .unspecified
  | interface {name : String} {q : Sequence} (hq : Sequence.ofTypeId? (.ofName name) = some q) (functional : Bool) :
    Takes (.interface name functional) q .unspecified

/-- Collections are told by their id, which none of the other standard types has. -/
theorem TypeTable.namedTarget_collection (t : TypeTable) {d : Descriptor} {id : TypeId} (hid : d.typeId? = some id)
    (hcollection : id = Standard.list ∨ id = Standard.set ∨ id = Standard.collection) :
    t.namedTarget d = .collection id (d.argument 0) := by
  have hother : PrimitiveKind.ofTypeId? id = none ∧ id ≠ Standard.object ∧ id ≠ Standard.string ∧
      id ≠ Standard.charSequence ∧ id ≠ Standard.number ∧ id ≠ Standard.class_ := by
    rcases hcollection with rfl | rfl | rfl <;> decide +kernel
  obtain ⟨hprimitive, hobject, hstring, hcharSequence, hnumber, hclass⟩ := hother
  rw [namedTarget, hid]
  dsimp only
  rw [hprimitive]
  dsimp only
  rw [if_neg hobject, if_neg hstring, if_neg hcharSequence, if_neg hnumber, if_neg hclass, if_pos hcollection]

/-- The first type argument of a type, or no type, is what elements are converted to. -/
theorem convert_unspecified_eq : convert .unspecified = asIs :=
  funext fun v => Eval.ext (convert_unspecified v)

/-- The converter of the first part is that of the first argument, or of the unspecified type where there is none. -/
theorem convertAt_zero (args : List Descriptor) : convertAt args 0 = convert (args.getD 0 .unspecified) := by
  cases args with
  | nil =>
    rw [List.getD_nil, convert_unspecified_eq]
    exact funext fun v => by rw [convertAt]
  | cons d args => exact funext fun v => by rw [convertAt]; rfl

/-- What a collection is made of: its kind is the one that was asked for. -/
theorem Sequence.container_ofTypeId? {id : TypeId} {q : Sequence} (hq : ofTypeId? id = some q) (element : Descriptor)
    (natives : List Native) :
    NativeObject.list (.of (kindFor id .list) element natives) = q.container element natives := by
  have hdistinct : Standard.collection ≠ Standard.list ∧ Standard.collection ≠ Standard.set ∧
      Standard.set ≠ Standard.list := by decide +kernel
  obtain ⟨hlist, hset, hsetList⟩ := hdistinct
  rw [NativeList.of_eq]
  unfold ofTypeId? at hq
  split at hq
  · next hid =>
    cases hq
    rcases hid with rfl | rfl
    · rw [kindFor, if_pos rfl]
      rfl
    · rw [kindFor, if_neg hlist, if_neg hset]
      rfl
  · split at hq
    · next hid =>
      cases hq
      rw [hid, kindFor, if_neg hsetList, if_pos rfl]
      rfl
    · cases hq

/-- The sequences are the standard lists, sets and collections. -/
theorem Sequence.isCollection_of_ofTypeId? {id : TypeId} {q : Sequence} (hq : ofTypeId? id = some q) :
    id = Standard.list ∨ id = Standard.set ∨ id = Standard.collection := by
  unfold ofTypeId? at hq
  split at hq
  · next hid => exact hid.imp_right .inr
  · split at hq
    · next hid => exact .inr (.inl hid)
    · cases hq

/-- How a target that takes script arrays makes a container of converted elements. -/
def Target.container? : Target → Option (List Native → NativeObject)
  | .array component => some fun natives => .array ⟨component, natives⟩
  | .collection raw element => some fun natives => .list (.of (kindFor raw .list) element natives)
  | _ => none

/-- Script arrays have a rank for such targets, so their elements are converted. -/
theorem outcome_convertBy_scriptArray {d : Descriptor} {target : Target} (htarget : s.types.targetOf d = .ok target)
    {r : ObjectRef} {elements : List Script} (hr : s.object r = .array elements) (parts : PartConverters)
    {make : List Native → NativeObject} (hmake : target.container? = some make) :
    (convertBy d parts (.object r)).outcome s =
      (convertElements parts.first elements.length 0 elements >>= fun natives =>
        Eval.newNative (make natives)).outcome s := by
  have hunwrap : s.unwrap? (.object r) = none := by rw [Store.unwrap?, hr]; rfl
  have hkind : s.kindOf (.object r) = .scriptArray := by rw [Store.kindOf, hr]; rfl
  have hcontents : (Script.object r).toObject?.map s.object = some (.array elements) := by
    rw [Script.toObject?, Option.map_some, hr]
  have hany : target ≠ .any := by
    rintro rfl
    cases hmake
  -- an array of the script is no proxy, so it is ranked by its kind and converted by its contents
  have hrank : (rankTarget (.object r) target).outcome s = (rankScript .scriptArray target).outcome s := by
    rw [rankTarget_of_generic rfl hunwrap hany, hkind]
  have hgeneric : ∀ failure, (convertGeneric (.object r) target parts failure).outcome s =
      (convertElements parts.first elements.length 0 elements >>= fun natives =>
        Eval.newNative (make natives)).outcome s := by
    intro failure
    rw [convertGeneric, Eval.outcome_get_bind, hcontents]
    cases target <;> cases hmake <;> rfl
  cases target with
  | array component => rw [outcome_convertBy rfl htarget hany hrank rfl, hunwrap, hgeneric]
  | collection raw element => rw [outcome_convertBy rfl htarget hany hrank rfl, hunwrap, hgeneric]
  | _ => cases hmake

/-- **A script array is converted element by element**, and then a container is made. -/
theorem Descriptor.Takes.outcome_convert {d element : Descriptor} {q : Sequence} (hd : d.Takes q element)
    {r : ObjectRef} {elements : List Script} (hr : s.object r = .array elements) :
    (convert d (.object r)).outcome s =
      (convertElements (convert element) elements.length 0 elements >>= fun natives =>
        Eval.newNative (q.container element natives)).outcome s := by
  have hcollection : ∀ {id : TypeId}, Sequence.ofTypeId? id = some q → ∀ element,
      (Target.collection id element).container? = some fun natives => q.container element natives :=
    fun hq element => congrArg some (funext fun natives => Sequence.container_ofTypeId? hq element natives)
  cases hd with
  -- the four forms of a sequence type differ in where the element type stands
  | array =>
    rw [convert]
    exact outcome_convertBy_scriptArray rfl hr _ rfl
  | @parameterized raw id _ hraw hq args =>
    have htarget : s.types.targetOf (.parameterized raw args) = .ok (.collection id (args.getD 0 .unspecified)) :=
      congrArg Except.ok (s.types.namedTarget_collection hraw (Sequence.isCollection_of_ofTypeId? hq))
    rw [convert, outcome_convertBy_scriptArray htarget hr _ (hcollection hq _), convertAt_zero]
  | @plain name _ hq =>
    have htarget : s.types.targetOf (.plain name) = .ok (.collection (.ofName name) .unspecified) :=
      congrArg Except.ok (s.types.namedTarget_collection rfl (Sequence.isCollection_of_ofTypeId? hq))
    rw [convert, outcome_convertBy_scriptArray htarget hr _ (hcollection hq _), convert_unspecified_eq]
    all_goals simp
  | @interface name _ hq functional =>
    have htarget : s.types.targetOf (.interface name functional) = .ok (.collection (.ofName name) .unspecified) :=
      congrArg Except.ok (s.types.namedTarget_collection rfl (Sequence.isCollection_of_ofTypeId? hq))
    rw [convert, outcome_convertBy_scriptArray htarget hr _ (hcollection hq _), convert_unspecified_eq]
    all_goals simp

namespace Descriptor.Takes

variable {d element : Descriptor} {q : Sequence} {r : ObjectRef} {elements : List Script}

/-- Where all elements are converted, a new container holds them. -/
theorem outcome_of_inTurn (hd : d.Takes q element) (hr : s.object r = .array elements) {natives : List Native}
    (h : InTurn (convert element) s elements natives s₁) :
    ∃ inUse, (convert d (.object r)).outcome s =
      (.ok (.object ⟨s₁.natives.size⟩), ((s₁.withInUse inUse).addNative (q.container element natives)).2) := by
  rw [hd.outcome_convert hr]
  exact (takesInTurn_convertElements (convert element) elements.length).outcome_made _ h

/-- An array converts exactly where all its elements do, in turn. -/
theorem succeedsAt_iff (hd : d.Takes q element) (hr : s.object r = .array elements) :
    (convert d (.object r)).SucceedsAt s ↔ ∃ natives s₁, InTurn (convert element) s elements natives s₁ := by
  rw [Eval.SucceedsAt, hd.outcome_convert hr]
  exact (takesInTurn_convertElements (convert element) elements.length).succeedsAt_made_iff _

/-- Where one is not, it is the first that is not which stops the conversion. -/
theorem error_iff (hd : d.Takes q element) (hr : s.object r = .array elements) {stop : Stop} :
    (∃ s', (convert d (.object r)).outcome s = (.error stop, s')) ↔
      ∃ i first, StopsAt (convert element) s elements i first ∧ stop = first.atIndex i elements.length := by
  rw [hd.outcome_convert hr]
  refine ((takesInTurn_convertElements (convert element) elements.length).error_made_iff _ (i := 0)).trans ?_
  simp only [Nat.zero_add]

/-- Elements have smaller types. -/
theorem sizeOf_lt (hd : d.Takes q element) : sizeOf element < sizeOf d := by
  cases hd with
  | array => simp
  | @parameterized raw _ _ _ _ args =>
    cases args with
    | nil => simp
    | cons first args =>
      simp
      omega
  | @plain name =>
    cases name
    simp
  | interface => simp

end Descriptor.Takes

/-! ## Nested arrays -/

/-- Every array on the way says at which place in it a conversion failed, the innermost first. -/
def Stop.along (path : List (Nat × Nat)) (stop : Stop) : Stop :=
  path.foldr (fun place stop => stop.atIndex place.1 place.2) stop

/-- A script array, and a type that takes script arrays. -/
def Store.Fills (s : Store) (d : Descriptor) (v : Script) : Prop :=
  ∃ q element r elements, d.Takes q element ∧ v = .object r ∧ s.object r = .array elements

/-- The way to what cannot be converted: at each array the place of the first element that cannot be, and the length of
the array; at its end something that is no array, or is not taken as one, and why it cannot be converted. -/
inductive FailsAlong : Store → Descriptor → Script → List (Nat × Nat) → Stop → Prop where
  | here {s s' : Store} {d : Descriptor} {v : Script} {stop : Stop} (hv : ¬ s.Fills d v)
    (h : (convert d v).outcome s = (.error stop, s')) : FailsAlong s d v [] stop
  | inside {s s₁ : Store} {d element : Descriptor} {q : Sequence} {r : ObjectRef} {before after : List Script}
    {v : Script} {natives : List Native} {path : List (Nat × Nat)} {stop : Stop} (hd : d.Takes q element)
    (hr : s.object r = .array (before ++ v :: after)) (hbefore : InTurn (convert element) s before natives s₁)
    (h : FailsAlong s₁ element v path stop) :
    FailsAlong s d (.object r) ((before.length, (before ++ v :: after).length) :: path) stop

/-- A failure that goes down along a path is reported with all of the path. -/
theorem FailsAlong.outcome {d : Descriptor} {v : Script} {path : List (Nat × Nat)} {stop : Stop}
    (h : FailsAlong s d v path stop) : ∃ s', (convert d v).outcome s = (.error (stop.along path), s') := by
  induction h with
  | here _ h => exact ⟨_, h⟩
  | inside hd hr hbefore _ ih =>
    obtain ⟨s', hstop⟩ := ih
    exact (hd.error_iff hr).mpr ⟨_, _, ⟨_, _, _, _, _, _, rfl, rfl, hbefore, hstop⟩, rfl⟩

/-- Every conversion that stops has such a way. -/
theorem exists_failsAlong (d : Descriptor) {v : Script} {s s' : Store} {stop : Stop}
    (h : (convert d v).outcome s = (.error stop, s')) :
    ∃ path first, FailsAlong s d v path first ∧ stop = first.along path := by
  by_cases hfills : s.Fills d v
  · obtain ⟨q, element, r, elements, hd, rfl, hr⟩ := hfills
    obtain ⟨i, next, ⟨before, v, after, natives, s₁, s₂, rfl, rfl, hbefore, hnext⟩, rfl⟩ :=
      (hd.error_iff hr).mp ⟨s', h⟩
    -- the element is converted to a smaller type
    have := hd.sizeOf_lt
    obtain ⟨path, first, hfirst, rfl⟩ := exists_failsAlong element hnext
    exact ⟨_ :: path, first, .inside hd hr hbefore hfirst, rfl⟩
  · exact ⟨[], stop, .here hfills h, rfl⟩
termination_by sizeOf d

/-! ## Reading back -/

/-- Whatever type it is shown under, script code reads the length of a container, at each place below it the element as
one of the element type, and nothing past it. -/
def Store.ShowsElements (s : Store) (ref : NativeRef) (element : Descriptor) (kept : List Native) : Prop :=
  ∀ (shown : Descriptor) (n : Nat), ∃ p, (s.wrap (.object ref) shown).1 = .object p ∧
    let s₁ := (s.wrap (.object ref) shown).2
    (getProperty (n + 1) p (.name "length")).outcome s₁ = (.ok (some (.number (.ofNat kept.length))), s₁) ∧
    ∀ i, (getProperty (n + 1) p (.index i)).outcome s₁ =
      match kept[i]? with
      | some v => (.ok (some (s₁.wrap v element).1), (s₁.wrap v element).2)
      | none => (.ok none, s₁)

theorem Store.showsElements_array {ref : NativeRef} {a : NativeArray} (h : s.native ref = .array a) :
    s.ShowsElements ref a.component a.elements := by
  intro shown n
  have hwrap : s.wrap (.object ref) shown = s.addProxy .ofArray (.object ref) a.component := by
    rw [wrap, wrapObject, h]
  have hnative : (s.addProxy .ofArray (.object ref) a.component).2.native ref = .array a := h
  have harray : (s.addProxy .ofArray (.object ref) a.component).2.array? (.object ref) = some a := by
    simp only [array?, hnative]
  rw [hwrap]
  refine ⟨⟨s.objects.size⟩, rfl, ?_, fun i => ?_⟩
  · rw [getProperty, Eval.outcome_get_bind, object_addProxy]
    dsimp only
    rw [harray]
    rfl
  · rw [getProperty, Eval.outcome_get_bind, object_addProxy]
    dsimp only
    rw [harray, Option.bind_some]
    cases a.elements[i]? <;> rfl

theorem Store.showsElements_list {ref : NativeRef} {l : NativeList} (h : s.native ref = .list l) :
    s.ShowsElements ref l.elementType l.elements := by
  intro shown n
  have hwrap : s.wrap (.object ref) shown = s.addProxy .ofList (.object ref) shown := by
    rw [wrap, wrapObject, h]
  have hnative : (s.addProxy .ofList (.object ref) shown).2.native ref = .list l := h
  have hlist : (s.addProxy .ofList (.object ref) shown).2.list? (.object ref) = some l := by
    simp only [list?, hnative]
  rw [hwrap]
  refine ⟨⟨s.objects.size⟩, rfl, ?_, fun i => ?_⟩
  · rw [getProperty, Eval.outcome_get_bind, object_addProxy]
    dsimp only
    rw [hlist]
    rfl
  · rw [getProperty, Eval.outcome_get_bind, object_addProxy]
    dsimp only
    rw [hlist]
    dsimp only
    cases l.elements[i]? <;> rfl

/-- A container that was made from natives shows those that it keeps. -/
theorem Sequence.showsElements (q : Sequence) {element : Descriptor} {natives : List Native} {ref : NativeRef}
    (h : s.native ref = q.container element natives) : s.ShowsElements ref element (q.keeps natives) := by
  cases q with
  | array => exact Store.showsElements_array h
  | collection kind => exact Store.showsElements_list h

/-- **Script arrays are converted element by element.** For every type that takes script arrays, and for every script
array,
* conversion succeeds exactly where all elements are converted, in turn, to the element type;
* then the result is a new container of that element type and of the kind that was asked for, which holds the converted
  elements in order, a set without those that have an equal before them, and script code reads them back;
* otherwise it stops as the first element does that stops, a failed conversion with its place in the array;
* and in arrays of arrays each of them adds its own place. -/
theorem convert_scriptArray {d element : Descriptor} {q : Sequence} (hd : d.Takes q element) {s : Store}
    {r : ObjectRef} {elements : List Script} (hr : s.object r = .array elements) :
    ((convert d (.object r)).SucceedsAt s ↔ ∃ natives s₁, InTurn (convert element) s elements natives s₁) ∧
    (∀ natives s₁, InTurn (convert element) s elements natives s₁ → natives.length = elements.length ∧
      ∃ ref s₂, (convert d (.object r)).outcome s = (.ok (.object ref), s₂) ∧ ref = ⟨s₁.natives.size⟩ ∧
        s₂.native ref = q.container element natives ∧ s₂.ShowsElements ref element (q.keeps natives)) ∧
    (∀ stop, (∃ s₁, (convert d (.object r)).outcome s = (.error stop, s₁)) ↔
      ∃ i first, StopsAt (convert element) s elements i first ∧ stop = first.atIndex i elements.length) ∧
    (∀ stop, (∃ s₁, (convert d (.object r)).outcome s = (.error stop, s₁)) ↔
      ∃ path first, FailsAlong s d (.object r) path first ∧ stop = first.along path) := by
  refine ⟨hd.succeedsAt_iff hr, fun natives s₁ h => ⟨h.length_eq, ?_⟩, fun stop => hd.error_iff hr,
    fun stop => ⟨fun ⟨s₁, h⟩ => exists_failsAlong d h, ?_⟩⟩
  · obtain ⟨inUse, hok⟩ := hd.outcome_of_inTurn hr h
    have hmade := (s₁.withInUse inUse).native_addNative (q.container element natives)
    exact ⟨_, _, hok, rfl, hmade, q.showsElements hmade⟩
  · rintro ⟨path, first, h, rfl⟩
    exact h.outcome

/-- Some words with one of them twice, and two rows of which the second has something that is no truth value. -/
def Store.rows : Store :=
  { Store.standard {} false with
    objects := #[.array [.string "a", .string "b", .string "a"], .array [.object ⟨2⟩, .object ⟨3⟩],
      .array [.boolean true], .array [.boolean true, .string "no"]] }

/-- The words become a set of two, and the rows say where they cannot be converted. -/
theorem convert_scriptArray_rows :
    (∃ natives s₁ ref s₂, InTurn (convert .string) .rows [.string "a", .string "b", .string "a"] natives s₁ ∧
      (convert (.parameterized (.interface "host.Set" false) [.string]) (.object ⟨0⟩)).outcome .rows
        = (.ok (.object ref), s₂) ∧
      s₂.native ref = .list ⟨.set, .string, natives.eraseDupsBy Native.same⟩) ∧
    ∃ path first, FailsAlong .rows (.array (.array .boolean)) (.object ⟨1⟩) path first ∧
      first.along path = .failed (.conversion
        "\"no\" at index 1 of script array of length 2 at index 1 of script array of length 2" "boolean") := by
  have hraw : (Descriptor.interface "host.Set" false).typeId? = some Standard.set := rfl
  have hset : Descriptor.Takes (.parameterized (.interface "host.Set" false) [.string]) (.collection .set) .string :=
    .parameterized hraw (by decide +kernel) [.string]
  obtain ⟨hsucceeds, hmade, -⟩ := convert_scriptArray hset (s := .rows) (r := ⟨0⟩) rfl
  obtain ⟨-, -, -, hfails⟩ := convert_scriptArray (.array (.array .boolean)) (s := .rows) (r := ⟨1⟩) rfl
  constructor
  · obtain ⟨natives, s₁, h⟩ := hsucceeds.mp (.of_toOption (a := .object ⟨0⟩) (by decide +kernel))
    obtain ⟨-, ref, s₂, hok, -, hnative, -⟩ := hmade natives s₁ h
    exact ⟨natives, s₁, ref, s₂, h, hok, hnative⟩
  · have hstop : ((convert (.array (.array .boolean)) (.object ⟨1⟩)).outcome .rows).1 = .error (.failed (.conversion
        "\"no\" at index 1 of script array of length 2 at index 1 of script array of length 2" "boolean")) := by
      decide +kernel
    obtain ⟨path, first, h, heq⟩ := (hfails _).mp ⟨_, Prod.ext hstop rfl⟩
    exact ⟨path, first, h, heq.symm⟩

end Interop
