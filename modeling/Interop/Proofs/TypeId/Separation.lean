import Mathlib.Logic.Function.Basic
import Interop.Store.Basic

/-!
# Composite ids tell their parts apart

An id is mixed from words by steps that each can be undone: a xor with a fixed word, the addition of a word, and the
multiplication by the separator, which is odd. One part that changes therefore changes the word behind it, and every
later step carries the change through to the end, however many parts follow. Two parts that change at once may cancel
out, so nothing is said of those.

* **`mul_separator_injective`**: the separator can be undone.
* **`mixFrom_injective`**, **`mixFrom_part_injective`**: mixing keeps the word that it starts from and every single
  part apart.
* **`argumentClass?_list`**, **`argumentClass?_map`**: the classes under which resolutions are remembered.
* **`compositeIds_separate`**: what this says of ids, and of the classes of lists and maps.
-/

namespace Interop

namespace TypeId

/-! ## Steps that can be undone -/

/-- The word that undoes the separator. -/
def separatorInverse : UInt64 := 0xd3f20f0a40208825

/-- The separator is odd, so it has an inverse among words. -/
theorem separator_mul_inverse : separator * separatorInverse = 1 := by decide

/-- Multiplication by it therefore loses nothing. -/
theorem mul_separator_injective : Function.Injective (· * separator) := by
  intro a b h
  have hundone : a * separator * separatorInverse = b * separator * separatorInverse := congrArg (· * separatorInverse) h
  rwa [UInt64.mul_assoc, UInt64.mul_assoc, separator_mul_inverse, UInt64.mul_one, UInt64.mul_one] at hundone

theorem word_injective : Function.Injective word := by
  rintro ⟨a⟩ ⟨b⟩ rfl
  rfl

/-! ## Mixing -/

/-- Different words to start from are kept apart by all parts that follow. -/
theorem mixFrom_injective (i : Nat) (parts : List TypeId) : Function.Injective fun word => mixFrom i word parts := by
  induction parts generalizing i with
  | nil => exact fun _ _ h => h
  | cons part rest ih =>
    intro a b h
    have hmixed : a * separator + (positionMark i ^^^ part.word) = b * separator + (positionMark i ^^^ part.word) :=
      ih (i + 1) h
    exact mul_separator_injective ((UInt64.add_left_inj _).mp hmixed)

/-- Mixing in two lists is mixing in the first and then the second, whose places go on from there. -/
theorem mixFrom_append (i : Nat) (word : UInt64) (before behind : List TypeId) :
    mixFrom i word (before ++ behind) = mixFrom (i + before.length) (mixFrom i word before) behind := by
  induction before generalizing i word with
  | nil => rfl
  | cons part rest ih =>
    rw [List.cons_append, mixFrom, ih, mixFrom, List.length_cons, Nat.add_right_comm, Nat.add_assoc]

/-- **A single part is kept apart**, whatever stands before it and behind it. -/
theorem mixFrom_part_injective (i : Nat) (word : UInt64) (before behind : List TypeId) :
    Function.Injective fun part => mixFrom i word (before ++ part :: behind) := by
  intro a b h
  simp only [mixFrom_append, mixFrom] at h
  have hadded := mixFrom_injective _ behind h
  have hmarked := (UInt64.add_right_inj _).mp hadded
  exact word_injective ((UInt64.xor_right_inj _).mp hmarked)

/-! ## Composite ids -/

/-- Arrays of different components have different ids. -/
theorem ofArray_injective : Function.Injective ofArray := by
  intro a b h
  have hmarked := mul_separator_injective (congrArg word h)
  exact word_injective ((UInt64.xor_right_inj _).mp hmarked)

/-- With the arguments fixed, the id tells raw types apart. -/
theorem ofParameterized_raw_injective (args : List TypeId) :
    Function.Injective fun raw => ofParameterized raw args := by
  intro a b h
  exact word_injective (mixFrom_injective 0 args (congrArg word h))

/-- With everything else fixed, it tells each argument apart. -/
theorem ofParameterized_arg_injective (raw : TypeId) (before behind : List TypeId) :
    Function.Injective fun arg => ofParameterized raw (before ++ arg :: behind) := by
  intro a b h
  exact mixFrom_part_injective 0 raw.word before behind (congrArg word h)

theorem ofSignature_param_injective (name : String) (before behind : List TypeId) :
    Function.Injective fun param => ofSignature name (before ++ param :: behind) := by
  intro a b h
  exact mixFrom_part_injective 0 (signatureMark ^^^ Digest.ofText name) before behind (congrArg word h)

end TypeId

/-! ## Classes of containers

The class of an argument is what an overload set remembers a resolution under. -/

/-- The id of a type, that of the root type where it has none. -/
def Descriptor.idOrRoot (d : Descriptor) : TypeId := d.typeId?.getD Standard.object

namespace Store

variable {s : Store} {v : Script}

/-- The class of an argument behind which there is a native object is the exact one of the object. -/
theorem argumentClass?_of_native {r : NativeRef} (hv : s.unwrap? v = some (.object r)) :
    s.argumentClass? v = some (s.native r).exactTypeId := by
  cases v with
  | object ref =>
    rw [unwrap?] at hv
    rw [argumentClass?]
    cases hobject : s.object ref with
    | proxy p =>
      rw [hobject] at hv
      have hvalue : p.value = .object r := Option.some.inj hv
      dsimp only
      rw [hvalue]
    | plain | array =>
      rw [hobject] at hv
      cases hv
  | _ => cases hv

/-- A script value behind which there is a list. -/
def PassesList (s : Store) (v : Script) (l : NativeList) : Prop := ∃ n, s.unwrap? v = some n ∧ s.list? n = some l

/-- A script value behind which there is a map. -/
def PassesMap (s : Store) (v : Script) (m : NativeMap) : Prop := ∃ n, s.unwrap? v = some n ∧ s.map? n = some m

theorem argumentClass?_list {l : NativeList} (h : s.PassesList v l) : s.argumentClass? v = some l.exactTypeId := by
  obtain ⟨n, hv, hn⟩ := h
  cases n with
  | object r =>
    rw [argumentClass?_of_native hv]
    cases hnative : s.native r with
    | list l' =>
      rw [list?, hnative] at hn
      obtain rfl : l' = l := Option.some.inj hn
      rfl
    | _ => simp [list?, hnative] at hn
  | _ => cases hn

theorem argumentClass?_map {m : NativeMap} (h : s.PassesMap v m) : s.argumentClass? v = some m.exactTypeId := by
  obtain ⟨n, hv, hn⟩ := h
  cases n with
  | object r =>
    rw [argumentClass?_of_native hv]
    cases hnative : s.native r with
    | map m' =>
      rw [map?, hnative] at hn
      obtain rfl : m' = m := Option.some.inj hn
      rfl
    | _ => simp [map?, hnative] at hn
  | _ => cases hn

end Store

/-- Lists of one kind have one class exactly if their element types have one id. -/
theorem NativeList.exactTypeId_eq_iff {l m : NativeList} (hkind : l.kind = m.kind) :
    l.exactTypeId = m.exactTypeId ↔ l.elementType.idOrRoot = m.elementType.idOrRoot := by
  show TypeId.ofParameterized l.kind.typeId [l.elementType.idOrRoot]
    = TypeId.ofParameterized m.kind.typeId [m.elementType.idOrRoot] ↔ _
  rw [hkind]
  exact (TypeId.ofParameterized_arg_injective m.kind.typeId [] []).eq_iff

/-- Maps with one id for their key types have one class exactly if their value types have one id. -/
theorem NativeMap.exactTypeId_eq_iff_value {l m : NativeMap} (hkey : l.keyType.idOrRoot = m.keyType.idOrRoot) :
    l.exactTypeId = m.exactTypeId ↔ l.valueType.idOrRoot = m.valueType.idOrRoot := by
  show TypeId.ofParameterized Standard.map ([l.keyType.idOrRoot] ++ [l.valueType.idOrRoot])
    = TypeId.ofParameterized Standard.map ([m.keyType.idOrRoot] ++ [m.valueType.idOrRoot]) ↔ _
  rw [hkey]
  exact (TypeId.ofParameterized_arg_injective Standard.map [m.keyType.idOrRoot] []).eq_iff

/-- With equal value types, exact types of maps are told apart by their key types. -/
theorem NativeMap.exactTypeId_eq_iff_key {l m : NativeMap} (hvalue : l.valueType.idOrRoot = m.valueType.idOrRoot) :
    l.exactTypeId = m.exactTypeId ↔ l.keyType.idOrRoot = m.keyType.idOrRoot := by
  show TypeId.ofParameterized Standard.map ([] ++ l.keyType.idOrRoot :: [l.valueType.idOrRoot])
    = TypeId.ofParameterized Standard.map ([] ++ m.keyType.idOrRoot :: [m.valueType.idOrRoot]) ↔ _
  rw [hvalue]
  exact (TypeId.ofParameterized_arg_injective Standard.map [] [m.valueType.idOrRoot]).eq_iff

/-- **Composite ids tell their parts apart.** Array types over different components have different ids. So have a
generic type under two raw ids, with two arguments at one place, and a signature with two parameters at one place, all
else being equal and however many parts there are. The class of a list differs from that of another list of its kind
if their element types differ, and the class of a map from that of another map if either their key types or their value
types differ, but not both; these are the classes under which resolutions are remembered. -/
theorem compositeIds_separate :
    Function.Injective TypeId.ofArray ∧
      (∀ args, Function.Injective fun raw => TypeId.ofParameterized raw args) ∧
      (∀ raw before behind, Function.Injective fun arg => TypeId.ofParameterized raw (before ++ arg :: behind)) ∧
      (∀ name before behind, Function.Injective fun param => TypeId.ofSignature name (before ++ param :: behind)) ∧
      (∀ l m : NativeList, l.kind = m.kind → l.elementType.idOrRoot ≠ m.elementType.idOrRoot →
        l.exactTypeId ≠ m.exactTypeId) ∧
      (∀ l m : NativeMap, (l.keyType.idOrRoot ≠ m.keyType.idOrRoot ↔ l.valueType.idOrRoot = m.valueType.idOrRoot) →
        l.exactTypeId ≠ m.exactTypeId) ∧
      ∀ (s : Store) (v : Script), (∀ l, s.PassesList v l → s.argumentClass? v = some l.exactTypeId) ∧
        ∀ m, s.PassesMap v m → s.argumentClass? v = some m.exactTypeId := by
  refine ⟨TypeId.ofArray_injective, TypeId.ofParameterized_raw_injective, TypeId.ofParameterized_arg_injective,
    TypeId.ofSignature_param_injective, fun l m hkind helement => ?_, fun l m hone => ?_, fun s v =>
    ⟨fun l => Store.argumentClass?_list, fun m => Store.argumentClass?_map⟩⟩
  · exact mt (NativeList.exactTypeId_eq_iff hkind).mp helement
  · by_cases hvalue : l.valueType.idOrRoot = m.valueType.idOrRoot
    · exact mt (NativeMap.exactTypeId_eq_iff_key hvalue).mp (hone.mpr hvalue)
    · have hkey : l.keyType.idOrRoot = m.keyType.idOrRoot := by
        by_contra hdiffer
        exact hvalue (hone.mp hdiffer)
      exact mt (NativeMap.exactTypeId_eq_iff_value hkey).mp hvalue

section Containers

-- ids are compared as they stand; unfolding one means computing a digest
attribute [local irreducible] TypeId.ofName

/-- A set of strings and a set without an element type, and maps of strings to integers of two widths, behind proxies. -/
def Store.containers : Store :=
  { natives := #[.list ⟨.set, .string, []⟩, .list ⟨.set, .unspecified, []⟩,
      .map ⟨.string, .numeric .int, [], []⟩, .map ⟨.string, .numeric .long, [], []⟩]
    objects := #[.proxy ⟨.ofList, .object ⟨0⟩, .string, none⟩, .proxy ⟨.ofList, .object ⟨1⟩, .object, none⟩,
      .proxy ⟨.ofMap, .object ⟨2⟩, .object, none⟩, .proxy ⟨.ofMap, .object ⟨3⟩, .object, none⟩] }

/-- Arguments that are such containers have classes of their own. -/
theorem compositeIds_separate_containers :
    Store.containers.argumentClass? (.object ⟨0⟩) ≠ Store.containers.argumentClass? (.object ⟨1⟩) ∧
      Store.containers.argumentClass? (.object ⟨2⟩) ≠ Store.containers.argumentClass? (.object ⟨3⟩) := by
  obtain ⟨-, -, -, -, hlists, hmaps, hclasses⟩ := compositeIds_separate
  constructor
  · have helement : Descriptor.string.idOrRoot ≠ Descriptor.unspecified.idOrRoot := by decide +kernel
    rw [(hclasses _ _).1 ⟨.set, .string, []⟩ ⟨.object ⟨0⟩, rfl, rfl⟩,
      (hclasses _ _).1 ⟨.set, .unspecified, []⟩ ⟨.object ⟨1⟩, rfl, rfl⟩]
    exact mt Option.some.inj (hlists _ _ rfl helement)
  · have hvalue : (Descriptor.numeric .int).idOrRoot ≠ (Descriptor.numeric .long).idOrRoot := by decide +kernel
    rw [(hclasses _ _).2 ⟨.string, .numeric .int, [], []⟩ ⟨.object ⟨2⟩, rfl, rfl⟩,
      (hclasses _ _).2 ⟨.string, .numeric .long, [], []⟩ ⟨.object ⟨3⟩, rfl, rfl⟩]
    exact mt Option.some.inj (hmaps _ _ ⟨fun h => absurd rfl h, fun h => absurd h hvalue⟩)

end Containers

end Interop
