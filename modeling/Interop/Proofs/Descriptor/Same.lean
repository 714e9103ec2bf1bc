import Interop.Descriptor.Basic

/-!
# Sameness of descriptors

`Descriptor.same` ignores functional flags and compares number literals as values, so it is coarser than
equality. `Descriptor.canonical` picks one descriptor of each class: it clears every functional flag and takes one
not-a-number for all and one zero for both. Two descriptors are the same exactly when their canonical forms are
equal (`same_iff`), which makes sameness an equivalence relation, and everything that assignability reads off a
descriptor can be read off its canonical form:

* **`Double.equivalent_iff`**, **`Descriptor.same_iff`**: sameness is equality of canonical forms.
* **`Descriptor.typeId?_canonical`**, **`erase_canonical`**, **`primitiveKind?_canonical`**: ids, erasures and
  primitive kinds survive.
* **`Descriptor.typeId?_erase`**, **`erase_erase`**: erasing keeps the id, and erasing again changes nothing.
-/

namespace Interop

/-! ## Doubles

All not-a-numbers are equivalent and the two zeros are. The one thing to check is that no pattern is both a zero
and a not-a-number. -/

namespace Double

/-- One double for all that are equivalent to it. -/
def canonical (x : Double) : Double := if x.isNaN then nan else if x.isZero then zero else x

/-- A zero of either sign is a number. -/
theorem isNaN_of_isZero {x : Double} (h : x.isZero = true) : x.isNaN = false := by
  have hand : x.bits &&& 0x7fffffffffffffff = 0 := by simpa [isZero] using h
  have hmod : x.bits.toNat % 2 ^ 63 = 0 := by
    have hnat := congrArg UInt64.toNat hand
    rw [UInt64.toNat_and] at hnat
    rw [show (0x7fffffffffffffff : UInt64).toNat = 2 ^ 63 - 1 from rfl, Nat.and_two_pow_sub_one_eq_mod] at hnat
    simpa using hnat
  -- only the sign bit is left, so the exponent field is zero
  have hexp : x.bits.toNat / 2 ^ Format.binary64.fractionBits % 2 ^ Format.binary64.exponentBits = 0 := by
    show x.bits.toNat / 2 ^ 52 % 2 ^ 11 = 0
    omega
  simp only [isNaN, datum, Format.decode]
  rw [if_neg (by rw [hexp]; decide), if_pos hexp]
  rfl

theorem isNaN_nan : nan.isNaN = true := by decide

theorem isNaN_zero : zero.isNaN = false := isNaN_of_isZero (by decide)

/-- Spelling out the one number that is no number again changes nothing. -/
@[simp] theorem canonical_canonical (x : Double) : x.canonical.canonical = x.canonical := by
  by_cases hx : x.isNaN = true
  · simp [canonical, hx, isNaN_nan]
  · by_cases hz : x.isZero = true
    · simp [canonical, hx, hz, isNaN_zero, show zero.isZero = true by decide]
    · simp [canonical, hx, hz]

theorem eq_of_bits {x y : Double} (h : x.bits = y.bits) : x = y := by
  cases x; cases y; simpa using h

/-- The zeros are equivalent to zero, the not-a-numbers to each other, and every other double to itself only. -/
theorem equivalent_iff {x y : Double} : x.equivalent y = true ↔ x.canonical = y.canonical := by
  simp only [equivalent, sameValue, canonical, Bool.or_eq_true, Bool.and_eq_true, Bool.not_eq_true', beq_iff_eq]
  by_cases hx : x.isNaN = true <;> by_cases hy : y.isNaN = true
  · simp [hx, hy]
  · -- a number is equivalent to no not-a-number
    have hne : nan ≠ if y.isZero = true then zero else y := by
      intro h
      have hnan := congrArg isNaN h
      rw [isNaN_nan] at hnan
      split at hnan
      · rw [isNaN_zero] at hnan; cases hnan
      · exact hy hnan.symm
    simp [hx, hy, hne]
  · -- the same the other way round
    have hne : (if x.isZero = true then zero else x) ≠ nan := by
      intro h
      have hnan := congrArg isNaN h
      rw [isNaN_nan] at hnan
      split at hnan
      · rw [isNaN_zero] at hnan; cases hnan
      · exact hx hnan
    have hbits : ¬ x.bits = y.bits := by
      intro h
      exact hx (eq_of_bits h ▸ hy)
    have hzero : ¬ y.isZero = true := by
      intro h
      rw [isNaN_of_isZero h] at hy; cases hy
    simp [hx, hy, hne, hbits, hzero]
  · -- two numbers: the zeros are equivalent, and all others only to themselves
    by_cases hzx : x.isZero = true <;> by_cases hzy : y.isZero = true
    · simp [hx, hy, hzx, hzy]
    · have hbits : ¬ x.bits = y.bits := fun h => hzy (eq_of_bits h ▸ hzx)
      have hne : zero ≠ y := fun h => hzy (h ▸ by decide)
      simp [hx, hy, hzx, hzy, hbits, hne]
    · have hbits : ¬ x.bits = y.bits := fun h => hzx (eq_of_bits h ▸ hzy)
      have hne : x ≠ zero := fun h => hzx (h ▸ by decide)
      simp [hx, hy, hzx, hzy, hbits, hne]
    · simp only [hx, hy, hzx, hzy, Bool.false_eq_true, if_false]
      exact ⟨fun h => eq_of_bits (by simpa using h), fun h => by simp [h]⟩

end Double

namespace Descriptor

/-! ## Canonical descriptors -/

mutual

/-- One descriptor for all that are the same: functional flags cleared, number literals canonical. -/
def canonical : Descriptor → Descriptor
  | array c => array c.canonical
  | parameterized raw args => parameterized raw.canonical (canonicalAll args)
  | interface name _ => interface name false
  | typeVar v bound => typeVar v bound.canonical
  | numberLiteral x => numberLiteral x.canonical
  | union members => union (canonicalAll members)
  | objectShape fields => objectShape (canonicalFields fields)
  | functionShape params result => functionShape (canonicalAll params) result.canonical
  | d => d

def canonicalAll : List Descriptor → List Descriptor
  | [] => []
  | d :: ds => d.canonical :: canonicalAll ds

def canonicalFields : List (String × Descriptor) → List (String × Descriptor)
  | [] => []
  | (name, d) :: fields => (name, d.canonical) :: canonicalFields fields

end

mutual

/-- Two descriptors are the same exactly when their canonical forms are equal. -/
theorem same_iff : (a b : Descriptor) → (same a b = true ↔ a.canonical = b.canonical)
  | unspecified, b => by cases b <;> simp [same, canonical]
  | plain _, b => by cases b <;> simp [same, canonical]
  | array c, b => by
    cases b with
    | array c' => simp [same, canonical, same_iff c c']
    | _ => simp [same, canonical]
  | parameterized raw args, b => by
    cases b with
    | parameterized raw' args' => simp [same, canonical, same_iff raw raw', sameAll_iff args args']
    | _ => simp [same, canonical]
  | enumeration _, b => by cases b <;> simp [same, canonical]
  | interface _ _, b => by cases b <;> simp [same, canonical]
  | typeVar v bound, b => by
    cases b with
    | typeVar w bound' => simp [same, canonical, same_iff bound bound']
    | _ => simp [same, canonical]
  | stringLiteral _, b => by cases b <;> simp [same, canonical]
  | numberLiteral x, b => by
    cases b with
    | numberLiteral y => simp [same, canonical, Double.equivalent_iff]
    | _ => simp [same, canonical]
  | booleanLiteral _, b => by cases b <;> simp [same, canonical]
  | union members, b => by
    cases b with
    | union members' => simp [same, canonical, sameAll_iff members members']
    | _ => simp [same, canonical]
  | objectShape fields, b => by
    cases b with
    | objectShape fields' => simp [same, canonical, sameFields_iff fields fields']
    | _ => simp [same, canonical]
  | functionShape params result, b => by
    cases b with
    | functionShape params' result' =>
      simp [same, canonical, sameAll_iff params params', same_iff result result']
    | _ => simp [same, canonical]

/-- Two lists are equal where they are spelled out alike, place by place. -/
theorem sameAll_iff : (as bs : List Descriptor) → (sameAll as bs = true ↔ canonicalAll as = canonicalAll bs)
  | [], bs => by cases bs <;> simp [sameAll, canonicalAll]
  | a :: as, [] => by simp [sameAll, canonicalAll]
  | a :: as, b :: bs => by simp [sameAll, canonicalAll, same_iff a b, sameAll_iff as bs]

theorem sameFields_iff : (as bs : List (String × Descriptor)) →
    (sameFields as bs = true ↔ canonicalFields as = canonicalFields bs)
  | [], bs => by cases bs <;> simp [sameFields, canonicalFields]
  | (m, a) :: as, [] => by simp [sameFields, canonicalFields]
  | (m, a) :: as, (n, b) :: bs => by
    simp [sameFields, canonicalFields, same_iff a b, sameFields_iff as bs]

end

mutual

/-- A type that is spelled out stays as it is. -/
@[simp] theorem canonical_canonical : (d : Descriptor) → d.canonical.canonical = d.canonical
  | array c => by simp [canonical, canonical_canonical c]
  | parameterized raw args => by simp [canonical, canonical_canonical raw, canonicalAll_canonicalAll args]
  | typeVar _ bound => by simp [canonical, canonical_canonical bound]
  | union members => by simp [canonical, canonicalAll_canonicalAll members]
  | objectShape fields => by simp [canonical, canonicalFields_canonicalFields fields]
  | functionShape params result => by
    simp [canonical, canonicalAll_canonicalAll params, canonical_canonical result]
  | unspecified | plain _ | enumeration _ | interface _ _ | stringLiteral _ | numberLiteral _
  | booleanLiteral _ => by simp [canonical]

theorem canonicalAll_canonicalAll : (ds : List Descriptor) → canonicalAll (canonicalAll ds) = canonicalAll ds
  | [] => by simp [canonicalAll]
  | d :: ds => by simp [canonicalAll, canonical_canonical d, canonicalAll_canonicalAll ds]

theorem canonicalFields_canonicalFields : (fields : List (String × Descriptor)) →
    canonicalFields (canonicalFields fields) = canonicalFields fields
  | [] => by simp [canonicalFields]
  | (_, d) :: fields => by
    simp [canonicalFields, canonical_canonical d, canonicalFields_canonicalFields fields]

end

/-- Types are equal where they are spelled out alike, which is how the equality test becomes an equation. -/
theorem beq_iff {a b : Descriptor} : (a == b) = true ↔ a.canonical = b.canonical := same_iff a b

/-- The equality test is symmetric, since equations are. -/
theorem beq_comm (a b : Descriptor) : (a == b) = (b == a) := by
  rw [Bool.eq_iff_iff, beq_iff, beq_iff]
  exact eq_comm

theorem sameAll_comm (as bs : List Descriptor) : sameAll as bs = sameAll bs as := by
  rw [Bool.eq_iff_iff, sameAll_iff, sameAll_iff]
  exact eq_comm

/-- Spelling out both sides does not change the test. -/
@[simp] theorem beq_canonical (a b : Descriptor) : (a.canonical == b.canonical) = (a == b) := by
  rw [Bool.eq_iff_iff, beq_iff, beq_iff, canonical_canonical, canonical_canonical]

/-! ## What survives -/

/-- The id of a type does not depend on the spelling. -/
@[simp] theorem typeId?_canonical : (d : Descriptor) → d.canonical.typeId? = d.typeId?
  | array c => by simp [canonical, typeId?, typeId?_canonical c]
  | parameterized raw _ => by simp [canonical, typeId?, typeId?_canonical raw]
  | typeVar _ bound => by simp [canonical, typeId?, typeId?_canonical bound]
  | unspecified | plain _ | enumeration _ | interface _ _ | stringLiteral _ | numberLiteral _ | booleanLiteral _
  | union _ | objectShape _ | functionShape _ _ => by simp [canonical, typeId?]

/-- Erasure and canonical form can be taken in either order. -/
@[simp] theorem erase_canonical : (d : Descriptor) → d.canonical.erase = d.erase.canonical
  | array c => by simp [canonical, erase, erase_canonical c]
  | parameterized raw _ => by simp [canonical, erase, erase_canonical raw]
  | typeVar _ bound => by simp [canonical, erase, erase_canonical bound]
  | unspecified | plain _ | enumeration _ | interface _ _ | stringLiteral _ | numberLiteral _ | booleanLiteral _
  | union _ | objectShape _ | functionShape _ _ => by simp [canonical, erase]

/-- A type is primitive by its name, which stays. -/
theorem primitiveKind?_canonical (d : Descriptor) : d.canonical.primitiveKind? = d.primitiveKind? := by
  cases d <;> simp [canonical, primitiveKind?]

theorem isArray_canonical (d : Descriptor) : d.canonical.isArray = d.isArray := by
  cases d <;> simp [canonical, isArray]

/-- Nor for being primitive, which is read from the id. -/
@[simp] theorem isPrimitive_canonical (d : Descriptor) : d.canonical.isPrimitive = d.isPrimitive := by
  rw [isPrimitive, isPrimitive, primitiveKind?_canonical]

/-! ## Erasures -/

/-- The id of a type is that of its erasure. -/
theorem typeId?_erase : (d : Descriptor) → d.erase.typeId? = d.typeId?
  | array c => by rw [erase, typeId?, typeId?, typeId?_erase c]
  | parameterized raw _ => by rw [erase, typeId?, typeId?_erase raw]
  | typeVar _ bound => by rw [erase, typeId?, typeId?_erase bound]
  | unspecified | plain _ | enumeration _ | interface _ _ | stringLiteral _ | numberLiteral _ | booleanLiteral _
  | union _ | objectShape _ | functionShape _ _ => rfl

/-- Erasing a second time changes nothing. -/
@[simp] theorem erase_erase : (d : Descriptor) → d.erase.erase = d.erase
  | array c => by rw [erase, erase, erase_erase c]
  | parameterized raw _ => by rw [erase, erase_erase raw]
  | typeVar _ bound => by rw [erase, erase_erase bound]
  | unspecified | plain _ | enumeration _ | interface _ _ | stringLiteral _ | numberLiteral _ | booleanLiteral _
  | union _ | objectShape _ | functionShape _ _ => rfl

end Descriptor

end Interop
