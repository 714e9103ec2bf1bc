import Interop.Coercion.Narrowing
import Interop.Proofs.Number.Value

/-!
# Narrowing is exact

A kind that holds whole numbers takes a double exactly if its exact value without the fraction lies in the range of the
kind. Both ends are tested among doubles. The least value of a kind is a double, and so is one past its greatest value,
being a power of two, so both tests say what they say of the exact values. A number that passes them lies in the range of
64-bit words and in that of its kind, so nothing is clamped or wrapped on the way to either.

* **`NumericKind.value?_least`**, **`NumericKind.value?_pastGreatest`**: the bounds are exact.
* **`NumericKind.wholeInRange_eq_some_iff`**: what passes both tests, and the 64-bit word that it becomes.
* **`NumericKind.narrowing_exact`**: what a kind takes, and the native number that it becomes.
-/

namespace Interop

/-! ## The way through 64-bit words -/

namespace Double

variable {x : Double} {least greatest n : Int}

/-- A whole number within the bounds is not clamped. -/
theorem clamp_eq (h : x.value? = some (n : ℚ)) (hleast : least ≤ n) (hgreatest : n ≤ greatest) :
    x.clamp least greatest = n := by
  obtain ⟨negative, m, q, hdatum, -⟩ := value?_eq_some_iff.mp h
  rw [clamp, hdatum]
  dsimp only
  rw [truncate?_of_value? h, Option.getD_some, min_eq_left hgreatest, max_eq_right hleast]

/-- A whole number in the 64-bit range survives the intermediate conversion unchanged. -/
theorem toInt_saturateLong (h : x.value? = some (n : ℚ)) (hleast : -0x8000000000000000 ≤ n)
    (hgreatest : n ≤ 0x7fffffffffffffff) : x.saturateLong.toInt = n := by
  rw [saturateLong, clamp_eq h hleast hgreatest, Int64.toInt_ofInt_of_le (by omega) (by omega)]

end Double

/-! ## The bounds of a kind -/

/-- Powers of two have one bit, so each fits a double. -/
theorem fitsDouble_two_pow (k : Nat) : FitsDouble (2 ^ k : Nat) := ⟨1, k, by decide, by simp⟩

theorem FitsDouble.neg {n : Int} (h : FitsDouble n) : FitsDouble (-n) := by
  rwa [FitsDouble, Int.natAbs_neg]

namespace NumericKind

variable {kind : NumericKind} {least greatest n : Int} {x : Double}

/-- The ranges of all kinds lie within that of the long numbers. -/
theorem range?_bounds (h : kind.range? = some (least, greatest)) :
    -0x8000000000000000 ≤ least ∧ greatest ≤ 0x7fffffffffffffff := by
  cases kind <;> cases h <;> decide

/-- A range ends before a power of two, and starts at zero or at minus this power. -/
theorem range?_powers (h : kind.range? = some (least, greatest)) :
    ∃ k : Nat, k < 64 ∧ greatest + 1 = (2 ^ k : Nat) ∧ (least = 0 ∨ least = -(2 ^ k : Nat)) := by
  cases kind <;> cases h
  · exact ⟨63, by decide, by decide, by decide⟩
  · exact ⟨31, by decide, by decide, by decide⟩
  · exact ⟨15, by decide, by decide, by decide⟩
  · exact ⟨16, by decide, by decide, by decide⟩
  · exact ⟨7, by decide, by decide, by decide⟩

theorem value?_least (h : kind.range? = some (least, greatest)) : (Double.ofInt least).value? = some (least : ℚ) := by
  obtain ⟨k, hk, -, rfl | rfl⟩ := range?_powers h
  · exact Double.value?_ofInt (fitsDouble_of_lt (by decide)) (by decide)
  · refine Double.value?_ofInt (fitsDouble_two_pow k).neg ?_
    rw [Int.natAbs_neg, Int.natAbs_natCast]
    exact Nat.pow_lt_pow_right (by decide) hk

/-- **One past the greatest value is exact**, also where the greatest value is rounded first. -/
theorem value?_pastGreatest (h : kind.range? = some (least, greatest)) :
    ((Double.ofInt greatest).add .one).value? = some ((greatest + 1 : Int) : ℚ) := by
  have hsum : (Double.ofInt greatest).add .one = .ofInt (greatest + 1) := by
    cases kind <;> cases h <;> decide +kernel
  obtain ⟨k, hk, hpower, -⟩ := range?_powers h
  rw [hsum, hpower]
  refine Double.value?_ofInt (fitsDouble_two_pow k) ?_
  rw [Int.natAbs_natCast]
  exact Nat.pow_lt_pow_right (by decide) hk

/-! ## What is in range -/

/-- The tests among doubles are those of the exact whole part. -/
theorem wholeInRange_of_truncatesTo (hrange : kind.range? = some (least, greatest)) (h : x.TruncatesTo n) :
    kind.wholeInRange x = if least ≤ n ∧ n ≤ greatest then some n else none := by
  have hwhole := Double.value?_wholePart h
  have hbelow : x.wholePart.less (.ofInt least) = decide (n < least) := by
    rw [Bool.eq_iff_iff, Double.less_iff hwhole (value?_least hrange), Int.cast_lt, decide_eq_true_iff]
  have hpast : x.wholePart.atLeast ((Double.ofInt greatest).add .one) = decide (greatest + 1 ≤ n) := by
    rw [Bool.eq_iff_iff, Double.atLeast_iff hwhole (value?_pastGreatest hrange), Int.cast_le, decide_eq_true_iff]
  rw [wholeInRange, hrange, Option.bind_eq_bind, Option.bind_some]
  dsimp only
  rw [Double.isFinite_iff.mpr ⟨n, h⟩, hbelow, hpast]
  by_cases hin : least ≤ n ∧ n ≤ greatest
  · obtain ⟨hlow, hhigh⟩ := range?_bounds hrange
    rw [if_pos hin, decide_eq_false (by omega), decide_eq_false (by omega), if_neg (by decide),
      Double.toInt_saturateLong hwhole (by omega) (by omega)]
  · rw [if_neg hin, if_pos]
    simp only [Bool.not_true, Bool.false_or, Bool.or_eq_true, decide_eq_true_eq]
    omega

/-- **A number passes exactly if its whole part is in range**, and becomes its whole part. -/
theorem wholeInRange_eq_some_iff (hrange : kind.range? = some (least, greatest)) :
    kind.wholeInRange x = some n ↔ x.TruncatesTo n ∧ least ≤ n ∧ n ≤ greatest := by
  cases hfinite : x.isFinite with
  | false =>
    have hnone : ∀ m, ¬ x.TruncatesTo m := fun m hm => by
      rw [Double.isFinite_iff.mpr ⟨m, hm⟩] at hfinite
      cases hfinite
    simp [wholeInRange, hrange, hfinite, hnone]
  | true =>
    obtain ⟨m, hm⟩ := Double.isFinite_iff.mp hfinite
    have hsame : x.TruncatesTo n ↔ m = n := by
      rw [← Double.truncate?_eq_some_iff, Double.truncate?_eq_some_iff.mpr hm, Option.some.injEq]
    rw [wholeInRange_of_truncatesTo hrange hm, hsame]
    constructor
    · intro h
      split at h
      · next hin =>
        obtain rfl := Option.some.inj h
        exact ⟨rfl, hin⟩
      · cases h
    · rintro ⟨rfl, hin⟩
      exact if_pos hin

end NumericKind

/-! ## Native numbers -/

/-- The whole number that a native number or character is. -/
def Native.whole? : Native → Option Int
  | .long v => some v.toInt
  | .int v => some v.toInt
  | .short v => some v.toInt
  | .char u => some u.toNat
  | .byte v => some v.toInt
  | _ => none

/-- A native number of a kind is a whole number. -/
structure Native.Holds (v : Native) (kind : NumericKind) (n : Int) : Prop where
  kind : v.numericKind? = some kind
  whole : v.whole? = some n

/-- A kind has one native number for a whole number. -/
theorem Native.Holds.unique {v w : Native} {kind : NumericKind} {n : Int} (hv : v.Holds kind n) (hw : w.Holds kind n) :
    v = w := by
  obtain ⟨hkind, hvalue⟩ := hv
  obtain ⟨hkind', hvalue'⟩ := hw
  rw [← hvalue'] at hvalue
  cases v <;> cases hkind <;> cases w <;> cases hkind'
  case char => exact congrArg char (UInt16.toNat_inj.mp (Int.ofNat_inj.mp (Option.some.inj hvalue)))
  case byte => exact congrArg byte (Int8.toInt_inj.mp (Option.some.inj hvalue))
  case short => exact congrArg short (Int16.toInt_inj.mp (Option.some.inj hvalue))
  case int => exact congrArg int (Int32.toInt_inj.mp (Option.some.inj hvalue))
  case long => exact congrArg long (Int64.toInt_inj.mp (Option.some.inj hvalue))
  all_goals cases hvalue'

theorem ofInt_toNat_unit (u : UInt16) : UInt16.ofInt u.toNat = u := by
  have hmod : ((u.toNat : Int) % 2 ^ 16).toNat = u.toNat := by
    have := u.toNat_lt
    omega
  rw [UInt16.ofInt, hmod, UInt16.ofNat_toNat]

/-- Within the range of a unit the truncation to 16 bits is exact. -/
theorem toNat_ofInt_unit {n : Int} (hleast : 0 ≤ n) (hgreatest : n ≤ 0xffff) : ((UInt16.ofInt n).toNat : Int) = n := by
  rw [UInt16.ofInt, UInt16.toNat_ofNat_of_lt' (by simp only [UInt16.size]; omega)]
  omega

namespace NumericKind

variable {kind : NumericKind} {least greatest n : Int} {x : Double} {v : Native}

/-- **In the range of a kind the last step loses nothing.** -/
theorem exists_holds (hrange : kind.range? = some (least, greatest)) (hn : kind.wholeInRange x = some n) :
    ∃ v, kind.ofDouble? x = some v ∧ v.Holds kind n := by
  obtain ⟨-, hleast, hgreatest⟩ := (wholeInRange_eq_some_iff hrange).mp hn
  -- a number in the range survives the fixed width of its kind
  cases kind with
  | double | float => cases hrange
  | long =>
    cases hrange
    refine ⟨.long (.ofInt n), by rw [ofDouble?, hn, Option.map_some], rfl, ?_⟩
    exact congrArg some (Int64.toInt_ofInt_of_le (by omega) (by omega))
  | int =>
    cases hrange
    refine ⟨.int (.ofInt n), by rw [ofDouble?, hn, Option.map_some], rfl, ?_⟩
    exact congrArg some (Int32.toInt_ofInt_of_le (by omega) (by omega))
  | short =>
    cases hrange
    refine ⟨.short (.ofInt n), by rw [ofDouble?, hn, Option.map_some], rfl, ?_⟩
    exact congrArg some (Int16.toInt_ofInt_of_le (by omega) (by omega))
  | char =>
    cases hrange
    refine ⟨.char (.ofInt n), by rw [ofDouble?, hn, Option.map_some], rfl, ?_⟩
    exact congrArg some (toNat_ofInt_unit hleast hgreatest)
  | byte =>
    cases hrange
    refine ⟨.byte (.ofInt n), by rw [ofDouble?, hn, Option.map_some], rfl, ?_⟩
    exact congrArg some (Int8.toInt_ofInt_of_le (by omega) (by omega))

/-- Whatever is narrowed is a whole number in the range. -/
theorem exists_wholeInRange (hrange : kind.range? = some (least, greatest)) (hv : kind.ofDouble? x = some v) :
    ∃ n, kind.wholeInRange x = some n := by
  cases kind with
  | double | float => cases hrange
  | _ =>
    obtain ⟨n, hn, -⟩ := Option.map_eq_some_iff.mp hv
    exact ⟨n, hn⟩

/-- **Narrowing is exact and never clamps.** A kind that holds whole numbers takes a double exactly if it is finite and
its exact value without the fraction lies in the range of the kind, and what becomes of it is this whole number: on the
way, as a 64-bit word, and in the end, as a native number of the kind. -/
theorem narrowing_exact (hrange : kind.range? = some (least, greatest)) (x : Double) :
    (∀ n, kind.wholeInRange x = some n ↔ x.TruncatesTo n ∧ least ≤ n ∧ n ≤ greatest) ∧
      ∀ v, kind.ofDouble? x = some v ↔ ∃ n, x.TruncatesTo n ∧ least ≤ n ∧ n ≤ greatest ∧ v.Holds kind n := by
  refine ⟨fun n => wholeInRange_eq_some_iff hrange, fun v => ⟨fun hv => ?_, ?_⟩⟩
  · obtain ⟨n, hn⟩ := exists_wholeInRange hrange hv
    obtain ⟨w, hw, hholds⟩ := exists_holds hrange hn
    obtain rfl : v = w := Option.some.inj (hv.symm.trans hw)
    obtain ⟨htruncates, hleast, hgreatest⟩ := (wholeInRange_eq_some_iff hrange).mp hn
    exact ⟨n, htruncates, hleast, hgreatest, hholds⟩
  · rintro ⟨n, htruncates, hleast, hgreatest, hholds⟩
    obtain ⟨w, hw, hholds'⟩ := exists_holds hrange ((wholeInRange_eq_some_iff hrange).mpr ⟨htruncates, hleast, hgreatest⟩)
    rw [hholds.unique hholds', hw]

/-- A number between minus one and zero is the character zero, and `2 ^ 63`, which is what the greatest long number becomes
as a double, is no long number. -/
theorem narrowing_exact_ends :
    char.ofDouble? ⟨0xbfeccccccccccccd⟩ = some (.char 0) ∧ long.ofDouble? (.ofInt 0x7fffffffffffffff) = none := by
  have hchar : char.range? = some (0, 0xffff) := rfl
  have hlong : long.range? = some (-0x8000000000000000, 0x7fffffffffffffff) := rfl
  constructor
  · have hzero : (Double.mk 0xbfeccccccccccccd).TruncatesTo 0 := Double.truncate?_eq_some_iff.mp (by decide +kernel)
    exact ((narrowing_exact hchar _).2 _).mpr ⟨0, hzero, by decide, by decide, rfl, rfl⟩
  · refine Option.eq_none_iff_forall_ne_some.mpr fun v hv => ?_
    obtain ⟨n, hn, -, hgreatest, -⟩ := ((narrowing_exact hlong _).2 v).mp hv
    have hpast : (Double.ofInt 0x7fffffffffffffff).truncate? = some 0x8000000000000000 := by decide +kernel
    rw [← Double.truncate?_eq_some_iff, hpast] at hn
    obtain rfl := Option.some.inj hn
    exact absurd hgreatest (by decide)

end NumericKind

end Interop
