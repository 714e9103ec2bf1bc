import Mathlib.Algebra.Order.Field.Power
import Mathlib.Data.Rat.Floor
import Mathlib.Tactic.FieldSimp
import Interop.Proofs.Number.Exact

/-!
# The exact values of doubles

A finite double is a rational number. What is computed from significands and scales is said here of these numbers:
dropping the fraction rounds toward zero, and loses nothing when the result is a double again; the order of doubles is
that of their values.

* **`Double.value?`**, **`towardZero`**: the exact value, and the whole number that is left of it without its fraction.
* **`Double.truncate?_eq_some_iff`**, **`Double.value?_wholePart`**: the whole part, as an integer and as a double.
* **`Double.less_iff`**, **`Double.atLeast_iff`**: the order.
-/

namespace Interop

-- powers are those of the natural numbers, whatever other powers are in scope
attribute [local instance (high)] instPowNat

/-! ## Rational numbers without their fractions -/

/-- A rational number without its fraction. -/
def towardZero (r : ℚ) : Int := if r < 0 then ⌈r⌉ else ⌊r⌋

theorem towardZero_intCast (n : Int) : towardZero n = n := by
  rw [towardZero, Int.ceil_intCast, Int.floor_intCast, ite_self]

/-- A fraction is truncated by dividing its parts, under the sign of the whole. -/
theorem towardZero_natCast_div (negative : Bool) (num den : Nat) :
    towardZero (if negative then -((num : ℚ) / den) else (num : ℚ) / den)
      = if negative then -((num / den : Nat) : Int) else ((num / den : Nat) : Int) := by
  have hfloor : ⌊(num : ℚ) / den⌋ = ((num / den : Nat) : Int) := by
    rw [Int.natCast_ediv]
    exact Rat.floor_intCast_div_natCast num den
  have hpositive : 0 ≤ (num : ℚ) / den := by positivity
  cases negative with
  | false =>
    rw [if_neg Bool.false_ne_true, if_neg Bool.false_ne_true, towardZero, if_neg (not_lt.mpr hpositive), hfloor]
  | true =>
    rw [if_pos rfl, if_pos rfl, towardZero]
    split
    · rw [Int.ceil_neg, hfloor]
    · next hzero =>
      -- minus zero is not below zero
      have hnone : (num : ℚ) / den = 0 := by linarith
      rw [← hfloor, hnone, neg_zero, Int.floor_zero, Int.neg_zero]

/-! ## Exact values -/

/-- The exact value of a finite datum. -/
def Datum.value? : Datum → Option ℚ
  | finite negative significand scale =>
    let magnitude : ℚ := significand * (2 : ℚ) ^ scale
    some (if negative then -magnitude else magnitude)
  | _ => none

/-- The fraction that measures a significand at a scale is equal to it. -/
theorem Measures.eq_div {num den m : Nat} {q : Int} (h : Measures num den m q) (hden : 0 < den) :
    (m : ℚ) * (2 : ℚ) ^ q = num / den := by
  have hscale : (2 : ℚ) ^ q * (2 : ℚ) ^ (-q).toNat = (2 : ℚ) ^ q.toNat := by
    rw [← zpow_natCast, ← zpow_natCast, ← zpow_add₀ two_ne_zero]
    congr 1
    omega
  have hmeasures : (num : ℚ) * (2 : ℚ) ^ (-q).toNat = m * (den * (2 : ℚ) ^ q.toNat) := by exact_mod_cast h
  have hpower : (2 : ℚ) ^ (-q).toNat ≠ 0 := by positivity
  rw [eq_div_iff (by positivity)]
  refine mul_right_cancel₀ hpower ?_
  rw [hmeasures, ← hscale]
  ring

/-- The significand at a smaller scale makes up the same value. -/
theorem Datum.significandAt_mul {negative : Bool} {m : Nat} {q lower : Int} (h : lower ≤ q) :
    (significandAt lower negative m q : ℚ) * (2 : ℚ) ^ lower
      = if negative then -((m : ℚ) * (2 : ℚ) ^ q) else (m : ℚ) * (2 : ℚ) ^ q := by
  have hwidened : ((m * 2 ^ (q - lower).toNat : Nat) : ℚ) * (2 : ℚ) ^ lower = (m : ℚ) * (2 : ℚ) ^ q := by
    push_cast
    rw [mul_assoc, ← zpow_natCast, ← zpow_add₀ two_ne_zero]
    congr 2
    omega
  rw [← hwidened]
  cases negative <;> simp [significandAt]

namespace Double

variable {x y : Double} {n : Int} {a b : ℚ}

/-- The exact value, if finite. -/
def value? (x : Double) : Option ℚ := x.datum.value?

/-- The exact value without its fraction is a whole number. -/
def TruncatesTo (x : Double) (n : Int) : Prop := ∃ r, x.value? = some r ∧ towardZero r = n

/-- The value of a double is that of its digits; the infinite ones and the one that is no number have none. -/
theorem value?_eq_some_iff : x.value? = some a ↔ ∃ negative m q, x.datum = .finite negative m q ∧
    a = if negative then -((m : ℚ) * (2 : ℚ) ^ q) else (m : ℚ) * (2 : ℚ) ^ q := by
  rw [value?]
  cases x.datum <;> simp [Datum.value?, eq_comm]

/-- Finite are the doubles that truncate to something. -/
theorem isFinite_iff : x.isFinite = true ↔ ∃ n, x.TruncatesTo n := by
  simp only [TruncatesTo, value?, isFinite]
  cases x.datum <;> simp [Datum.value?]

theorem isNaN_of_value? (ha : x.value? = some a) : x.isNaN = false := by
  obtain ⟨negative, m, q, hdatum, -⟩ := value?_eq_some_iff.mp ha
  rw [isNaN, hdatum]
  rfl

/-! ## Whole parts -/

/-- **The quotient of the significand is the exact value rounded toward zero.** -/
theorem truncate?_eq_some_iff : x.truncate? = some n ↔ x.TruncatesTo n := by
  rw [TruncatesTo, truncate?, value?]
  cases x.datum with
  | finite negative m q =>
    have hmagnitude := (measures_magnitude m q).eq_div (Nat.two_pow_pos _)
    simp only [Datum.truncate?, Datum.value?, hmagnitude, Option.some.injEq, exists_eq_left', towardZero_natCast_div]
  | _ => simp [Datum.truncate?, Datum.value?]

theorem truncate?_of_value? (h : x.value? = some (n : ℚ)) : x.truncate? = some n :=
  truncate?_eq_some_iff.mpr ⟨n, h, towardZero_intCast n⟩

/-- A whole number that has become a double without loss is the value of the double. -/
theorem value?_ofRatio {negative : Bool} {m w : Nat} {q : Int}
    (hdatum : (ofRatio negative w 1).datum = .finite negative m q) (h : Measures w 1 m q) :
    (ofRatio negative w 1).value? = some (((if negative then -(w : Int) else w) : Int) : ℚ) := by
  rw [value?, hdatum, Datum.value?, h.eq_div Nat.one_pos]
  cases negative <;> simp

/-- A whole number of few enough bits is the value of its double. -/
theorem value?_ofInt (h : FitsDouble n) (hn : n.natAbs < 2 ^ (64 : Nat)) : (ofInt n).value? = some (n : ℚ) := by
  have hmagnitude : FitsDouble n.natAbs := by rwa [FitsDouble, Int.natAbs_natCast]
  obtain ⟨m, q, hdatum, hmeasures⟩ := exists_datum_ofRatio hmagnitude hn (n < 0)
  rw [ofInt, value?_ofRatio hdatum hmeasures, signed_natAbs]

/-- **The whole part of a double is a double.** -/
theorem value?_wholePart (h : x.TruncatesTo n) : x.wholePart.value? = some (n : ℚ) := by
  rw [← truncate?_eq_some_iff, truncate?] at h
  cases hdatum : x.datum with
  | nan => rw [hdatum] at h; cases h
  | infinite => rw [hdatum] at h; cases h
  | finite negative m q =>
    rw [hdatum] at h
    obtain rfl := Option.some.inj h
    have hcanonical := canonical_of_datum hdatum
    rw [wholePart, hdatum]
    dsimp only [Datum.magnitude]
    by_cases hq : 0 ≤ q
    · -- there is no fraction, so the number is its own whole part
      have hmeasures : Measures (m * 2 ^ q.toNat / 2 ^ (-q).toNat) 1 m q := by
        rw [show (-q).toNat = 0 by omega, Nat.pow_zero, Nat.div_one, Measures,
          show (-q).toNat = 0 by omega, Nat.pow_zero, Nat.mul_one, Nat.one_mul]
      exact value?_ofRatio (datum_ofRatio hcanonical hmeasures Nat.one_pos negative) hmeasures
    · -- what is left has fewer bits than a significand
      have hwidth : m * 2 ^ q.toNat / 2 ^ (-q).toNat < 2 ^ (53 : Nat) := by
        rw [show q.toNat = 0 by omega, Nat.pow_zero, Nat.mul_one]
        exact Nat.lt_of_le_of_lt (Nat.div_le_self _ _) hcanonical.width
      have hfits := fitsDouble_of_lt (n := (m * 2 ^ q.toNat / 2 ^ (-q).toNat : Nat)) hwidth
      obtain ⟨m', q', hwhole, hmeasures⟩ := exists_datum_ofRatio hfits (by omega) negative
      exact value?_ofRatio hwhole hmeasures

/-! ## Order -/

/-- Comparison of doubles is that of their values. -/
theorem less_iff (ha : x.value? = some a) (hb : y.value? = some b) : x.less y = true ↔ a < b := by
  obtain ⟨negative, m, p, hx, rfl⟩ := value?_eq_some_iff.mp ha
  obtain ⟨negative', m', q, hy, rfl⟩ := value?_eq_some_iff.mp hb
  rw [less, hx, hy]
  dsimp only
  rw [decide_eq_true_iff, ← Datum.significandAt_mul (min_le_left p q), ← Datum.significandAt_mul (min_le_right p q),
    mul_lt_mul_iff_left₀ (by positivity), Int.cast_lt]

theorem atLeast_iff (ha : x.value? = some a) (hb : y.value? = some b) : x.atLeast y = true ↔ b ≤ a := by
  rw [atLeast, isNaN_of_value? ha, isNaN_of_value? hb, Bool.not_false, Bool.true_and, Bool.true_and, ← not_lt,
    ← less_iff ha hb, Bool.not_eq_true', Bool.not_eq_true]

end Double

end Interop
