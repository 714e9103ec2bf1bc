import Interop.Coercion.Narrowing
import Interop.Proofs.Number.Rounding

/-!
# Numbers that doubles hold exactly

A whole number with at most 53 significant bits is a double, and no other one is; every single is a double. So these
come back unchanged when they are read off the double again.

* **`FitsDouble`**: the whole numbers that are doubles.
* **`Double.truncate?_ofInt`**, **`Double.fitsDouble_of_truncate?`**: they come back, and nothing else does.
* **`Single.ofDouble_toDouble`**: singles come back too, though one not-a-number may be another.
-/

namespace Interop

-- powers are those of the natural numbers, whatever other powers are in scope
attribute [local instance (high)] instPowNat

/-- A whole number with at most 53 significant bits. -/
def FitsDouble (n : Int) : Prop := ∃ m e : Nat, m < 2 ^ (53 : Nat) ∧ n.natAbs = m * 2 ^ e

/-- Numbers below the 53rd power of two have no more bits than that. -/
theorem fitsDouble_of_lt {n : Int} (h : n.natAbs < 2 ^ (53 : Nat)) : FitsDouble n :=
  ⟨n.natAbs, 0, h, (Nat.mul_one _).symm⟩

/-- A whole number from its sign and its size. -/
theorem signed_natAbs (n : Int) : (if decide (n < 0) = true then -(n.natAbs : Int) else n.natAbs) = n := by
  simp only [decide_eq_true_eq]
  split <;> omega

/-! ## Data -/

namespace Format

variable {f : Format} {m : Nat} {q : Int}

/-- A packed number keeps below the sign bit and the bits under it. -/
theorem pack_lt (h : f.Canonical m q) (negative : Bool) : f.pack negative m q < 2 * f.signWeight := by
  have hrest : (q - f.minScale).toNat * 2 ^ f.fractionBits + m < f.signWeight :=
    calc (q - f.minScale).toNat * 2 ^ f.fractionBits + m < f.topExponent * 2 ^ f.fractionBits := h.finite
      _ ≤ 2 ^ f.exponentBits * 2 ^ f.fractionBits := Nat.mul_le_mul_right _ (Nat.sub_le _ _)
      _ = f.signWeight := by rw [← Nat.pow_add, Nat.add_comm, signWeight]
  have hsign : f.signBits negative ≤ f.signWeight := by
    unfold signBits
    split
    · exact Nat.le_refl _
    · exact Nat.zero_le _
  rw [pack]
  omega

end Format

/-- The whole number that a datum is. -/
theorem Datum.truncate?_of_measures {n m : Nat} {q : Int} (h : Measures n 1 m q) (negative : Bool) :
    (Datum.finite negative m q).truncate? = some (if negative then -(n : Int) else n) := by
  have hquotient : m * 2 ^ q.toNat / 2 ^ (-q).toNat = n := by
    rw [Measures, Nat.one_mul] at h
    rw [← h, Nat.mul_div_cancel _ (Nat.two_pow_pos _)]
  simp only [truncate?, magnitude, hquotient]

namespace Double

variable {x : Double} {negative : Bool} {num den m : Nat} {q : Int}

theorem bits_lt (x : Double) : x.bits.toNat < 2 * Format.binary64.signWeight := x.bits.toNat_lt

/-- A fraction that is a double is the double. -/
theorem datum_ofRatio (h : Format.binary64.Canonical m q) (hmeasures : Measures num den m q) (hden : 0 < den)
    (negative : Bool) : (ofRatio negative num den).datum = .finite negative m q := by
  rw [datum, ofRatio, Format.round_eq_pack h hmeasures hden, Nat.toUInt64,
    UInt64.toNat_ofNat_of_lt' (Format.pack_lt h negative)]
  exact Format.decode_pack h negative

/-- The digits that are read from a double are canonical. -/
theorem canonical_of_datum (h : x.datum = .finite negative m q) : Format.binary64.Canonical m q :=
  (Format.canonical_of_decode x.bits_lt h).1

/-- A significand of few enough bits, at a scale that is neither too small nor too large, is a double. -/
theorem exists_canonical (hm : m < 2 ^ (53 : Nat)) (hleast : -1022 ≤ q) (hfinite : q ≤ 971) :
    ∃ k : Nat, Format.binary64.Canonical (m * 2 ^ k) (q - k) := by
  by_cases hzero : m = 0
  · refine ⟨(q + 1074).toNat, ?_⟩
    rw [hzero, Nat.zero_mul, show q - ((q + 1074).toNat : Int) = -1074 by omega]
    exact ⟨by decide, by decide, .inl (by decide), by decide⟩
  · refine Format.exists_canonical (Nat.pos_of_ne_zero hzero) hm ?_ ?_
    · rw [show Format.binary64.minScale = -1074 by decide, show Format.binary64.fractionBits = 52 from rfl]
      omega
    · rw [show Format.binary64.minScale = -1074 by decide, show Format.binary64.topExponent = 2047 by decide]
      omega

/-- A whole number of few enough bits, at the scale at which it is a double. -/
theorem exists_datum_ofRatio {n : Nat} (h : FitsDouble n) (hn : n < 2 ^ (64 : Nat)) (negative : Bool) :
    ∃ m q, (ofRatio negative n 1).datum = .finite negative m q ∧ Measures n 1 m q := by
  obtain ⟨m, e, hm, he, hvalue⟩ : ∃ m e : Nat, m < 2 ^ (53 : Nat) ∧ e < 64 ∧ n = m * 2 ^ e := by
    obtain ⟨m, e, hm, hvalue⟩ := h
    rw [Int.natAbs_natCast] at hvalue
    by_cases hzero : m = 0
    · exact ⟨0, 0, by decide, by decide, by rw [hvalue, hzero, Nat.zero_mul, Nat.zero_mul]⟩
    · refine ⟨m, e, hm, (Nat.pow_lt_pow_iff_right (by decide : 1 < 2)).mp (Nat.lt_of_le_of_lt ?_ hn), hvalue⟩
      rw [hvalue]
      exact Nat.le_mul_of_pos_left _ (Nat.pos_of_ne_zero hzero)
  have hmeasures : Measures n 1 m e := by
    rw [Measures, hvalue, Int.toNat_natCast, show (-(e : Int)).toNat = 0 by omega, Nat.one_mul, Nat.pow_zero,
      Nat.mul_one]
  obtain ⟨k, hcanonical⟩ := exists_canonical (q := e) hm (by omega) (by omega)
  exact ⟨_, _, datum_ofRatio hcanonical (hmeasures.widen k) (by decide) negative, hmeasures.widen k⟩

/-- **A whole number of few enough bits comes back from the double that it is.** -/
theorem truncate?_ofInt {n : Int} (h : FitsDouble n) (hn : n.natAbs < 2 ^ (64 : Nat)) :
    (ofInt n).truncate? = some n := by
  have hmagnitude : FitsDouble n.natAbs := by rwa [FitsDouble, Int.natAbs_natCast]
  obtain ⟨m, q, hdatum, hmeasures⟩ := exists_datum_ofRatio hmagnitude hn (n < 0)
  rw [truncate?, ofInt, hdatum, Datum.truncate?_of_measures hmeasures, signed_natAbs]

/-- A natural number is the same double as a whole number. -/
theorem ofNat_eq_ofInt (n : Nat) : ofNat n = ofInt n := by
  rw [ofNat, ofInt, Int.natAbs_natCast, decide_eq_false (by omega)]

/-- **The whole part of a double has few enough bits.** -/
theorem fitsDouble_of_truncate? {n : Int} (h : x.truncate? = some n) : FitsDouble n := by
  rw [truncate?] at h
  cases hdatum : x.datum with
  | nan => rw [hdatum] at h; cases h
  | infinite _ => rw [hdatum] at h; cases h
  | finite negative m q =>
    have hwidth : m < 2 ^ (53 : Nat) := (canonical_of_datum hdatum).width
    rw [hdatum] at h
    have habs : n.natAbs = m * 2 ^ q.toNat / 2 ^ (-q).toNat := by
      simp only [Datum.truncate?, Datum.magnitude, Option.some.injEq] at h
      rw [← h]
      split
      · rw [Int.natAbs_neg, Int.natAbs_natCast]
      · rw [Int.natAbs_natCast]
    by_cases hq : 0 ≤ q
    · refine ⟨m, q.toNat, hwidth, ?_⟩
      rw [habs, show (-q).toNat = 0 by omega, Nat.pow_zero, Nat.div_one]
    · refine fitsDouble_of_lt ?_
      rw [habs, show q.toNat = 0 by omega, Nat.pow_zero, Nat.mul_one]
      exact Nat.lt_of_le_of_lt (Nat.div_le_self _ _) hwidth

end Double

/-! ## Singles -/

namespace Single

variable {x : Single} {negative : Bool} {m : Nat} {q : Int}

theorem bits_lt (x : Single) : x.bits.toNat < 2 * Format.binary32.signWeight := x.bits.toNat_lt

/-- The digits that are read from a single are canonical too. -/
theorem canonical_of_datum (h : x.datum = .finite negative m q) : Format.binary32.Canonical m q :=
  (Format.canonical_of_decode x.bits_lt h).1

/-- The scales of finite singles. -/
theorem scale_bounds (h : Format.binary32.Canonical m q) : -149 ≤ q ∧ q ≤ 104 := by
  obtain ⟨-, hleast, hfull, hfinite⟩ := h
  rw [show Format.binary32.minScale = -149 by decide] at hleast hfull hfinite
  rw [show Format.binary32.topExponent = 255 by decide, show Format.binary32.fractionBits = 23 from rfl] at hfinite
  rw [show Format.binary32.fractionBits = 23 from rfl] at hfull
  omega

/-- A finite single is the same value as a double, with a wider significand. -/
theorem datum_toDouble (h : x.datum = .finite negative m q) :
    ∃ k : Nat, x.toDouble.datum = .finite negative (m * 2 ^ k) (q - k) := by
  have hcanonical := canonical_of_datum h
  obtain ⟨hleast, hgreatest⟩ := scale_bounds hcanonical
  have hwidth : m < 2 ^ (53 : Nat) := Nat.lt_of_lt_of_le hcanonical.width (by decide)
  obtain ⟨k, hdouble⟩ := Double.exists_canonical (q := q) hwidth (by omega) (by omega)
  refine ⟨k, ?_⟩
  rw [toDouble, h]
  exact Double.datum_ofRatio hdouble ((measures_magnitude m q).widen k) (Nat.two_pow_pos _) negative

/-- An infinite single is the infinite double of its sign. -/
theorem datum_toDouble_infinite (h : x.datum = .infinite negative) : x.toDouble.datum = .infinite negative := by
  rw [toDouble, h]
  cases negative <;> decide +kernel

theorem datum_toDouble_nan (h : x.datum = .nan) : x.toDouble.datum = .nan := by
  rw [toDouble, h]
  decide +kernel

/-- A wider significand at a smaller scale is the same value. -/
theorem measures_widened (m : Nat) (q : Int) (k : Nat) :
    Measures (Datum.magnitude (m * 2 ^ k) (q - k)).1 (Datum.magnitude (m * 2 ^ k) (q - k)).2 m q := by
  have hexponents : k + (q - k).toNat + (-q).toNat = (-(q - k)).toNat + q.toNat := by omega
  show m * 2 ^ k * 2 ^ (q - k).toNat * 2 ^ (-q).toNat = m * (2 ^ (-(q - k)).toNat * 2 ^ q.toNat)
  rw [← Nat.pow_add, ← hexponents, Nat.pow_add, Nat.pow_add]
  ac_rfl

/-- **A single comes back from the double that it is**; of a not-a-number only that it is one. -/
theorem ofDouble_toDouble (x : Single) :
    (x.datum ≠ .nan → ofDouble x.toDouble = x) ∧ (x.datum = .nan → (ofDouble x.toDouble).datum = .nan) := by
  refine ⟨fun hnumber => ?_, fun hnan => ?_⟩
  · cases hdatum : x.datum with
    | nan => exact absurd hdatum hnumber
    | infinite negative =>
      rw [ofDouble, datum_toDouble_infinite hdatum, ofDatum, Format.encode,
        ← Format.eq_infinityBits_of_decode x.bits_lt hdatum]
      exact congrArg mk (UInt32.ofNat_toNat)
    | finite negative m q =>
      obtain ⟨k, hdouble⟩ := datum_toDouble hdatum
      obtain ⟨hcanonical, hbits⟩ := Format.canonical_of_decode x.bits_lt hdatum
      rw [ofDouble, hdouble, ofDatum, Format.encode]
      dsimp only
      rw [Format.round_eq_pack hcanonical (measures_widened m q k) (Nat.two_pow_pos _), ← hbits]
      exact congrArg mk (UInt32.ofNat_toNat)
  · rw [ofDouble, datum_toDouble_nan hnan]
    decide +kernel

/-- No single lies beyond the largest one. -/
theorem exceedsSingle_toDouble (x : Single) : x.toDouble.exceedsSingle = false := by
  cases hdatum : x.datum with
  | nan => rw [Double.exceedsSingle, datum_toDouble_nan hdatum]
  | infinite negative => rw [Double.exceedsSingle, datum_toDouble_infinite hdatum]
  | finite negative m q =>
    obtain ⟨k, hdouble⟩ := datum_toDouble hdatum
    have hcanonical := canonical_of_datum hdatum
    have hvalue : m * 2 ^ q.toNat ≤ largest :=
      calc m * 2 ^ q.toNat ≤ (2 ^ 24 - 1) * 2 ^ 104 :=
            Nat.mul_le_mul (Nat.le_sub_one_of_lt hcanonical.width)
              (Nat.pow_le_pow_right (by decide) (by have := scale_bounds hcanonical; omega))
        _ = largest := by decide
    have hmeasures := measures_widened m q k
    generalize hmagnitude : Datum.magnitude (m * 2 ^ k) (q - k) = fraction at hmeasures
    have hle : fraction.1 ≤ largest * fraction.2 := by
      refine Nat.le_of_mul_le_mul_right ?_ (Nat.two_pow_pos (-q).toNat)
      calc fraction.1 * 2 ^ (-q).toNat = m * 2 ^ q.toNat * fraction.2 := by rw [hmeasures]; ac_rfl
        _ ≤ largest * fraction.2 := Nat.mul_le_mul_right _ hvalue
        _ ≤ largest * fraction.2 * 2 ^ (-q).toNat := Nat.le_mul_of_pos_right _ (Nat.two_pow_pos _)
    rw [Double.exceedsSingle, hdouble]
    dsimp only
    rw [hmagnitude]
    exact decide_eq_false (Nat.not_lt_of_le hle)

end Single

end Interop
