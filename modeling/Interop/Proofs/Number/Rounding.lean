import Interop.Number.Double

/-!
# Rounding leaves data of a format as they are

A finite datum of a format is written in one way: with a significand of full width, or at the smallest scale. A fraction
that is equal to such a datum rounds to its pattern, and the pattern denotes the datum again. So a number that fits a
format comes back from it unchanged.

* **`Format.Canonical`**: the significands and scales that a format has patterns for.
* **`Format.decode_pack`**, **`Format.exists_pack`**: these patterns and their data.
* **`Format.scaleOf_eq`**, **`Format.round_eq_pack`**: a fraction of a canonical value is found at its own scale.
* **`Format.exists_canonical`**: a value with few enough bits has a canonical form.
-/

namespace Interop

-- powers are those of the natural numbers, whatever other powers are in scope
attribute [local instance (high)] instPowNat

/-! ## Fractions and scales -/

/-- The fraction `num / den` is `significand · 2 ^ scale`. -/
def Measures (num den significand : Nat) (scale : Int) : Prop :=
  num * 2 ^ (-scale).toNat = significand * (den * 2 ^ scale.toNat)

theorem measures_magnitude (m : Nat) (q : Int) :
    Measures (Datum.magnitude m q).1 (Datum.magnitude m q).2 m q := by
  show m * 2 ^ q.toNat * 2 ^ (-q).toNat = m * (2 ^ (-q).toNat * 2 ^ q.toNat)
  rw [Nat.mul_assoc, Nat.mul_comm (2 ^ q.toNat)]

namespace Measures

variable {num den m : Nat} {q : Int}

/-- A significand may be written with more bits at a smaller scale. -/
theorem widen (h : Measures num den m q) (k : Nat) : Measures num den (m * 2 ^ k) (q - k) := by
  have hexponents : (-(q - k)).toNat + q.toNat = (-q).toNat + (k + (q - k).toNat) := by omega
  refine Nat.eq_of_mul_eq_mul_right (Nat.two_pow_pos (-q).toNat) ?_
  calc num * 2 ^ (-(q - k)).toNat * 2 ^ (-q).toNat
      = num * 2 ^ (-q).toNat * 2 ^ (-(q - k)).toNat := Nat.mul_right_comm ..
    _ = m * (den * 2 ^ q.toNat) * 2 ^ (-(q - k)).toNat := by rw [h]
    _ = m * den * 2 ^ ((-(q - k)).toNat + q.toNat) := by rw [Nat.pow_add]; ac_rfl
    _ = m * den * 2 ^ ((-q).toNat + (k + (q - k).toNat)) := by rw [hexponents]
    _ = m * 2 ^ k * (den * 2 ^ (q - k).toNat) * 2 ^ (-q).toNat := by rw [Nat.pow_add, Nat.pow_add]; ac_rfl

/-- The bits of a fraction of a value with a significand of a width. -/
theorem log2_le (h : Measures num den m q) (hnum : num ≠ 0) {width : Nat} (hm : m < 2 ^ width) :
    (num.log2 : Int) - den.log2 ≤ q + width := by
  have hlt : 2 ^ (num.log2 + (-q).toNat) < 2 ^ (width + (den.log2 + 1) + q.toNat) :=
    calc 2 ^ (num.log2 + (-q).toNat) = 2 ^ num.log2 * 2 ^ (-q).toNat := Nat.pow_add ..
      _ ≤ num * 2 ^ (-q).toNat := Nat.mul_le_mul_right _ (Nat.log2_self_le hnum)
      _ = m * den * 2 ^ q.toNat := by rw [h, Nat.mul_assoc]
      _ < 2 ^ width * 2 ^ (den.log2 + 1) * 2 ^ q.toNat := by
        refine Nat.mul_lt_mul_of_pos_right ?_ (Nat.two_pow_pos _)
        exact Nat.mul_lt_mul'' hm Nat.lt_log2_self
      _ = 2 ^ (width + (den.log2 + 1) + q.toNat) := by rw [← Nat.pow_add, ← Nat.pow_add]
  have := (Nat.pow_lt_pow_iff_right (by decide : 1 < 2)).mp hlt
  omega

/-- The same from below. -/
theorem le_log2 (h : Measures num den m q) (hden : den ≠ 0) {width : Nat} (hm : 2 ^ width ≤ m) :
    q + width ≤ (num.log2 : Int) - den.log2 := by
  have hlt : 2 ^ (width + den.log2 + q.toNat) < 2 ^ (num.log2 + 1 + (-q).toNat) :=
    calc 2 ^ (width + den.log2 + q.toNat) = 2 ^ width * 2 ^ den.log2 * 2 ^ q.toNat := by
          rw [Nat.pow_add, Nat.pow_add]
      _ ≤ m * den * 2 ^ q.toNat := Nat.mul_le_mul_right _ (Nat.mul_le_mul hm (Nat.log2_self_le hden))
      _ = num * 2 ^ (-q).toNat := by rw [h, Nat.mul_assoc]
      _ < 2 ^ (num.log2 + 1) * 2 ^ (-q).toNat := Nat.mul_lt_mul_of_pos_right Nat.lt_log2_self (Nat.two_pow_pos _)
      _ = 2 ^ (num.log2 + 1 + (-q).toNat) := (Nat.pow_add ..).symm
  have := (Nat.pow_lt_pow_iff_right (by decide : 1 < 2)).mp hlt
  omega

end Measures

/-- Where division leaves no rest, there is nothing to round. -/
theorem roundDiv_mul_self (m : Nat) {d : Nat} (hd : 0 < d) : roundDiv (m * d) d = m := by
  simp only [roundDiv, Nat.mul_mod_left, Nat.mul_div_cancel m hd, Nat.mul_zero]
  rw [if_neg (by omega)]

/-! ## Canonical data -/

namespace Format

variable {f : Format} {num den m : Nat} {q : Int}

/-- The finite data of a format: a significand that is not too wide, at a scale where it has full width or at the
smallest one, and an exponent that is not kept for infinities. -/
structure Canonical (f : Format) (significand : Nat) (scale : Int) : Prop where
  width : significand < 2 ^ (f.fractionBits + 1)
  least : f.minScale ≤ scale
  full : scale = f.minScale ∨ 2 ^ f.fractionBits ≤ significand
  finite : (scale - f.minScale).toNat * 2 ^ f.fractionBits + significand < f.topExponent * 2 ^ f.fractionBits

def signBits (f : Format) (negative : Bool) : Nat := if negative then f.signWeight else 0

/-- The pattern of a finite datum. -/
def pack (f : Format) (negative : Bool) (significand : Nat) (scale : Int) : Nat :=
  f.signBits negative + ((scale - f.minScale).toNat * 2 ^ f.fractionBits + significand)

/-- **The scale of a fraction that is a datum of the format is the scale of the datum.** -/
theorem scaleOf_eq (h : f.Canonical m q) (hmeasures : Measures num den m q) (hnum : num ≠ 0) (hden : 0 < den) :
    f.scaleOf num den = q := by
  -- the guess is too small by one at most, and then the significand has full width
  have hguess : q = max f.minScale ((num.log2 : Int) - den.log2 - 1 - f.fractionBits) ∨
      q = max f.minScale ((num.log2 : Int) - den.log2 - 1 - f.fractionBits) + 1 ∧ 2 ^ f.fractionBits ≤ m := by
    have hlow := hmeasures.log2_le hnum h.width
    have hleast := h.least
    rcases h.full with hsmallest | hfull
    · left
      omega
    · have hhigh := hmeasures.le_log2 (Nat.ne_of_gt hden) hfull
      omega
  have hquotient : ∀ (k : Nat) guess, q - k = guess →
      num * 2 ^ (-guess).toNat / (den * 2 ^ guess.toNat) = m * 2 ^ k := by
    rintro k _ rfl
    rw [hmeasures.widen k, Nat.mul_div_cancel _ (Nat.mul_pos hden (Nat.two_pow_pos _))]
  unfold scaleOf
  generalize max f.minScale ((num.log2 : Int) - den.log2 - 1 - f.fractionBits) = guess at hguess ⊢
  dsimp only
  rcases hguess with rfl | ⟨rfl, hfull⟩
  · rw [hquotient 0 q (by omega), Nat.pow_zero, Nat.mul_one, if_pos h.width]
  · rw [hquotient 1 guess (by omega), Nat.pow_one, if_neg]
    rw [Nat.pow_succ]
    omega

/-- **A fraction that is a datum of the format rounds to the pattern of the datum.** -/
theorem round_eq_pack (h : f.Canonical m q) (hmeasures : Measures num den m q) (hden : 0 < den) (negative : Bool) :
    f.round negative num den = f.pack negative m q := by
  unfold round pack signBits
  by_cases hnum : num = 0
  · -- zero is written at the smallest scale
    have hm : m = 0 := by
      have hzero : m * (den * 2 ^ q.toNat) = 0 := by rw [← hmeasures, hnum, Nat.zero_mul]
      exact (Nat.mul_eq_zero.mp hzero).resolve_right (Nat.ne_of_gt (Nat.mul_pos hden (Nat.two_pow_pos _)))
    have hq : q = f.minScale := h.full.resolve_right (by have := Nat.two_pow_pos f.fractionBits; omega)
    rw [if_pos hnum, hm, hq, Int.sub_self]
    simp
  · have hscale := scaleOf_eq h hmeasures hnum hden
    have hsignificand : roundDiv (num * 2 ^ (-q).toNat) (den * 2 ^ q.toNat) = m := by
      rw [hmeasures]
      exact roundDiv_mul_self m (Nat.mul_pos hden (Nat.two_pow_pos _))
    rw [if_neg hnum]
    dsimp only
    rw [hscale, hsignificand, if_pos h.finite]

/-! ## Patterns -/

/-- The pattern with the given fields. -/
def assemble (f : Format) (negative : Bool) (exponent fraction : Nat) : Nat :=
  f.signBits negative + (exponent * 2 ^ f.fractionBits + fraction)

/-- Every pattern has its fields. -/
theorem exists_assemble {bits : Nat} (hbits : bits < 2 * f.signWeight) :
    ∃ negative exponent fraction, exponent < 2 ^ f.exponentBits ∧ fraction < 2 ^ f.fractionBits ∧
      bits = f.assemble negative exponent fraction := by
  refine ⟨decide (f.signWeight ≤ bits), bits % f.signWeight / 2 ^ f.fractionBits, bits % 2 ^ f.fractionBits, ?_,
    Nat.mod_lt _ (Nat.two_pow_pos _), ?_⟩
  · rw [Nat.div_lt_iff_lt_mul (Nat.two_pow_pos _), ← Nat.pow_add, Nat.add_comm]
    exact Nat.mod_lt _ (Nat.two_pow_pos _)
  · have hdvd : 2 ^ f.fractionBits ∣ f.signWeight := Nat.pow_dvd_pow 2 (Nat.le_add_right _ _)
    have hrest : bits % f.signWeight / 2 ^ f.fractionBits * 2 ^ f.fractionBits + bits % 2 ^ f.fractionBits
        = bits % f.signWeight := by
      rw [← Nat.mod_mod_of_dvd bits hdvd]
      exact Nat.div_add_mod' _ _
    rw [assemble, signBits, hrest]
    by_cases hsign : f.signWeight ≤ bits
    · rw [if_pos (decide_eq_true hsign), Nat.mod_eq_sub_mod hsign, Nat.mod_eq_of_lt (by omega)]
      omega
    · rw [if_neg (by simpa using hsign), Nat.mod_eq_of_lt (by omega), Nat.zero_add]

/-- What a pattern denotes, by its fields. -/
theorem decode_assemble {exponent fraction : Nat} (hexponent : exponent < 2 ^ f.exponentBits)
    (hfraction : fraction < 2 ^ f.fractionBits) (negative : Bool) :
    f.decode (f.assemble negative exponent fraction) =
      if exponent = f.topExponent then if fraction = 0 then .infinite negative else .nan
      else if exponent = 0 then .finite negative fraction f.minScale
      else .finite negative (2 ^ f.fractionBits + fraction) (f.minScale + (exponent - 1 : Nat)) := by
  have hpositive := Nat.two_pow_pos f.fractionBits
  have hsplit : f.assemble negative exponent fraction
      = fraction + 2 ^ f.fractionBits * (exponent + 2 ^ f.exponentBits * negative.toNat) := by
    cases negative <;> simp only [assemble, signBits, signWeight, Nat.pow_add, Bool.toNat_true, Bool.toNat_false] <;> grind
  have hlow : f.assemble negative exponent fraction % 2 ^ f.fractionBits = fraction := by
    rw [hsplit, Nat.add_mul_mod_self_left, Nat.mod_eq_of_lt hfraction]
  have hhigh : f.assemble negative exponent fraction / 2 ^ f.fractionBits
      = exponent + 2 ^ f.exponentBits * negative.toNat := by
    rw [hsplit, Nat.add_mul_div_left _ _ hpositive, Nat.div_eq_of_lt hfraction, Nat.zero_add]
  have hsign : f.assemble negative exponent fraction / f.signWeight = negative.toNat := by
    rw [signWeight, Nat.pow_add, ← Nat.div_div_eq_div_mul, hhigh, Nat.add_mul_div_left _ _ (Nat.two_pow_pos _),
      Nat.div_eq_of_lt hexponent, Nat.zero_add]
  have hnegative : (negative.toNat % 2 == 1) = negative := by cases negative <;> rfl
  unfold decode
  dsimp only
  rw [hlow, hhigh, hsign, Nat.add_mul_mod_self_left, Nat.mod_eq_of_lt hexponent, hnegative]

theorem topExponent_succ (f : Format) : f.topExponent + 1 = 2 ^ f.exponentBits :=
  Nat.sub_add_cancel (Nat.two_pow_pos f.exponentBits)

/-- **The pattern of a finite datum denotes it.** -/
theorem decode_pack (h : f.Canonical m q) (negative : Bool) :
    f.decode (f.pack negative m q) = .finite negative m q := by
  have htop := f.topExponent_succ
  have hfinite := h.finite
  have hpositive := Nat.two_pow_pos f.fractionBits
  by_cases hm : m < 2 ^ f.fractionBits
  · -- below full width the exponent field is empty
    obtain rfl : q = f.minScale := h.full.resolve_right (Nat.not_le_of_lt hm)
    have hpack : f.pack negative m f.minScale = f.assemble negative 0 m := by rw [pack, assemble, Int.sub_self]; rfl
    have hzero : 0 < f.topExponent := Nat.pos_of_ne_zero fun hzero => by rw [hzero] at hfinite; omega
    rw [hpack, decode_assemble (Nat.two_pow_pos _) hm, if_neg (Nat.ne_of_lt hzero), if_pos rfl]
  · -- otherwise the leading bit of the significand carries into it
    have hpack : f.pack negative m q
        = f.assemble negative ((q - f.minScale).toNat + 1) (m - 2 ^ f.fractionBits) := by
      rw [pack, assemble, Nat.add_mul]
      omega
    have hexponent : (q - f.minScale).toNat + 1 < f.topExponent := by
      refine Nat.lt_of_mul_lt_mul_right (a := 2 ^ f.fractionBits) ?_
      rw [Nat.add_mul]
      omega
    have hfraction : m - 2 ^ f.fractionBits < 2 ^ f.fractionBits := by
      have := h.width
      rw [Nat.pow_succ] at this
      omega
    have hscale := h.least
    rw [hpack, decode_assemble (by omega) hfraction, if_neg (by omega), if_neg (by omega)]
    congr 1 <;> omega

/-- **A finite datum is written in canonical form, and its pattern is the only one.** -/
theorem canonical_of_decode {bits : Nat} (hbits : bits < 2 * f.signWeight) {negative : Bool}
    (h : f.decode bits = .finite negative m q) : f.Canonical m q ∧ bits = f.pack negative m q := by
  obtain ⟨sign, exponent, fraction, hexponent, hfraction, rfl⟩ := exists_assemble hbits
  have htop := f.topExponent_succ
  rw [decode_assemble hexponent hfraction] at h
  split at h
  · split at h <;> cases h
  · next hinfinite =>
    split at h
    · next hzero =>
      cases h
      -- an empty exponent field is the least scale, without the leading bit
      refine ⟨⟨?_, Int.le_refl _, .inl rfl, ?_⟩, ?_⟩
      · rw [Nat.pow_succ]
        omega
      · rw [Int.sub_self]
        have : 1 * 2 ^ f.fractionBits ≤ f.topExponent * 2 ^ f.fractionBits := Nat.mul_le_mul_right _ (by omega)
        simp only [Int.toNat_zero, Nat.zero_mul]
        omega
      · rw [assemble, pack, hzero, Int.sub_self]
        rfl
    · next hpositive =>
      cases h
      -- any other one is a step above it, with the leading bit
      have hcarry : (f.minScale + (exponent - 1 : Nat) - f.minScale).toNat * 2 ^ f.fractionBits
          + (2 ^ f.fractionBits + fraction) = exponent * 2 ^ f.fractionBits + fraction := by
        obtain ⟨e, rfl⟩ := Nat.exists_eq_succ_of_ne_zero hpositive
        rw [show (f.minScale + ((e + 1 - 1 : Nat) : Int) - f.minScale).toNat = e by omega, Nat.succ_mul]
        omega
      refine ⟨⟨?_, by omega, .inr (Nat.le_add_right _ _), ?_⟩, ?_⟩
      · rw [Nat.pow_succ]
        omega
      · rw [hcarry]
        have : (exponent + 1) * 2 ^ f.fractionBits ≤ f.topExponent * 2 ^ f.fractionBits :=
          Nat.mul_le_mul_right _ (by omega)
        rw [Nat.add_mul] at this
        omega
      · rw [assemble, pack, hcarry]

/-- An infinite number has one pattern of bits for each sign. -/
theorem eq_infinityBits_of_decode {bits : Nat} (hbits : bits < 2 * f.signWeight) {negative : Bool}
    (h : f.decode bits = .infinite negative) : bits = f.infinityBits negative := by
  obtain ⟨sign, exponent, fraction, hexponent, hfraction, rfl⟩ := exists_assemble hbits
  rw [decode_assemble hexponent hfraction] at h
  split at h
  · next htop =>
    split at h
    · next hzero =>
      cases h
      rw [assemble, htop, hzero, infinityBits, signBits, Nat.add_zero, Nat.add_comm]
    · cases h
  · split at h <;> cases h

/-! ## Values that a format has room for -/

/-- A significand that is not too wide is written with full width, if there is room for it. -/
theorem exists_canonical (hm : 0 < m) (hwidth : m < 2 ^ (f.fractionBits + 1)) (hleast : f.minScale + f.fractionBits ≤ q)
    (hfinite : (q - f.minScale).toNat + 2 ≤ f.topExponent) : ∃ k : Nat, f.Canonical (m * 2 ^ k) (q - k) := by
  have hlog : m.log2 ≤ f.fractionBits := by
    have := Nat.log2_self_le (Nat.ne_of_gt hm)
    have := (Nat.pow_lt_pow_iff_right (by decide : 1 < 2)).mp (Nat.lt_of_le_of_lt this hwidth)
    omega
  have hlow : 2 ^ f.fractionBits ≤ m * 2 ^ (f.fractionBits - m.log2) :=
    calc 2 ^ f.fractionBits = 2 ^ m.log2 * 2 ^ (f.fractionBits - m.log2) := by
          rw [← Nat.pow_add, Nat.add_sub_cancel' hlog]
      _ ≤ m * 2 ^ (f.fractionBits - m.log2) := Nat.mul_le_mul_right _ (Nat.log2_self_le (Nat.ne_of_gt hm))
  have hhigh : m * 2 ^ (f.fractionBits - m.log2) < 2 ^ (f.fractionBits + 1) :=
    calc m * 2 ^ (f.fractionBits - m.log2) < 2 ^ (m.log2 + 1) * 2 ^ (f.fractionBits - m.log2) :=
          Nat.mul_lt_mul_of_pos_right Nat.lt_log2_self (Nat.two_pow_pos _)
      _ = 2 ^ (f.fractionBits + 1) := by
          rw [← Nat.pow_add]
          congr 1
          omega
  refine ⟨f.fractionBits - m.log2, hhigh, by omega, .inr hlow, ?_⟩
  have hexponent : (q - (f.fractionBits - m.log2 : Nat) - f.minScale).toNat + 2 ≤ f.topExponent := by omega
  have := Nat.mul_le_mul_right (2 ^ f.fractionBits) hexponent
  rw [Nat.pow_succ] at hhigh
  rw [Nat.add_mul] at this
  omega

end Format

end Interop
