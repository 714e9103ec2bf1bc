import Interop.Numeral.Reading
import Interop.Proofs.Number.Exact

/-!
# Literals that denote numbers

A literal that is read is rounded, and however large it is, the pattern that it is rounded to denotes a number or an
infinity.

* **`Format.exists_round_eq`**: rounding packs a number below the infinities or as one of them.
* **`Double.isNaN_ofRatio`**, **`Double.isNaN_negate`**: no ratio rounds to a pattern that is not a number, and the sign
  does not matter.
* **`Numeral.Decimal.isNaN_toDouble`**: so it is for every decimal literal.
-/

namespace Interop

-- powers are those of the natural numbers, whatever other powers are in scope
attribute [local instance (high)] instPowNat

/-! ## Patterns of numbers -/

namespace Format

variable {f : Format}

/-- The patterns that are no number have all bits of the exponent set, and some bit of the fraction. -/
theorem decode_eq_nan_iff {bits : Nat} :
    f.decode bits = .nan ↔
      bits / 2 ^ f.fractionBits % 2 ^ f.exponentBits = f.topExponent ∧ bits % 2 ^ f.fractionBits ≠ 0 := by
  unfold decode
  grind

/-- A pattern that does not reach past the infinities denotes a number. -/
theorem decode_signBits_ne_nan {packed : Nat} (h : packed ≤ f.topExponent * 2 ^ f.fractionBits) (negative : Bool) :
    f.decode (f.signBits negative + packed) ≠ .nan := by
  have hpositive := Nat.two_pow_pos f.fractionBits
  have htop := f.topExponent_succ
  have hexponent : packed / 2 ^ f.fractionBits ≤ f.topExponent := Nat.div_le_of_le_mul (by rwa [Nat.mul_comm])
  have hfields : f.signBits negative + packed =
      f.assemble negative (packed / 2 ^ f.fractionBits) (packed % 2 ^ f.fractionBits) := by
    rw [assemble, Nat.div_add_mod']
  rw [hfields, decode_assemble (by omega) (Nat.mod_lt _ hpositive)]
  split
  · next hinfinite =>
    -- nothing is left for the fraction once the exponent field is full
    have hfraction : packed % 2 ^ f.fractionBits = 0 := by
      have := Nat.div_add_mod' packed (2 ^ f.fractionBits)
      rw [hinfinite] at this
      omega
    rw [if_pos hfraction]
    rintro ⟨⟩
  · split <;> rintro ⟨⟩

/-- Rounding gives a number, and packs it below the infinities or as one of them. -/
theorem exists_round_eq (f : Format) (negative : Bool) (num den : Nat) :
    ∃ packed ≤ f.topExponent * 2 ^ f.fractionBits, f.round negative num den = f.signBits negative + packed := by
  have hsign : (if negative then f.signWeight else 0) = f.signBits negative := rfl
  unfold round infinityBits
  dsimp only
  rw [hsign]
  split
  · exact ⟨0, Nat.zero_le _, rfl⟩
  · split
    · next hfinite => exact ⟨_, Nat.le_of_lt hfinite, rfl⟩
    · exact ⟨_, Nat.le_refl _, Nat.add_comm ..⟩

end Format

namespace Double

theorem isNaN_eq_false_iff {x : Double} : x.isNaN = false ↔ x.datum ≠ .nan := beq_eq_false_iff_ne

/-- **No ratio rounds to a pattern that is not a number.** -/
theorem isNaN_ofRatio (negative : Bool) (num den : Nat) : (ofRatio negative num den).isNaN = false := by
  obtain ⟨packed, hpacked, hround⟩ := Format.binary64.exists_round_eq negative num den
  have hlt : Format.binary64.signBits negative + packed < UInt64.size := by
    have htop : Format.binary64.topExponent * 2 ^ Format.binary64.fractionBits < 2 ^ 63 := by decide
    have hsign : Format.binary64.signBits negative ≤ 2 ^ 63 := by cases negative <;> decide
    have hsize : UInt64.size = 2 ^ 63 + 2 ^ 63 := by decide
    omega
  rw [isNaN_eq_false_iff, datum, ofRatio, hround]
  show Format.binary64.decode (UInt64.ofNat _).toNat ≠ _
  rw [UInt64.toNat_ofNat_of_lt' hlt]
  exact Format.decode_signBits_ne_nan hpacked negative

/-- The infinite doubles are numbers in this sense. -/
theorem isNaN_infinity (negative : Bool) : (infinity negative).isNaN = false := by
  cases negative <;> decide +kernel

/-- The sign bit lies outside the fields that tell a number from what is not one. -/
theorem isNaN_negate (x : Double) : x.negate.isNaN = x.isNaN := by
  have hbits : x.negate.bits.toNat = x.bits.toNat ^^^ 2 ^ 63 := UInt64.toNat_xor ..
  have hfraction : (x.bits.toNat ^^^ 2 ^ 63) % 2 ^ 52 = x.bits.toNat % 2 ^ 52 := by
    rw [Nat.xor_mod_two_pow, show 2 ^ 63 % 2 ^ 52 = 0 by decide, Nat.xor_zero]
  have hexponent : (x.bits.toNat ^^^ 2 ^ 63) / 2 ^ 52 % 2 ^ 11 = x.bits.toNat / 2 ^ 52 % 2 ^ 11 := by
    rw [Nat.xor_div_two_pow, Nat.xor_mod_two_pow, show 2 ^ 63 / 2 ^ 52 % 2 ^ 11 = 0 by decide, Nat.xor_zero]
  have hnan : x.negate.datum = .nan ↔ x.datum = .nan := by
    rw [datum, datum, Format.decode_eq_nan_iff, Format.decode_eq_nan_iff, hbits]
    show _ / 2 ^ 52 % 2 ^ 11 = _ ∧ _ % 2 ^ 52 ≠ 0 ↔ _
    rw [hfraction, hexponent]
    rfl
  rw [isNaN, isNaN, Bool.eq_iff_iff, beq_iff_eq, beq_iff_eq]
  exact hnan

end Double

namespace Numeral

/-- A decimal is rounded to a number or to an infinite one. -/
theorem Decimal.isNaN_toDouble (negative : Bool) (d : Decimal) : (d.toDouble negative).isNaN = false := by
  unfold toDouble
  dsimp only
  split
  · exact Double.isNaN_ofRatio ..
  · split
    · exact Double.isNaN_infinity negative
    · exact Double.isNaN_ofRatio ..

end Numeral

end Interop
