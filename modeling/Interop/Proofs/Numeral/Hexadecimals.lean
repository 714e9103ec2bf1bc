import Interop.Numeral.Reading

/-!
# Hexadecimal words

Hexadecimal digits behind a marker. The reader takes digits that fit a 64-bit word, and it takes a plus sign before
them.

* **`IsHexDigits`**, **`hexValue`**, **`IsHexMarker`**: the grammar, and the number that is written.
* **`isSome_readHexWord`**: what the reader takes.
-/

namespace Interop

namespace Numeral

/-! ## The grammar -/

/-- A digit, or one of the first six letters in either case. -/
def IsHexDigit (c : Char) : Prop := c.isDigit ∨ 'a' ≤ c ∧ c ≤ 'f' ∨ 'A' ≤ c ∧ c ≤ 'F'

/-- One or more hexadecimal digits. -/
structure IsHexDigits (cs : List Char) : Prop where
  ne_nil : cs ≠ []
  isHexDigit : ∀ c ∈ cs, IsHexDigit c

/-- The number that hexadecimal digits write. -/
def hexValue (cs : List Char) : Nat := cs.foldl (fun n c => 16 * n + (hexDigit? c).getD 0) 0

/-- What marks hexadecimal digits. -/
inductive IsHexMarker : List Char → Prop
  | lower : IsHexMarker ['0', 'x']
  | upper : IsHexMarker ['0', 'X']

/-! ## Reading -/

section Hexadecimals

variable {cs digits rest : List Char} {c : Char} {n : Nat}

/-- A character has a value as a digit exactly where it is one. -/
theorem isSome_hexDigit? : (hexDigit? c).isSome ↔ IsHexDigit c := by
  unfold hexDigit? IsHexDigit
  grind

theorem not_isHexDigits_plus : ¬IsHexDigits ('+' :: digits) := fun h =>
  absurd (h.isHexDigit '+' List.mem_cons_self) (by unfold IsHexDigit; decide)

/-- One character that is no digit spoils the rest. -/
theorem foldl_hexDigit?_none (cs : List Char) :
    cs.foldl (fun n c => n.bind fun n => (hexDigit? c).map (16 * n + ·)) none = none := by
  induction cs with
  | nil => rfl
  | cons c cs ih => exact ih

/-- The fold over optional values fails at a character that is no digit, and else adds up their values. -/
theorem foldl_hexDigit? (cs : List Char) (n : Nat) :
    cs.foldl (fun n c => n.bind fun n => (hexDigit? c).map (16 * n + ·)) (some n) =
      if cs.all fun c => (hexDigit? c).isSome then some (cs.foldl (fun n c => 16 * n + (hexDigit? c).getD 0) n)
      else none := by
  induction cs generalizing n with
  | nil => rfl
  | cons c cs ih =>
    rw [List.foldl_cons, List.foldl_cons, List.all_cons]
    cases hdigit : hexDigit? c with
    | none => exact foldl_hexDigit?_none cs
    | some d => exact ih (16 * n + d)

/-- Digits are read to the number that they are worth. -/
theorem readHexDigits_eq_some_iff : readHexDigits cs = some n ↔ IsHexDigits cs ∧ hexValue cs = n := by
  have hdigits : IsHexDigits cs ↔ cs ≠ [] ∧ (cs.all fun c => (hexDigit? c).isSome) := by
    simp only [List.all_eq_true, isSome_hexDigit?]
    exact ⟨fun h => ⟨h.ne_nil, h.isHexDigit⟩, fun h => ⟨h.1, h.2⟩⟩
  rw [hdigits, readHexDigits, foldl_hexDigit?, hexValue]
  grind

/-- A word is read from digits that fit it, and from those behind a plus, which is where the parser goes beyond the
grammar. -/
theorem isSome_readHexWord : (readHexWord cs).isSome ↔
    ∃ digits, IsHexDigits digits ∧ hexValue digits < UInt64.size ∧ (cs = digits ∨ cs = '+' :: digits) := by
  have hword : ∀ {digits : List Char}, ((readHexDigits digits).filter (· < UInt64.size)).isSome ↔
      IsHexDigits digits ∧ hexValue digits < UInt64.size := by
    intro digits
    rw [Option.isSome_iff_exists]
    simp only [Option.filter_eq_some_iff, readHexDigits_eq_some_iff, decide_eq_true_eq]
    exact ⟨fun ⟨_, ⟨hdigits, rfl⟩, hsmall⟩ => ⟨hdigits, hsmall⟩, fun ⟨hdigits, hsmall⟩ => ⟨_, ⟨hdigits, rfl⟩, hsmall⟩⟩
  unfold readHexWord
  split
  · next digits =>
    rw [hword]
    constructor
    · rintro ⟨hdigits, hsmall⟩
      exact ⟨digits, hdigits, hsmall, .inr rfl⟩
    · rintro ⟨_, hdigits, hsmall, rfl | hcs⟩
      · exact absurd hdigits not_isHexDigits_plus
      · cases hcs
        exact ⟨hdigits, hsmall⟩
  · next hunsigned =>
    rw [hword]
    constructor
    · rintro ⟨hdigits, hsmall⟩
      exact ⟨cs, hdigits, hsmall, .inl rfl⟩
    · rintro ⟨digits, hdigits, hsmall, rfl | rfl⟩
      · exact ⟨hdigits, hsmall⟩
      · exact absurd rfl (hunsigned digits)

/-- What is behind the marker is what is left when it is taken off. -/
theorem afterHexMarker?_eq_some_iff :
    afterHexMarker? cs = some rest ↔ ∃ marker, IsHexMarker marker ∧ cs = marker ++ rest := by
  constructor
  · intro h
    unfold afterHexMarker? at h
    split at h
    · cases h
      exact ⟨_, .lower, rfl⟩
    · cases h
      exact ⟨_, .upper, rfl⟩
    · cases h
  · rintro ⟨marker, hmarker, rfl⟩
    cases hmarker <;> rfl

/-- The second character of a marker is in no decimal literal. -/
theorem IsHexMarker.not_decimalChars (h : IsHexMarker cs) : ¬∀ c ∈ cs ++ rest, isDecimalChar c := by
  cases h with
  | lower => exact fun hchars => absurd (hchars 'x' (by simp)) (by decide)
  | upper => exact fun hchars => absurd (hchars 'X' (by simp)) (by decide)

end Hexadecimals

end Numeral

end Interop
