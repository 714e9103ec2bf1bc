import Interop.Proofs.Numeral.Decimals
import Interop.Proofs.Numeral.Hexadecimals

/-!
# The grammar of number text

The grammar gives number text by its parts: a sign, digits with a point, an exponent, the word `Infinity`, a marker
with hexadecimal digits. Reading follows it but for three classes of text, all of which come from the two readers at
the bottom having a rule of their own: a decimal literal may carry a second sign, hexadecimal digits may follow a plus
sign, and hexadecimal digits are read as a 64-bit word.

* **`NumberText`**: the grammar.
* **`ExceedsWord`**, **`TwiceSigned`**, **`PlusedHexadecimal`**: the three classes of text.
* **`isNaN_scriptNumber_iff`**: which texts denote numbers.
-/

namespace Interop

namespace Numeral

/-! ## The grammar -/

/-- **Number text**, the white space at its ends taken off. -/
inductive NumberText : List Char → Prop
  | empty : NumberText []
  | infinity {sign : List Char} (hsign : IsSign sign) : NumberText (sign ++ "Infinity".toList)
  | decimal {sign literal : List Char} (hsign : IsSign sign) (h : IsDecimal literal) : NumberText (sign ++ literal)
  | hexadecimal {marker digits : List Char} (hmarker : IsHexMarker marker) (h : IsHexDigits digits) :
    NumberText (marker ++ digits)

/-- A hexadecimal number that takes more than 64 bits. -/
inductive ExceedsWord : List Char → Prop
  | intro {marker digits : List Char} (hmarker : IsHexMarker marker) (h : IsHexDigits digits)
    (hlarge : UInt64.size ≤ hexValue digits) : ExceedsWord (marker ++ digits)

/-- A decimal literal behind two signs. -/
inductive TwiceSigned : List Char → Prop
  | intro {first second literal : List Char} (hfirst : IsSign first) (hne : first ≠ []) (hsecond : IsSign second)
    (hne' : second ≠ []) (h : IsDecimal literal) : TwiceSigned (first ++ (second ++ literal))

/-- A plus sign between the marker and the digits of a hexadecimal number that fits 64 bits. -/
inductive PlusedHexadecimal : List Char → Prop
  | intro {marker digits : List Char} (hmarker : IsHexMarker marker) (h : IsHexDigits digits)
    (hsmall : hexValue digits < UInt64.size) : PlusedHexadecimal (marker ++ '+' :: digits)

/-! ## Reading -/

section Texts

variable {cs body : List Char} {negative signed : Bool}

/-- What may follow a sign, and what may stand without one. -/
theorem isNaN_trimmedNumber (hne : cs ≠ []) (hsign : takeSign cs = (negative, signed, body)) :
    (trimmedNumber cs).isNaN = false ↔
      body = "Infinity".toList ∨
      (signed = false ∧ ∃ hex, afterHexMarker? body = some hex ∧ (readHexWord hex).isSome) ∨
      (readDecimal body).isSome := by
  have hnan : ¬Double.nan.isNaN = false := by decide +kernel
  unfold trimmedNumber
  rw [if_neg (by simpa using hne), hsign]
  dsimp only
  split
  · next hinfinity => exact iff_of_true (Double.isNaN_infinity negative) (.inl hinfinity)
  · next hinfinity =>
    rw [or_iff_right hinfinity]
    split
    · next hex hmarked =>
      -- a marker keeps the text from being a decimal literal
      have hdecimal : ¬(readDecimal body).isSome := by
        intro h
        obtain ⟨marker, hmarker, rfl⟩ := afterHexMarker?_eq_some_iff.mp hmarked
        exact hmarker.not_decimalChars (isDecimalChar_of_readDecimal h)
      rw [or_iff_left hdecimal, hmarked]
      split
      · next n hword =>
        cases signed with
        | true => exact iff_of_false hnan (by simp)
        | false => exact iff_of_true (Double.isNaN_ofRatio ..) ⟨rfl, hex, rfl, by rw [hword]; rfl⟩
      · next hword => exact iff_of_false hnan (by simp [hword])
    · next hmarked =>
      rw [hmarked, or_iff_right (by simp)]
      split
      · next hchars =>
        cases hread : readDecimal body with
        | none => exact iff_of_false hnan (by simp)
        | some x =>
          have hx := isNaN_of_readDecimal hread
          cases negative with
          | true => exact iff_of_true ((Double.isNaN_negate x).trans hx) rfl
          | false => exact iff_of_true hx rfl
      · next hchars =>
        exact iff_of_false hnan fun h => hchars (List.all_eq_true.mpr (isDecimalChar_of_readDecimal h))

/-! A number of more than 64 bits is told from other number text by its marker. -/

theorem ExceedsWord.not_decimalChars (h : ExceedsWord cs) : ¬∀ c ∈ cs, isDecimalChar c := by
  obtain ⟨hmarker, -, -⟩ := h
  exact hmarker.not_decimalChars

/-- A number of more than 64 bits starts with the zero of its marker. -/
theorem ExceedsWord.head?_eq (h : ExceedsWord cs) : cs.head? = some '0' := by
  obtain ⟨hmarker, -, -⟩ := h
  cases hmarker <;> rfl

/-- The digits behind the marker are worth more than a word. -/
theorem ExceedsWord.le_hexValue {marker digits : List Char} (hmarker : IsHexMarker marker)
    (h : ExceedsWord (marker ++ digits)) : UInt64.size ≤ hexValue digits := by
  generalize hcs : marker ++ digits = cs at h
  obtain ⟨hmarker', -, hlarge⟩ := h
  obtain ⟨-, rfl⟩ := List.append_inj hcs (by cases hmarker <;> cases hmarker' <;> rfl)
  exact hlarge

/-- Behind a sign stands the word or a decimal literal, which may have a sign of its own. -/
theorem grammar_of_signed {sign : List Char} (hsign : IsSign sign) (hne : sign ≠ [])
    (h : body = "Infinity".toList ∨ (readDecimal body).isSome) :
    NumberText (sign ++ body) ∧ ¬ExceedsWord (sign ++ body) ∨ TwiceSigned (sign ++ body) := by
  have hword : ¬ExceedsWord (sign ++ body) := by
    intro h
    have hhead := h.head?_eq
    cases hsign with
    | none => exact hne rfl
    | plus => cases hhead
    | minus => cases hhead
  rcases h with rfl | h
  · exact .inl ⟨.infinity hsign, hword⟩
  · obtain ⟨sign', literal, hsign', hliteral, rfl⟩ := isSome_readDecimal.mp h
    by_cases hne' : sign' = []
    · subst hne'
      exact .inl ⟨.decimal hsign hliteral, hword⟩
    · exact .inr (.intro hsign hne hsign' hne' hliteral)

/-- Without a sign stands the word, a decimal literal, or a marker with digits, in front of which the parser for words
takes a plus. -/
theorem grammar_of_unsigned (hunsigned : Unsigned cs)
    (h : cs = "Infinity".toList ∨ (∃ hex, afterHexMarker? cs = some hex ∧ (readHexWord hex).isSome) ∨
      (readDecimal cs).isSome) :
    NumberText cs ∧ ¬ExceedsWord cs ∨ PlusedHexadecimal cs := by
  rcases h with rfl | ⟨hex, hmarked, hword⟩ | h
  · exact .inl ⟨.infinity .none, fun hword => absurd hword.head?_eq (by decide)⟩
  · obtain ⟨marker, hmarker, rfl⟩ := afterHexMarker?_eq_some_iff.mp hmarked
    obtain ⟨digits, hdigits, hsmall, rfl | rfl⟩ := isSome_readHexWord.mp hword
    · exact .inl ⟨.hexadecimal hmarker hdigits, fun hword => Nat.not_lt_of_le (hword.le_hexValue hmarker) hsmall⟩
    · exact .inr (.intro hmarker hdigits hsmall)
  · have hword : ¬ExceedsWord cs := fun hword => hword.not_decimalChars (isDecimalChar_of_readDecimal h)
    obtain ⟨sign, literal, hsign, hliteral, rfl⟩ := isSome_readDecimal.mp h
    exact .inl ⟨.decimal hsign hliteral, hword⟩

/-- The word and what the decimal parser reads are numbers behind a sign. -/
theorem isNaN_of_signed {sign : List Char} (hsign : IsSign sign) (hbody : sign ≠ [] ∨ Unsigned body)
    (h : body = "Infinity".toList ∨ (readDecimal body).isSome) : (trimmedNumber (sign ++ body)).isNaN = false := by
  have hne : body ≠ [] := by
    rintro rfl
    rcases h with h | h <;> cases h
  obtain ⟨negative, signed, htake⟩ := exists_takeSign hsign hbody
  exact (isNaN_trimmedNumber (by simp [hne]) htake).mpr (h.imp_right .inr)

/-- What the parser for words reads is a number behind a marker. -/
theorem isNaN_of_marked {marker hex : List Char} (hmarker : IsHexMarker marker) (h : (readHexWord hex).isSome) :
    (trimmedNumber (marker ++ hex)).isNaN = false := by
  have htake : takeSign (marker ++ hex) = (false, false, marker ++ hex) := by cases hmarker <;> rfl
  have hne : marker ++ hex ≠ [] := by cases hmarker <;> nofun
  exact (isNaN_trimmedNumber hne htake).mpr
    (.inr (.inl ⟨rfl, hex, afterHexMarker?_eq_some_iff.mpr ⟨marker, hmarker, rfl⟩, h⟩))

/-! None of the texts read besides those of the grammar belongs to it. -/

/-- Too large a number is number text nevertheless. -/
theorem ExceedsWord.numberText (h : ExceedsWord cs) : NumberText cs := by
  obtain ⟨hmarker, hdigits, -⟩ := h
  exact .hexadecimal hmarker hdigits

theorem NumberText.unsigned_takeSign (h : NumberText cs) : Unsigned (takeSign cs).2.2 := by
  have hbehind : ∀ {sign body : List Char}, IsSign sign → Unsigned body → Unsigned (takeSign (sign ++ body)).2.2 := by
    intro sign body hsign hbody
    obtain ⟨negative, signed, htake⟩ := exists_takeSign hsign (.inr hbody)
    rwa [htake]
  cases h with
  | empty => nofun
  | infinity hsign => exact hbehind hsign (by rintro _ ⟨⟩; decide)
  | decimal hsign hliteral => exact hbehind hsign hliteral.unsigned
  | hexadecimal hmarker => cases hmarker <;> (rintro _ ⟨⟩; decide)

theorem TwiceSigned.not_numberText (h : TwiceSigned cs) : ¬NumberText cs := by
  intro htext
  have hunsigned := htext.unsigned_takeSign
  obtain ⟨hfirst, hne, hsecond, hne', -⟩ := h
  obtain ⟨negative, signed, htake⟩ := exists_takeSign hfirst (.inl hne)
  rw [htake] at hunsigned
  cases hsecond with
  | none => exact hne' rfl
  | plus => exact (hunsigned '+' rfl).2 rfl
  | minus => exact (hunsigned '-' rfl).1 rfl

/-- A plus behind the marker does so too, since no digits start with it. -/
theorem PlusedHexadecimal.not_numberText (h : PlusedHexadecimal cs) : ¬NumberText cs := by
  obtain ⟨hmarker, -, -⟩ := h
  next marker digits =>
  intro htext
  generalize hcs : marker ++ '+' :: digits = cs at htext
  have hchars : ¬∀ c ∈ cs, isDecimalChar c := hcs ▸ hmarker.not_decimalChars
  have hhead : cs.head? = some '0' := by
    subst hcs
    cases hmarker <;> rfl
  cases htext with
  | empty => cases hhead
  | infinity hsign => cases hsign <;> cases hhead
  | decimal hsign hliteral => exact hchars (isDecimalChar_of_signed hsign hliteral)
  | hexadecimal hmarker' hdigits =>
    obtain ⟨-, rfl⟩ := List.append_inj hcs (by cases hmarker <;> cases hmarker' <;> rfl)
    exact not_isHexDigits_plus hdigits

/-- The texts without white space at their ends that denote numbers. -/
theorem isNaN_trimmedNumber_iff : (trimmedNumber cs).isNaN = false ↔
    NumberText cs ∧ ¬ExceedsWord cs ∨ TwiceSigned cs ∨ PlusedHexadecimal cs := by
  constructor
  · intro h
    by_cases hne : cs = []
    · subst hne
      exact .inl ⟨.empty, fun hword => absurd hword.head?_eq nofun⟩
    · -- by the sign that is taken off; a marker counts only where there was none
      rcases takeSign_cases cs with ⟨body, rfl, htake⟩ | ⟨body, rfl, htake⟩ | ⟨hunsigned, htake⟩
      · have hbody := (isNaN_trimmedNumber hne htake).mp h
        exact (grammar_of_signed .minus nofun (hbody.imp_right (·.resolve_left nofun))).imp_right .inl
      · have hbody := (isNaN_trimmedNumber hne htake).mp h
        exact (grammar_of_signed .plus nofun (hbody.imp_right (·.resolve_left nofun))).imp_right .inl
      · have hbody := (isNaN_trimmedNumber hne htake).mp h
        exact (grammar_of_unsigned hunsigned (hbody.imp_right (·.imp_left (·.2)))).imp_right .inr
  · rintro (⟨htext, hword⟩ | ⟨hfirst, hne, hsecond, -, hliteral⟩ | ⟨hmarker, hdigits, hsmall⟩)
    · cases htext with
      | empty => rfl
      | infinity hsign => exact isNaN_of_signed hsign (.inr (by rintro _ ⟨⟩; decide)) (.inl rfl)
      | decimal hsign hliteral =>
        have hread := isSome_readDecimal.mpr ⟨_, _, .none, hliteral, rfl⟩
        exact isNaN_of_signed hsign (.inr hliteral.unsigned) (.inr hread)
      | hexadecimal hmarker hdigits =>
        have hsmall := Nat.lt_of_not_le fun hlarge => hword (.intro hmarker hdigits hlarge)
        exact isNaN_of_marked hmarker (isSome_readHexWord.mpr ⟨_, hdigits, hsmall, .inl rfl⟩)
    · exact isNaN_of_signed hfirst (.inl hne) (.inr (isSome_readDecimal.mpr ⟨_, _, hsecond, hliteral, rfl⟩))
    · exact isNaN_of_marked hmarker (isSome_readHexWord.mpr ⟨_, hdigits, hsmall, .inr rfl⟩)

/-- **Number text by its grammar, and what is read besides it.** A text denotes a number exactly if, the white space at
its ends taken off, it is
* number text by the grammar, and no hexadecimal number of more than 64 bits; or
* a decimal literal behind two signs; or
* a hexadecimal number of at most 64 bits with a plus sign behind the marker.

So reading and the grammar differ on a text exactly if it is a hexadecimal number of more than 64 bits, or one of the
texts that are read besides the grammar. -/
theorem isNaN_scriptNumber_iff (s : String) :
    ((scriptNumber s).isNaN = false ↔
      NumberText (Text.trim s.toList) ∧ ¬ExceedsWord (Text.trim s.toList) ∨ TwiceSigned (Text.trim s.toList) ∨
        PlusedHexadecimal (Text.trim s.toList)) ∧
    (((scriptNumber s).isNaN = false ↔ NumberText (Text.trim s.toList)) ↔
      ¬(ExceedsWord (Text.trim s.toList) ∨ TwiceSigned (Text.trim s.toList) ∨
        PlusedHexadecimal (Text.trim s.toList))) := by
  rw [scriptNumber]
  generalize Text.trim s.toList = cs
  have hexceeds : ExceedsWord cs → NumberText cs := ExceedsWord.numberText
  have htwice : TwiceSigned cs → ¬NumberText cs := TwiceSigned.not_numberText
  have hplused : PlusedHexadecimal cs → ¬NumberText cs := PlusedHexadecimal.not_numberText
  refine ⟨isNaN_trimmedNumber_iff, ?_⟩
  rw [isNaN_trimmedNumber_iff]
  grind

example : (scriptNumber "--5").isNaN = false ∧ (scriptNumber " 0x+1F ").isNaN = false ∧
    (scriptNumber "0x10000000000000000").isNaN = true := by
  decide +kernel

end Texts

end Numeral

end Interop
