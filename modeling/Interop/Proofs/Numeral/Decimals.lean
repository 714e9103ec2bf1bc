import Interop.Proofs.Numeral.Patterns

/-!
# Decimal literals

The grammar of decimal literals: digits of which some may follow a point, an exponent, and a sign before the whole. The
reader takes exactly these, also where the sign is its own.

* **`IsDecimal`**: the grammar.
* **`behind_takeSign_iff`**: a text with its sign taken off.
* **`isSome_readUnsigned`**, **`isSome_readDecimal`**: what the readers take.
-/

namespace Interop

namespace Numeral

/-! ## The grammar -/

/-- At most one sign. -/
inductive IsSign : List Char → Prop
  | none : IsSign []
  | plus : IsSign ['+']
  | minus : IsSign ['-']

/-- One or more decimal digits. -/
structure IsDigits (cs : List Char) : Prop where
  ne_nil : cs ≠ []
  isDigit : ∀ c ∈ cs, c.isDigit

/-- Digits, of which some may follow a point; the point may be the last character but not the only one. -/
inductive IsMantissa : List Char → Prop
  | whole {digits : List Char} (h : IsDigits digits) : IsMantissa digits
  | pointed {digits fraction : List Char} (h : IsDigits digits) (hfraction : ∀ c ∈ fraction, c.isDigit) :
    IsMantissa (digits ++ '.' :: fraction)
  | fraction {digits : List Char} (h : IsDigits digits) : IsMantissa ('.' :: digits)

/-- An exponent, or none. -/
inductive IsExponent : List Char → Prop
  | none : IsExponent []
  | marked {marker : Char} {sign digits : List Char} (hmarker : marker = 'e' ∨ marker = 'E') (hsign : IsSign sign)
    (h : IsDigits digits) : IsExponent (marker :: (sign ++ digits))

/-- An unsigned decimal literal. -/
inductive IsDecimal : List Char → Prop
  | intro {mantissa exponent : List Char} (hmantissa : IsMantissa mantissa) (hexponent : IsExponent exponent) :
    IsDecimal (mantissa ++ exponent)

/-! ## Signs -/

section Signs

variable {cs : List Char}

/-- The text does not begin with a sign. -/
def Unsigned (cs : List Char) : Prop := ∀ c ∈ cs.head?, c ≠ '-' ∧ c ≠ '+'

theorem takeSign_of_unsigned (h : Unsigned cs) : takeSign cs = (false, false, cs) := by
  unfold takeSign
  split
  · exact absurd rfl (h '-' rfl).1
  · exact absurd rfl (h '+' rfl).2
  · rfl

/-- A text starts with a minus, with a plus, or with no sign. -/
theorem takeSign_cases (cs : List Char) :
    (∃ body, cs = '-' :: body ∧ takeSign cs = (true, true, body)) ∨
    (∃ body, cs = '+' :: body ∧ takeSign cs = (false, true, body)) ∨
    Unsigned cs ∧ takeSign cs = (false, false, cs) := by
  fun_cases takeSign cs with
  | case1 body => exact .inl ⟨body, rfl, rfl⟩
  | case2 body => exact .inr (.inl ⟨body, rfl, rfl⟩)
  | case3 cs hminus hplus =>
    refine .inr (.inr ⟨?_, rfl⟩)
    cases cs with
    | nil => nofun
    | cons c body =>
      rintro _ ⟨⟩
      exact ⟨fun hc => hminus body (by rw [hc]), fun hc => hplus body (by rw [hc])⟩

/-- A sign in front is taken off again, or there is none to take. -/
theorem exists_takeSign {sign : List Char} (hsign : IsSign sign) (h : sign ≠ [] ∨ Unsigned cs) :
    ∃ negative signed, takeSign (sign ++ cs) = (negative, signed, cs) := by
  cases hsign with
  | none => exact ⟨_, _, takeSign_of_unsigned (h.resolve_left (· rfl))⟩
  | plus => exact ⟨_, _, rfl⟩
  | minus => exact ⟨_, _, rfl⟩

/-- **What has no sign of its own is what is left where an optional sign is taken off.** -/
theorem behind_takeSign_iff {P : List Char → Prop} (hP : ∀ body, P body → Unsigned body) :
    P (takeSign cs).2.2 ↔ ∃ sign body, IsSign sign ∧ P body ∧ cs = sign ++ body := by
  constructor
  · intro h
    rcases takeSign_cases cs with ⟨body, rfl, -⟩ | ⟨body, rfl, -⟩ | ⟨-, htake⟩
    · exact ⟨_, body, .minus, h, rfl⟩
    · exact ⟨_, body, .plus, h, rfl⟩
    · rw [htake] at h
      exact ⟨_, cs, .none, h, rfl⟩
  · rintro ⟨sign, body, hsign, h, rfl⟩
    cases hsign with
    | none => rwa [List.nil_append, takeSign_of_unsigned (hP body h)]
    | plus => exact h
    | minus => exact h

end Signs

/-! ## Decimal literals -/

section Decimals

variable {cs whole fraction rest : List Char}

/-- Digits are a non-empty run of digit characters. -/
theorem isDigits_iff : IsDigits cs ↔ (cs.isEmpty || !cs.all Char.isDigit) = false := by
  rw [Bool.or_eq_false_iff, Bool.not_eq_false', List.all_eq_true, List.isEmpty_eq_false_iff]
  exact ⟨fun h => ⟨h.ne_nil, h.isDigit⟩, fun h => ⟨h.1, h.2⟩⟩

theorem IsDigits.unsigned (h : IsDigits cs) : Unsigned cs := by
  intro c hc
  have hdigit := h.isDigit c (List.mem_of_mem_head? hc)
  constructor <;> rintro rfl <;> cases hdigit

/-- An exponent is read exactly where it is a sign and digits. -/
theorem isSome_readExponent :
    (readExponent cs).isSome ↔ ∃ sign digits, IsSign sign ∧ IsDigits digits ∧ cs = sign ++ digits := by
  have hread : ∀ {digits : List Char} {n : Int},
      (if digits.isEmpty || !digits.all Char.isDigit then none else some n).isSome ↔ IsDigits digits := by
    intro digits n
    rw [isDigits_iff, Option.isSome_ite']
    exact iff_of_eq (Bool.not_eq_true _)
  rw [← behind_takeSign_iff fun _ => IsDigits.unsigned]
  rcases takeSign_cases cs with ⟨body, rfl, htake⟩ | ⟨body, rfl, htake⟩ | ⟨hunsigned, htake⟩
  · exact hread
  · exact hread
  · rw [htake]
    unfold readExponent
    split
    next negative digits hsign =>
      split at hsign
      · exact absurd rfl (hunsigned '-' rfl).1
      · exact absurd rfl (hunsigned '+' rfl).2
      · cases hsign
        exact hread

/-- The exponent behind a mantissa, which is zero where nothing follows. -/
def exponentBehind : List Char → Option Int
  | [] => some 0
  | c :: more => if c == 'e' || c == 'E' then readExponent more else none

/-- Behind the marker of an exponent the text is read exactly where it has the form of one. -/
theorem isSome_exponentBehind : (exponentBehind rest).isSome ↔ IsExponent rest := by
  cases rest with
  | nil => exact ⟨fun _ => .none, fun _ => rfl⟩
  | cons marker more =>
    rw [exponentBehind]
    constructor
    · intro h
      split at h
      · next hmarker =>
        obtain ⟨sign, digits, hsign, hdigits, rfl⟩ := isSome_readExponent.mp h
        exact .marked (by simpa using hmarker) hsign hdigits
      · cases h
    · rintro ⟨⟩
      next sign digits hsign hdigits hmarker =>
        rw [if_pos (by simpa using hmarker)]
        exact isSome_readExponent.mpr ⟨sign, digits, hsign, hdigits, rfl⟩

/-- The text after a run of digits does not go on with one. -/
def EndsDigits (rest : List Char) : Prop := ∀ c ∈ rest.head?, c.isDigit = false

/-- The digits in front are all that is taken in the first place. -/
theorem takeWhile_digits (h : ∀ c ∈ whole, c.isDigit) (hrest : EndsDigits rest) :
    (whole ++ rest).takeWhile Char.isDigit = whole := by
  rw [List.takeWhile_append_of_pos h]
  cases rest with
  | nil => exact List.append_nil whole
  | cons c rest => rw [List.takeWhile_cons_of_neg (by simpa using hrest c rfl), List.append_nil]

theorem dropWhile_digits (h : ∀ c ∈ whole, c.isDigit) (hrest : EndsDigits rest) :
    (whole ++ rest).dropWhile Char.isDigit = rest := by
  rw [List.dropWhile_append_of_pos h]
  cases rest with
  | nil => rfl
  | cons c rest => exact List.dropWhile_cons_of_neg (by simpa using hrest c rfl)

/-- Every text begins with a run of digits, which may be empty. -/
theorem exists_digits (cs : List Char) :
    ∃ whole rest, (∀ c ∈ whole, c.isDigit) ∧ EndsDigits rest ∧ cs = whole ++ rest := by
  refine ⟨cs.takeWhile Char.isDigit, cs.dropWhile Char.isDigit, List.all_eq_true.mp List.all_takeWhile, ?_,
    List.takeWhile_append_dropWhile.symm⟩
  intro c hc
  have := List.head?_dropWhile_not Char.isDigit cs
  rwa [hc] at this

/-- The digits behind a point, if one comes first, and the text after them. -/
def behindPoint (cs : List Char) : List Char × List Char :=
  match cs with
  | '.' :: more => (more.takeWhile Char.isDigit, more.dropWhile Char.isDigit)
  | _ => ([], cs)

theorem behindPoint_of_ne (h : ∀ more, rest ≠ '.' :: more) : behindPoint rest = ([], rest) := by
  unfold behindPoint
  split
  · next more => exact absurd rfl (h more)
  · rfl

theorem behindPoint_append (hfraction : ∀ c ∈ fraction, c.isDigit) (hrest : EndsDigits rest) :
    behindPoint ('.' :: (fraction ++ rest)) = (fraction, rest) := by
  rw [behindPoint, takeWhile_digits hfraction hrest, dropWhile_digits hfraction hrest]

/-- A literal is read part by part. -/
theorem readUnsigned_append {after : List Char} (hwhole : ∀ c ∈ whole, c.isDigit) (hafter : EndsDigits after)
    (hparts : behindPoint after = (fraction, rest)) :
    readUnsigned (whole ++ after) =
      if whole.isEmpty && fraction.isEmpty then none
      else (exponentBehind rest).map fun e => ⟨digitsValue (whole ++ fraction), e - fraction.length⟩ := by
  obtain ⟨rfl, rfl⟩ : (behindPoint after).1 = fraction ∧ (behindPoint after).2 = rest := by
    rw [hparts]
    exact ⟨rfl, rfl⟩
  unfold readUnsigned
  rw [takeWhile_digits hwhole hafter, dropWhile_digits hwhole hafter]
  rfl

/-- A literal without a sign is read exactly where it has a digit on either side of the point and ends in an exponent or
in nothing. -/
theorem isSome_readUnsigned_append {after : List Char} (hwhole : ∀ c ∈ whole, c.isDigit) (hafter : EndsDigits after)
    (hparts : behindPoint after = (fraction, rest)) :
    (readUnsigned (whole ++ after)).isSome ↔ (whole ≠ [] ∨ fraction ≠ []) ∧ IsExponent rest := by
  rw [readUnsigned_append hwhole hafter hparts, ← isSome_exponentBehind]
  split
  · next hempty => simp_all
  · next hnonempty =>
    rw [Option.isSome_map]
    grind

/-- An exponent is no continuation of the digits. -/
theorem IsExponent.endsDigits (h : IsExponent rest) : EndsDigits rest := by
  cases h with
  | none => nofun
  | marked hmarker =>
    rintro _ ⟨⟩
    rcases hmarker with rfl | rfl <;> rfl

theorem IsExponent.ne_point (h : IsExponent rest) (more : List Char) : rest ≠ '.' :: more := by
  rintro rfl
  cases h with
  | marked hmarker => exact absurd hmarker (by decide)

/-- **The literals that are read are those of the grammar.** -/
theorem isSome_readUnsigned : (readUnsigned cs).isSome ↔ IsDecimal cs := by
  constructor
  · intro h
    -- the digits in front, then a point and more digits or none, then the exponent
    obtain ⟨whole, after, hwhole, hafter, rfl⟩ := exists_digits cs
    by_cases hpoint : ∃ more, after = '.' :: more
    · obtain ⟨more, rfl⟩ := hpoint
      obtain ⟨fraction, rest, hfraction, hrest, rfl⟩ := exists_digits more
      obtain ⟨hne, hexponent⟩ := (isSome_readUnsigned_append hwhole hafter (behindPoint_append hfraction hrest)).mp h
      rw [← List.cons_append, ← List.append_assoc]
      refine .intro ?_ hexponent
      cases whole with
      | nil => exact .fraction ⟨hne.resolve_left (· rfl), hfraction⟩
      | cons c whole => exact .pointed ⟨List.cons_ne_nil c whole, hwhole⟩ hfraction
    · have hparts : behindPoint after = ([], after) := behindPoint_of_ne fun more hafter => hpoint ⟨more, hafter⟩
      obtain ⟨hne, hexponent⟩ := (isSome_readUnsigned_append hwhole hafter hparts).mp h
      exact .intro (.whole ⟨hne.resolve_right (· rfl), hwhole⟩) hexponent
  · rintro ⟨hmantissa, hexponent⟩
    have hends := hexponent.endsDigits
    have hpoint : ∀ more, EndsDigits ('.' :: more) := by
      rintro more _ ⟨⟩
      rfl
    cases hmantissa with
    | whole h =>
      exact (isSome_readUnsigned_append h.isDigit hends (behindPoint_of_ne hexponent.ne_point)).mpr
        ⟨.inl h.ne_nil, hexponent⟩
    | pointed h hfraction =>
      rw [List.append_assoc]
      exact (isSome_readUnsigned_append h.isDigit (hpoint _) (behindPoint_append hfraction hends)).mpr
        ⟨.inl h.ne_nil, hexponent⟩
    | fraction h =>
      have hwhole : ∀ c ∈ [], Char.isDigit c := nofun
      exact (isSome_readUnsigned_append hwhole (hpoint _) (behindPoint_append h.isDigit hends)).mpr
        ⟨.inr h.ne_nil, hexponent⟩

/-- Digits are among the characters of decimal literals. -/
theorem isDecimalChar_of_isDigit {c : Char} (h : c.isDigit) : isDecimalChar c := by
  rw [isDecimalChar, h]
  rfl

theorem IsSign.isDecimalChar (h : IsSign cs) : ∀ c ∈ cs, isDecimalChar c := by
  cases h with
  | none => nofun
  | plus => exact List.forall_mem_singleton.mpr rfl
  | minus => exact List.forall_mem_singleton.mpr rfl

/-- Literals are made of few characters, which tells them from the other texts of numbers. -/
theorem IsDecimal.isDecimalChar (h : IsDecimal cs) : ∀ c ∈ cs, isDecimalChar c := by
  obtain ⟨hmantissa, hexponent⟩ := h
  intro c hc
  rcases List.mem_append.mp hc with hc | hc
  · cases hmantissa with
    | whole h => exact isDecimalChar_of_isDigit (h.isDigit c hc)
    | pointed h hfraction =>
      rcases List.mem_append.mp hc with hc | hc
      · exact isDecimalChar_of_isDigit (h.isDigit c hc)
      · rcases List.mem_cons.mp hc with rfl | hc
        · rfl
        · exact isDecimalChar_of_isDigit (hfraction c hc)
    | fraction h =>
      rcases List.mem_cons.mp hc with rfl | hc
      · rfl
      · exact isDecimalChar_of_isDigit (h.isDigit c hc)
  · cases hexponent with
    | none => cases hc
    | marked hmarker hsign h =>
      rcases List.mem_cons.mp hc with rfl | hc
      · rcases hmarker with rfl | rfl <;> rfl
      · rcases List.mem_append.mp hc with hc | hc
        · exact hsign.isDecimalChar c hc
        · exact isDecimalChar_of_isDigit (h.isDigit c hc)

/-- A decimal literal starts with a digit or a point. -/
theorem IsDecimal.unsigned (h : IsDecimal cs) : Unsigned cs := by
  obtain ⟨hmantissa, -⟩ := h
  cases hmantissa with
  | whole h =>
    obtain ⟨c, digits, rfl⟩ := List.exists_cons_of_ne_nil h.ne_nil
    exact h.unsigned
  | pointed h =>
    obtain ⟨c, digits, rfl⟩ := List.exists_cons_of_ne_nil h.ne_nil
    exact h.unsigned
  | fraction h =>
    rintro _ ⟨⟩
    decide

/-- The standard parser reads a decimal literal behind at most one sign. -/
theorem isSome_readDecimal :
    (readDecimal cs).isSome ↔ ∃ sign literal, IsSign sign ∧ IsDecimal literal ∧ cs = sign ++ literal := by
  rw [← behind_takeSign_iff fun _ => IsDecimal.unsigned, ← isSome_readUnsigned]
  unfold readDecimal takeSign
  split <;> rw [Option.isSome_map]

theorem isNaN_of_readDecimal {x : Double} (h : readDecimal cs = some x) : x.isNaN = false := by
  have hread : ∀ {negative : Bool} {literal : List Char},
      (readUnsigned literal).map (Decimal.toDouble negative) = some x → x.isNaN = false := by
    intro negative literal h
    obtain ⟨d, -, rfl⟩ := Option.map_eq_some_iff.mp h
    exact d.isNaN_toDouble negative
  unfold readDecimal at h
  split at h <;> exact hread h

theorem isDecimalChar_of_signed {sign literal : List Char} (hsign : IsSign sign) (h : IsDecimal literal) :
    ∀ c ∈ sign ++ literal, isDecimalChar c := by
  intro c hc
  rcases List.mem_append.mp hc with hc | hc
  · exact hsign.isDecimalChar c hc
  · exact h.isDecimalChar c hc

/-- All that it reads consists of the characters of decimal literals. -/
theorem isDecimalChar_of_readDecimal (h : (readDecimal cs).isSome) : ∀ c ∈ cs, isDecimalChar c := by
  obtain ⟨sign, literal, hsign, hliteral, rfl⟩ := isSome_readDecimal.mp h
  exact isDecimalChar_of_signed hsign hliteral

end Decimals

end Numeral

end Interop
