import Interop.Proofs.Coercion.Instances
import Interop.Proofs.Number.Exact
import Std.Data.String.ToInt

/-!
# The text of whole numbers

Script code prints a whole number below `10 ^ 21` in size by way of a 64-bit integer. Within the range of such integers
the text is that of the number itself. Past an end of the range it is the text of the end, whatever the number is, so
that numbers past the same end have one text. This text is what a number becomes where a string is asked for, and what
failures report of a number that cannot be converted.

* **`clampLong_eq_self_iff`**, **`clampLong_eq_iff`**: what the way through 64-bit integers keeps apart.
* **`Double.IsWhole.ne_lastLong`**: the last 64-bit integer is no double, so that no number owns its text.
* **`Eval.FailsOnly`**: how a computation may fail; **`failsOnly_convert_number`**: what is reported of a number.
* **`scriptText_whole`**: which whole numbers have a text of their own.
-/

namespace Interop

-- powers are those of the natural numbers, whatever other powers are in scope
attribute [local instance (high)] instPowNat

/-! ## The range of 64-bit integers -/

/-- The 64-bit range is what clamping leaves as it is. -/
theorem clampLong_eq_self_iff {n : Int} : clampLong n = n ↔ -0x8000000000000000 ≤ n ∧ n < 0x8000000000000000 := by
  unfold clampLong
  omega

/-- Two numbers are clamped alike where they are equal, or both at the same end. -/
theorem clampLong_eq_iff {n m : Int} :
    clampLong n = clampLong m ↔
      n = m ∨ (0x7fffffffffffffff ≤ n ∧ 0x7fffffffffffffff ≤ m) ∨
        (n ≤ -0x8000000000000000 ∧ m ≤ -0x8000000000000000) := by
  unfold clampLong
  omega

/-- The double is a whole number, and below `10 ^ 21` in size. -/
structure Double.IsWhole (x : Double) (n : Int) : Prop where
  value : x.whole? = some n
  small : n.natAbs < 10 ^ 21

namespace Double.IsWhole

variable {x : Double} {n : Int}

/-- A whole double truncates to the number that it is. -/
theorem truncate?_eq (h : x.IsWhole n) : x.truncate? = some n := by
  have hvalue := h.value
  rw [whole?] at hvalue
  rw [truncate?]
  cases hdatum : x.datum with
  | nan => rw [hdatum] at hvalue; cases hvalue
  | infinite negative => rw [hdatum] at hvalue; cases hvalue
  | finite negative significand scale =>
    rw [hdatum, Datum.whole?] at hvalue
    dsimp only at hvalue
    split at hvalue
    · exact hvalue
    · cases hvalue

/-- The last 64-bit integer has 63 significant bits. -/
theorem ne_lastLong (h : x.IsWhole n) : n ≠ 0x7fffffffffffffff := by
  rintro rfl
  obtain ⟨m, e, hm, hvalue⟩ := fitsDouble_of_truncate? h.truncate?_eq
  have hodd : (m * 2 ^ e) % 2 = 1 := by
    rw [← hvalue]
    decide
  cases e with
  | zero =>
    rw [Nat.pow_zero, Nat.mul_one] at hvalue
    omega
  | succ e =>
    rw [Nat.pow_succ, ← Nat.mul_assoc, Nat.mul_mod_left] at hodd
    cases hodd

/-- A whole double prints as that number, clamped. -/
theorem scriptText_eq (h : x.IsWhole n) : x.scriptText = toString (clampLong n) := by
  have hvalue := h.value
  have hsmall : n.natAbs < 1000000000000000000000 := h.small
  rw [scriptText]
  cases hdatum : x.datum with
  | nan => rw [whole?, hdatum] at hvalue; cases hvalue
  | infinite negative => rw [whole?, hdatum] at hvalue; cases hvalue
  | finite negative significand scale =>
    dsimp only
    rw [hvalue]
    dsimp only
    rw [if_pos hsmall]

end Double.IsWhole

/-! ## What failures report -/

/-- What a failure reports of a value that could not be converted. -/
def Failure.reported? : Failure → Option String
  | conversion value _ => some value
  | illegalEnumValue _ value _ => some value
  | _ => none

/-- Whatever failure a computation ends with is one of those. -/
def Eval.FailsOnly (P : Failure → Prop) (x : Eval α) : Prop :=
  ∀ s failure s', x.outcome s = (.error (.failed failure), s') → P failure

namespace Eval.FailsOnly

variable {P : Failure → Prop}

theorem pure (a : α) : (pure a : Eval α).FailsOnly P := by
  intro s failure s' h
  cases h

theorem fail {failure : Failure} (h : P failure) : (Eval.fail failure : Eval α).FailsOnly P := by
  rintro s _ s' ⟨⟩
  exact h

/-- The ways in which a computation can fail are those of its halves. -/
theorem bind {x : Eval α} {f : α → Eval β} (hx : x.FailsOnly P) (hf : ∀ a, (f a).FailsOnly P) :
    (x >>= f).FailsOnly P := by
  intro s failure s' h
  rcases outcome_bind_cases h with ⟨_, hstop, ⟨⟩⟩ | ⟨a, s₁, -, hrest⟩
  · exact hx s failure s' hstop
  · exact hf a s₁ failure s' hrest

/-- Reading the store fails in no way of its own. -/
theorem read {f : Store → Eval α} (hf : ∀ s, (f s).FailsOnly P) : (get >>= f : Eval α).FailsOnly P :=
  fun s failure s' h => hf s s failure s' h

theorem attempt (x : Eval α) : (Eval.attempt x).FailsOnly P := by
  intro s failure s' h
  rw [outcome_attempt] at h
  rcases hrun : x.outcome s with ⟨(_ | _ | _) | _, s₁⟩ <;> rw [hrun] at h <;> cases h

theorem mapM {f : α → Eval β} (hf : ∀ a, (f a).FailsOnly P) : ∀ as : List α, (as.mapM f).FailsOnly P
  | [] => by
    rw [List.mapM_nil]
    exact pure []
  | a :: as => by
    rw [List.mapM_cons]
    exact (hf a).bind fun _ => (mapM hf as).bind fun _ => pure _

/-- A type that is no target ends a computation without a failure. -/
theorem targetOf (t : TypeTable) (d : Descriptor) : (Eval.ofResult (t.targetOf d)).FailsOnly P := by
  intro s failure s' h
  rw [outcome_ofResult] at h
  cases d <;> cases h

end Eval.FailsOnly

section Ranks

variable {P : Failure → Prop} (v : Script)

/-- Ranking does not fail: a look-up that does only means that the value has no rank. -/
theorem failsOnly_rankTarget (target : Target) : (rankTarget v target).FailsOnly P := by
  have hcan : ∀ interface isFunction, (canImplement interface isFunction).FailsOnly P := by
    intro interface isFunction
    unfold canImplement
    split
    · exact .pure _
    · refine (Eval.FailsOnly.attempt _).bind fun members => ?_
      split <;> exact .pure _
  unfold rankTarget
  refine .read fun s => ?_
  split
  · exact .pure _
  · split
    case h_9 =>
      unfold rankScript
      split
      case h_6 => exact (hcan _ true).bind fun _ => .pure _
      case h_7 => exact (hcan _ false).bind fun _ => .pure _
      all_goals exact .pure _
    case h_1 => split <;> exact .pure _
    all_goals exact .pure _

mutual

/-- Ranking gives no failure to script code. -/
theorem failsOnly_rankOf : (d : Descriptor) → (rankOf v d).FailsOnly P
  | .union members => by
    rw [rankOf]
    exact failsOnly_bestRank members
  | .unspecified | .plain _ | .array _ | .parameterized _ _ | .enumeration _ | .interface _ _ | .typeVar _ _
  | .stringLiteral _ | .numberLiteral _ | .booleanLiteral _ | .objectShape _ | .functionShape _ _ => by
    rw [rankOf_eq (by simp)]
    exact .read fun s => (Eval.FailsOnly.targetOf s.types _).bind (failsOnly_rankTarget v)

theorem failsOnly_bestRank : (members : List Descriptor) → (bestRank v members).FailsOnly P
  | [] => .pure _
  | d :: ds => by
    rw [bestRank]
    exact (failsOnly_rankOf d).bind fun _ => (failsOnly_bestRank ds).bind fun _ => .pure _

end

end Ranks

/-- The failure reports a number by its text, if it reports a value at all. -/
def Failure.ReportsNumber (x : Double) (failure : Failure) : Prop := ∀ text ∈ failure.reported?, text = x.scriptText

section Numbers

variable (x : Double)

/-- A refused number is reported under its text. -/
theorem outcome_cannotConvert_number (d : Descriptor) (s : Store) :
    (cannotConvert (.number x) d : Eval Native).outcome s =
      (.error (.failed (.conversion x.scriptText d.signature)), s) := by
  have htext : (describe (.number x)).outcome s = (.ok x.scriptText, s) := by
    show (displayScript (.number x)).outcome s = _
    rw [displayScript, Eval.outcome_get_bind]
    cases s.depth <;> rfl
  rw [cannotConvert, Eval.outcome_bind_of_ok htext]
  rfl

theorem failsOnly_cannotConvert_number (d : Descriptor) :
    (cannotConvert (.number x) d : Eval Native).FailsOnly (Failure.ReportsNumber x) := by
  intro s failure s' h
  rw [outcome_cannotConvert_number] at h
  cases h
  rintro text ⟨⟩
  rfl

/-- Of a number that is no ordinal the text is reported; a constant that cannot be read reports no value. -/
theorem failsOnly_constantByOrdinal (enumName : String) :
    (constantByOrdinal enumName x).FailsOnly (Failure.ReportsNumber x) := by
  have hnew : ∀ o, (Eval.newNative o).FailsOnly (Failure.ReportsNumber x) := by
    intro o s failure s' h
    cases h
  have hread : ∀ storage : Storage, (storage.read none).FailsOnly (Failure.ReportsNumber x) := by
    intro storage
    refine .read fun s => ?_
    cases storage with
    | cell r => exact .pure _
    | slot name unset => exact .fail nofun
    | broken name => exact .fail nofun
  have hobject : ∀ i name, (constantObject enumName i name).FailsOnly (Failure.ReportsNumber x) := by
    intro i name
    unfold constantObject
    refine (Eval.FailsOnly.attempt _).bind fun members => ?_
    split
    · split
      · split
        · exact hread _
        · exact hnew _
      · exact hnew _
    · exact hnew _
  unfold constantByOrdinal
  refine .read fun s => ?_
  dsimp only
  split
  · exact hobject _ _
  · refine .fail ?_
    rintro text ⟨⟩
    rfl

/-- A number that its target does not take is reported as that number. -/
theorem failsOnly_convertNumber (d : Descriptor) (target : Target) :
    (convertNumber x target (cannotConvert (.number x) d)).FailsOnly (Failure.ReportsNumber x) := by
  have hfailure := failsOnly_cannotConvert_number x d
  cases target with
  | numeric kind =>
    unfold convertNumber
    dsimp only
    cases kind.ofDouble? x with
    | none => exact hfailure
    | some native => exact .pure native
  | enumeration name => exact failsOnly_constantByOrdinal x name
  | numberLiteral expected =>
    unfold convertNumber
    dsimp only
    split
    · exact .pure _
    · exact hfailure
  | _ => exact .pure _

/-- Whatever failure the conversion to a type other than a union ends with, it reports the number. -/
theorem failsOnly_convert_number_of_ne {d : Descriptor} (hd : ∀ members, d = .union members → False) :
    (convert d (.number x)).FailsOnly (Failure.ReportsNumber x) := by
  obtain ⟨parts, hparts⟩ := exists_convertBy hd (.number x)
  rw [hparts]
  unfold convertBy
  refine .read fun s => (Eval.FailsOnly.targetOf s.types d).bind fun target =>
    (failsOnly_rankTarget _ target).bind fun rank => ?_
  dsimp only
  split
  · exact failsOnly_cannotConvert_number x d
  · split
    · exact .pure _
    · exact failsOnly_convertNumber x d target

mutual

/-- **What a failed conversion reports of a number is its text.** -/
theorem failsOnly_convert_number : (d : Descriptor) →
    (convert d (.number x)).FailsOnly (Failure.ReportsNumber x)
  | .union members => by
    have hfailure := failsOnly_cannotConvert_number x (.union members)
    rw [convert]
    refine (failsOnly_bestRank _ members).bind fun rank => ?_
    split
    · exact hfailure
    · refine (Eval.FailsOnly.mapM (failsOnly_rankOf _) members).bind fun ranks => ?_
      split
      · exact failsOnly_convertAt_number members _
      · exact hfailure
  | .unspecified | .plain _ | .array _ | .parameterized _ _ | .enumeration _ | .interface _ _ | .typeVar _ _
  | .stringLiteral _ | .numberLiteral _ | .booleanLiteral _ | .objectShape _ | .functionShape _ _ =>
    failsOnly_convert_number_of_ne x (by simp)

theorem failsOnly_convertAt_number : (members : List Descriptor) → (i : Nat) →
    (convertAt members i (.number x)).FailsOnly (Failure.ReportsNumber x)
  | [], _ => .pure _
  | d :: _, 0 => failsOnly_convert_number d
  | _ :: members, i + 1 => failsOnly_convertAt_number members i

end

theorem targetOf_string (t : TypeTable) : t.targetOf .string = .ok .string := by
  have hkind : PrimitiveKind.ofTypeId? (.ofName Standard.stringName) = none := by decide +kernel
  have hobject : TypeId.ofName Standard.stringName ≠ Standard.object := by decide +kernel
  show Except.ok (t.namedTarget (.plain Standard.stringName)) = _
  rw [TypeTable.namedTarget, Descriptor.typeId?]
  dsimp only
  rw [hkind]
  dsimp only
  rw [if_neg hobject]
  exact congrArg Except.ok (if_pos rfl)

theorem outcome_convert_number_string (s : Store) :
    (convert .string (.number x)).outcome s = (.ok (.string x.scriptText), s) := by
  rw [(ByTables.number x).outcome_convert (targetOf_string s.types) rfl]
  rfl

end Numbers

/-- **Whole numbers have a text of their own only within the range of 64-bit integers.** Of whole numbers below
`10 ^ 21` in size,
* those in the range have the text of the number, and no others;
* two of them have one text where they are the same number, or both lie past the same end of the range;
* the text is what a number becomes where a string is asked for, and what failures report of it. -/
theorem scriptText_whole {x y : Double} {n m : Int} (hx : x.IsWhole n) (hy : y.IsWhole m) :
    x.scriptText = toString (clampLong n) ∧
    (x.scriptText = toString n ↔ -0x8000000000000000 ≤ n ∧ n < 0x8000000000000000) ∧
    (x.scriptText = y.scriptText ↔ n = m ∨ (0x8000000000000000 ≤ n ∧ 0x8000000000000000 ≤ m) ∨
      (n ≤ -0x8000000000000000 ∧ m ≤ -0x8000000000000000)) ∧
    (∀ s, (convert .string (.number x)).outcome s = (.ok (.string x.scriptText), s)) ∧
    ∀ d s failure s', (convert d (.number x)).outcome s = (.error (.failed failure), s') →
      ∀ text ∈ failure.reported?, text = x.scriptText := by
  refine ⟨hx.scriptText_eq, ?_, ?_, outcome_convert_number_string x, failsOnly_convert_number x⟩
  · rw [hx.scriptText_eq, ← clampLong_eq_self_iff]
    exact Int.repr_inj
  · have hn := hx.ne_lastLong
    have hm := hy.ne_lastLong
    have htexts : x.scriptText = y.scriptText ↔ clampLong n = clampLong m := by
      rw [hx.scriptText_eq, hy.scriptText_eq]
      exact Int.repr_inj
    rw [htexts, clampLong_eq_iff]
    omega

/-- The whole numbers `10 ^ 20` and `2 ^ 63` have one text, which is that of neither. -/
theorem scriptText_whole_past :
    (Double.mk 0x4415af1d78b58c40).scriptText ≠ toString (100000000000000000000 : Int) ∧
    (Double.mk 0x43e0000000000000).scriptText ≠ toString (0x8000000000000000 : Int) ∧
    (Double.mk 0x4415af1d78b58c40).scriptText = (Double.mk 0x43e0000000000000).scriptText := by
  have hx : (Double.mk 0x4415af1d78b58c40).IsWhole 100000000000000000000 := ⟨by decide +kernel, by decide⟩
  have hy : (Double.mk 0x43e0000000000000).IsWhole 0x8000000000000000 := ⟨by decide +kernel, by decide⟩
  obtain ⟨-, hown, halike, -⟩ := scriptText_whole hx hy
  obtain ⟨-, hown', -⟩ := scriptText_whole hy hx
  refine ⟨fun h => ?_, fun h => ?_, halike.mpr (.inr (.inl ⟨by decide, by decide⟩))⟩
  · exact absurd (hown.mp h).2 (by decide)
  · exact absurd (hown'.mp h).2 (by decide)

end Interop
