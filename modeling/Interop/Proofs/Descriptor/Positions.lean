import Interop.Proofs.Descriptor.Occurrences

/-!
# Substitution by positions

A position is a way down through the parts of a type, so there are none in bounds and in raw slots. What substitution
does is said position by position, with no word on how it goes about it: where a bound variable stood there is now
what it stands for, and everywhere else there is the form that was there before. That settles the whole result, and as
it speaks of the positions of the given type only, nothing that has been put in is looked at again.

* **`Descriptor.at?`**, **`Descriptor.frame`**: positions, and what a type is apart from its parts.
* **`Descriptor.Substituted`**, **`substituted_iff`**: the description by positions, and that substitution is what it
  describes.
* **`replaceVariables?_eq_none_iff`**: a replacement reports no change exactly if it has nothing for the variables met.
* **`substitute_simultaneous`**: what this says of substitution and of erasure.
-/

namespace Interop.Descriptor

variable {d e : Descriptor} {b : Bindings}

/-! ## Positions -/

/-- The type at a position, which gives the index of the part to go to at every step. -/
def at? : List Nat → Descriptor → Option Descriptor
  | [], d => some d
  | i :: path, d => d.parts[i]?.bind (at? path)

theorem at?_cons (i : Nat) (path : List Nat) (d : Descriptor) : d.at? (i :: path) = d.parts[i]?.bind (at? path) := rfl

theorem at?_cons_of_part {i : Nat} (h : d.parts[i]? = some e) (path : List Nat) : d.at? (i :: path) = e.at? path := by
  rw [at?_cons, h, Option.bind_some]

/-- All variables at positions of a type are as a condition says. -/
def EveryVar (P : TypeVar → Descriptor → Prop) (d : Descriptor) : Prop :=
  ∀ path v bound, d.at? path = some (typeVar v bound) → P v bound

theorem everyVar_typeVar {P : TypeVar → Descriptor → Prop} {v : TypeVar} {bound : Descriptor} :
    (typeVar v bound).EveryVar P ↔ P v bound := by
  refine ⟨fun h => h [] v bound rfl, fun h path w bound' hpath => ?_⟩
  cases path with
  | nil =>
    cases hpath
    exact h
  | cons => cases hpath

/-- The variables of a type that is none itself are those of its parts. -/
theorem everyVar_iff {P : TypeVar → Descriptor → Prop} (hd : d.isVariable = false) :
    d.EveryVar P ↔ ∀ e ∈ d.parts, e.EveryVar P := by
  refine ⟨fun h e he path v bound hpath => ?_, fun h path v bound hpath => ?_⟩
  · obtain ⟨i, hi⟩ := List.mem_iff_getElem?.mp he
    exact h (i :: path) v bound ((at?_cons_of_part hi path).trans hpath)
  · cases path with
    | nil =>
      obtain rfl := Option.some.inj hpath
      cases hd
    | cons i path =>
      obtain ⟨e, he, hpath⟩ := Option.bind_eq_some_iff.mp hpath
      exact h e (List.mem_of_getElem? he) path v bound hpath

/-- A property of the variables alone, whatever their bounds, is one of those that are listed. -/
theorem everyVar_iff_vars {P : TypeVar → Prop} (d : Descriptor) : (d.EveryVar fun v _ => P v) ↔ ∀ v ∈ d.vars, P v := by
  induction d using partsInduction with
  | var v bound => rw [everyVar_typeVar, vars, List.forall_mem_singleton]
  | other d hd ih =>
    rw [everyVar_iff hd, vars_eq hd, List.forall_mem_flatMap]
    exact forall₂_congr ih

/-! ## What a type is apart from its parts -/

/-- A type with its parts left out: its form, its names, its raw slot and the number of its parts. -/
def frame : Descriptor → Descriptor
  | array _ => array unspecified
  | parameterized raw args => parameterized raw (args.map fun _ => unspecified)
  | union members => union (members.map fun _ => unspecified)
  | objectShape fields => objectShape (fields.map fun field => (field.1, unspecified))
  | functionShape params _ => functionShape (params.map fun _ => unspecified) unspecified
  | d => d

/-- A type with other parts. -/
def withParts : Descriptor → List Descriptor → Descriptor
  | array _, parts => array (parts.headD unspecified)
  | parameterized raw _, parts => parameterized raw parts
  | union _, parts => union parts
  | objectShape fields, parts => objectShape ((fields.map (·.1)).zip parts)
  | functionShape _ _, parts => functionShape parts.dropLast (parts.getLastD unspecified)
  | d, _ => d

/-- A descriptor is its frame, filled with its own parts. -/
theorem withParts_frame (d : Descriptor) : d.frame.withParts d.parts = d := by
  cases d with
  | objectShape fields =>
    rw [frame, withParts, parts, List.map_map, List.zip_map']
    exact congrArg objectShape (List.map_id fields)
  | functionShape params result => simp [frame, withParts, parts]
  | _ => rfl

/-- Nothing else belongs to a type. -/
theorem eq_of_frame (hframe : d.frame = e.frame) (hparts : d.parts = e.parts) : d = e := by
  rw [← withParts_frame d, ← withParts_frame e, hframe, hparts]

/-- A frame has as many places as the descriptor has parts. -/
theorem length_parts_frame (d : Descriptor) : d.frame.parts.length = d.parts.length := by
  cases d <;> simp [frame, parts]

theorem isVariable_frame (d : Descriptor) : d.frame.isVariable = d.isVariable := by
  cases d <;> rfl

/-- A variable has no parts, so nothing of it is left out of its frame. -/
theorem frame_of_isVariable (hd : d.isVariable = true) : d.frame = d := by
  cases d <;> first | rfl | cases hd

/-- Substitution changes the parts and never the frame. -/
theorem frame_substitute (b : Bindings) (hd : d.isVariable = false) : (d.substitute b).frame = d.frame := by
  rw [substitute_eq]
  cases d with
  | typeVar => cases hd
  | array => rw [replaceVariables_array]; rfl
  | parameterized => rw [replaceVariables_parameterized, frame, frame, List.map_map]; rfl
  | union => rw [replaceVariables_union, frame, frame, List.map_map]; rfl
  | objectShape => rw [replaceVariables_objectShape, frame, frame, List.map_map]; rfl
  | functionShape => rw [replaceVariables_functionShape, frame, frame, List.map_map]; rfl
  | _ => rfl

/-! ## Substitution -/

/-- All bound variables have been replaced, at once and with no other change: a position at which a bound variable
stood has what the variable stands for, and every other one has the form that was there before. -/
structure Substituted (b : Bindings) (d r : Descriptor) : Prop where
  replaced : ∀ path v bound e, d.at? path = some (typeVar v bound) → b.get? v = some e → r.at? path = some e
  kept : ∀ path e, d.at? path = some e → (∀ v bound, e = typeVar v bound → b.get? v = none) →
    ∃ e', r.at? path = some e' ∧ e'.frame = e.frame

/-- At every position stands what stood there, substituted. -/
theorem at?_substitute {path : List Nat} (h : d.at? path = some e) :
    (d.substitute b).at? path = some (e.substitute b) := by
  induction path generalizing d with
  | nil =>
    obtain rfl := Option.some.inj h
    rfl
  | cons i path ih =>
    obtain ⟨part, hpart, hpath⟩ := Option.bind_eq_some_iff.mp h
    have hd : d.isVariable = false := by
      cases d <;> first | rfl | cases hpart
    have hparts : (d.substitute b).parts[i]? = some (part.substitute b) := by
      rw [substitute_eq, parts_replaceVariables _ hd, List.getElem?_map, hpart]
      rfl
    rw [at?_cons_of_part hparts, ih hpath]

/-- Substitution has the properties that specify it. -/
theorem substituted_substitute (b : Bindings) (d : Descriptor) : Substituted b d (d.substitute b) where
  replaced path v bound e hpath hv := by
    rw [at?_substitute hpath, substitute_typeVar, hv, Option.getD_some]
  kept path e hpath hunbound := by
    refine ⟨e.substitute b, at?_substitute hpath, ?_⟩
    cases he : e.isVariable with
    | false => exact frame_substitute b he
    | true =>
      cases e with
      | typeVar v bound => rw [substitute_typeVar, hunbound v bound rfl, Option.getD_none]
      | _ => cases he

/-- The description holds of the parts in turn. -/
theorem Substituted.part {r e' : Descriptor} (h : Substituted b d r) {i : Nat} (hd : d.parts[i]? = some e)
    (hr : r.parts[i]? = some e') : Substituted b e e' where
  replaced path v bound f hpath hv := by
    rw [← at?_cons_of_part hr]
    exact h.replaced (i :: path) v bound f ((at?_cons_of_part hd path).trans hpath) hv
  kept path f hpath hunbound := by
    rw [← at?_cons_of_part hr]
    exact h.kept (i :: path) f ((at?_cons_of_part hd path).trans hpath) hunbound

/-- **The description settles the result**, which is that of substitution. -/
theorem substituted_iff {r : Descriptor} : Substituted b d r ↔ r = d.substitute b := by
  refine ⟨fun h => ?_, fun h => h ▸ substituted_substitute b d⟩
  -- a variable is replaced or stays; any other type is its frame and its parts, which are the same by induction
  induction d using partsInduction generalizing r with
  | var v bound =>
    rw [substitute_typeVar]
    cases hv : b.get? v with
    | some e => exact Option.some.inj (h.replaced [] v bound e rfl hv)
    | none =>
      obtain ⟨_, hr, hframe⟩ := h.kept [] (typeVar v bound) rfl fun w bound' heq => by cases heq; exact hv
      obtain rfl := Option.some.inj hr
      have hvariable : r.isVariable = true := by rw [← isVariable_frame, hframe]; rfl
      rw [frame_of_isVariable hvariable] at hframe
      exact hframe
  | other d hd ih =>
    obtain ⟨_, hr, hframe⟩ := h.kept [] d rfl fun v bound heq => by rw [heq] at hd; cases hd
    obtain rfl := Option.some.inj hr
    have hlength : r.parts.length = d.parts.length := by rw [← length_parts_frame, hframe, length_parts_frame]
    refine eq_of_frame (hframe.trans (frame_substitute b hd).symm) ?_
    rw [substitute_eq, parts_replaceVariables _ hd]
    refine List.ext_getElem? fun i => ?_
    rw [List.getElem?_map]
    cases hpart : d.parts[i]? with
    | none =>
      rw [List.getElem?_eq_none_iff] at hpart
      exact List.getElem?_eq_none (by omega)
    | some e =>
      have hi : i < r.parts.length := by
        rw [hlength]
        exact (List.getElem?_eq_some_iff.mp hpart).1
      rw [List.getElem?_eq_getElem hi, Option.map_some]
      refine congrArg some (ih e (List.mem_of_getElem? hpart) ?_)
      exact h.part hpart (List.getElem?_eq_getElem hi)

/-! ## Reports of change -/

section Report

variable (leaf : TypeVar → Descriptor → Option Descriptor)

/-- A list of types stays as it is where each of its types does. -/
theorem replaceAll?_eq_none_iff (ds : List Descriptor) :
    replaceAll? leaf ds = none ↔ ∀ d ∈ ds, d.replaceVariables? leaf = none := by
  induction ds with
  | nil => simp [replaceAll?]
  | cons d ds ih =>
    rw [List.forall_mem_cons, ← ih, replaceAll?]
    cases d.replaceVariables? leaf <;> cases replaceAll? leaf ds <;> simp

theorem replaceFields?_eq_none_iff (fields : List (String × Descriptor)) :
    replaceFields? leaf fields = none ↔ ∀ d ∈ fields.map (·.2), d.replaceVariables? leaf = none := by
  induction fields with
  | nil => simp [replaceFields?]
  | cons field fields ih =>
    rw [List.map_cons, List.forall_mem_cons, ← ih, replaceFields?]
    cases field.2.replaceVariables? leaf <;> cases replaceFields? leaf fields <;> simp

/-- No change is reported of a type that is no variable exactly if none is reported of its parts. -/
theorem replaceVariables?_eq_none_iff_parts (hd : d.isVariable = false) :
    d.replaceVariables? leaf = none ↔ ∀ e ∈ d.parts, e.replaceVariables? leaf = none := by
  cases d with
  | typeVar => cases hd
  | array c => rw [replaceVariables?, Option.map_eq_none_iff, parts, List.forall_mem_singleton]
  | parameterized | union => rw [replaceVariables?, Option.map_eq_none_iff, replaceAll?_eq_none_iff, parts]
  | objectShape => rw [replaceVariables?, Option.map_eq_none_iff, replaceFields?_eq_none_iff, parts]
  | functionShape params result =>
    rw [parts, List.forall_mem_append, List.forall_mem_singleton, ← replaceAll?_eq_none_iff, replaceVariables?]
    cases replaceAll? leaf params <;> cases result.replaceVariables? leaf <;> simp
  | _ => simp [replaceVariables?, parts]

/-- **No change is reported** exactly if there is nothing for the variables met. -/
theorem replaceVariables?_eq_none_iff (d : Descriptor) :
    d.replaceVariables? leaf = none ↔ d.EveryVar fun v bound => leaf v bound = none := by
  induction d using partsInduction with
  | var v bound => rw [everyVar_typeVar, replaceVariables?]
  | other d hd ih =>
    rw [replaceVariables?_eq_none_iff_parts leaf hd, everyVar_iff hd]
    exact forall₂_congr ih

end Report

/-- A type other than a variable mentions none exactly where its parts mention none. -/
theorem mentionsVariables_eq_false_iff_parts (hd : d.isVariable = false) :
    d.mentionsVariables = false ↔ ∀ e ∈ d.parts, e.mentionsVariables = false := by
  cases d with
  | typeVar => cases hd
  | array => rw [mentionsVariables, parts, List.forall_mem_singleton]
  | parameterized | union => rw [mentionsVariables, anyMentionsVariables_eq_false_iff, parts]
  | objectShape => rw [mentionsVariables, fieldsMentionVariables_eq_false_iff, parts, List.forall_mem_map]
  | functionShape =>
    rw [mentionsVariables, Bool.or_eq_false_iff, anyMentionsVariables_eq_false_iff, parts, List.forall_mem_append,
      List.forall_mem_singleton]
  | _ => simp [mentionsVariables, parts]

/-- No variable is mentioned exactly if there is none at any position. -/
theorem mentionsVariables_eq_false_iff (d : Descriptor) : d.mentionsVariables = false ↔ d.EveryVar fun _ _ => False := by
  induction d using partsInduction with
  | var v bound => simp [everyVar_typeVar, mentionsVariables]
  | other d hd ih =>
    rw [mentionsVariables_eq_false_iff_parts hd, everyVar_iff hd]
    exact forall₂_congr ih

/-- Substitution reports no change exactly where no variable that occurs is bound. -/
theorem substitute?_eq_none_iff (b : Bindings) (d : Descriptor) :
    d.substitute? b = none ↔ d.EveryVar fun v _ => b.get? v = none := replaceVariables?_eq_none_iff _ d

/-- Erasure reports none exactly where no variable occurs. -/
theorem eraseVariables?_eq_none_iff (d : Descriptor) : d.eraseVariables? = none ↔ d.mentionsVariables = false := by
  rw [eraseVariables?, replaceVariables?_eq_none_iff, mentionsVariables_eq_false_iff]
  simp

/-- **Substitution replaces all bound variables at once, and reports a change exactly where there is one.** The result is
the only type that has at each position of the given one what a bound variable there stands for, and otherwise the
form that was there before. No change is reported exactly if there is no bound variable at any position; then the type
is handed on as it is, and if no variable stands for itself, that is the only case in which the result is the given
type. Erasure reports no change exactly if no variable is mentioned. -/
theorem substitute_simultaneous (b : Bindings) (d : Descriptor) :
    (∀ r, Substituted b d r ↔ r = d.substitute b) ∧
      (d.substitute? b = none ↔ d.EveryVar fun v _ => b.get? v = none) ∧
      (d.substitute? b = none → d.substitute b = d) ∧ (∀ r, d.substitute? b = some r → d.substitute b = r) ∧
      ((∀ v bound, b.get? v ≠ some (typeVar v bound)) → d.substitute b = d → d.substitute? b = none) ∧
      (d.eraseVariables? = none ↔ d.mentionsVariables = false) := by
  refine ⟨fun r => substituted_iff, substitute?_eq_none_iff b d, fun hnone => ?_, fun r hsome => ?_,
    fun hproper hsame => ?_, eraseVariables?_eq_none_iff d⟩
  · rw [substitute, hnone, Option.getD_none]
  · rw [substitute, hsome, Option.getD_some]
  · rw [substitute?_eq_none_iff, everyVar_iff_vars]
    exact (substitute_eq_self_iff hproper d).mp hsame

/-- A variable of no particular type, with the root type as its bound. -/
def loose (name : String) : Descriptor := typeVar ⟨.empty, name⟩ object

/-- Two variables that stand for each other. -/
def exchange : Bindings := ⟨[(⟨.empty, "T"⟩, loose "U"), (⟨.empty, "U"⟩, loose "T")]⟩

/-- The two arguments are exchanged, the raw slot is left alone, and a third variable is no reason to report a change. -/
theorem substitute_simultaneous_exchange :
    Substituted exchange (parameterized (loose "T") [loose "T", array (loose "U")])
        (parameterized (loose "T") [loose "U", array (loose "T")]) ∧
      (∀ v bound, exchange.get? v ≠ some (typeVar v bound)) ∧ (array (loose "W")).substitute? exchange = none := by
  have hproper : ∀ v bound, exchange.get? v ≠ some (typeVar v bound) := by
    intro v bound h
    rcases List.mem_pair.mp (mem_of_lookup h) with heq | heq <;>
      obtain ⟨rfl, hvariable⟩ := Prod.mk.inj heq <;> simp [loose] at hvariable
  obtain ⟨hresult, -⟩ := substitute_simultaneous exchange (parameterized (loose "T") [loose "T", array (loose "U")])
  obtain ⟨-, -, -, -, hunchanged, -⟩ := substitute_simultaneous exchange (array (loose "W"))
  exact ⟨(hresult _).mpr (by rfl), hproper, hunchanged hproper (by rfl)⟩

end Interop.Descriptor
