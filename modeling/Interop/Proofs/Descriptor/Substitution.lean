import Interop.Descriptor.Substitution
import Interop.Proofs.Lookup

/-!
# Variables in descriptors

A replacement of variables gives back the descriptor or what it has become; `Descriptor.replaceVariables` is what there
is in the end, and it goes through every form except bounds and the raw slot of parameterized types. Declarations of a
host are built from named types, arrays, parameterized types and variables, with no restriction on how they are nested
(`Descriptor.isDeclared`). Substitution stays within these forms, and what is erased to the raw type mentions no variable:

* **`Bindings.Declared.substitute`**: declared types, substituted in a declared type, give one.
* **`mentionsVariables_erase`**: a declared type erases to a named type inside arrays.
-/

namespace Interop.Descriptor

/-! ## Mentioning variables -/

/-- A list of types mentions no variable where none of its types does. -/
theorem anyMentionsVariables_eq_false_iff (ds : List Descriptor) :
    anyMentionsVariables ds = false ↔ ∀ d ∈ ds, d.mentionsVariables = false := by
  induction ds with
  | nil => simp [anyMentionsVariables]
  | cons d ds ih => simp [anyMentionsVariables, ih]

theorem fieldsMentionVariables_eq_false_iff (fields : List (String × Descriptor)) :
    fieldsMentionVariables fields = false ↔ ∀ field ∈ fields, field.2.mentionsVariables = false := by
  induction fields with
  | nil => simp [fieldsMentionVariables]
  | cons field fields ih => simp [fieldsMentionVariables, ih]

/-! ## Replacement -/

variable (leaf : TypeVar → Descriptor → Option Descriptor)

/-- The descriptor after a replacement of variables. -/
def replaceVariables (d : Descriptor) : Descriptor := (d.replaceVariables? leaf).getD d

/-- A variable becomes what the leaf function gives for it, or stays. -/
theorem replaceVariables_typeVar (v : TypeVar) (bound : Descriptor) :
    (typeVar v bound).replaceVariables leaf = (leaf v bound).getD (typeVar v bound) := by
  rw [replaceVariables, replaceVariables?]

/-- Replacing in an array is replacing in its component. -/
theorem replaceVariables_array (c : Descriptor) :
    (array c).replaceVariables leaf = array (c.replaceVariables leaf) := by
  rw [replaceVariables, replaceVariables?, replaceVariables]
  cases c.replaceVariables? leaf <;> rfl

/-- The list that reports no change stands for the one with each type replaced. -/
theorem getD_replaceAll? (ds : List Descriptor) :
    (replaceAll? leaf ds).getD ds = ds.map (replaceVariables leaf) := by
  induction ds with
  | nil => simp [replaceAll?]
  | cons d ds ih =>
    rw [List.map_cons, ← ih, replaceVariables, replaceAll?]
    cases d.replaceVariables? leaf <;> cases replaceAll? leaf ds <;> rfl

/-- Replacing in a parameterized type is replacing in its arguments; the raw type has none. -/
theorem replaceVariables_parameterized (raw : Descriptor) (args : List Descriptor) :
    (parameterized raw args).replaceVariables leaf = parameterized raw (args.map (replaceVariables leaf)) := by
  rw [replaceVariables, replaceVariables?, ← getD_replaceAll?]
  cases replaceAll? leaf args <;> rfl

/-! ## Declared types -/

mutual

/-- Built from named types, arrays, parameterized types and variables only, raw slots and bounds included. -/
def isDeclared : Descriptor → Bool
  | unspecified => true
  | plain _ => true
  | enumeration _ => true
  | interface _ _ => true
  | array c => c.isDeclared
  | parameterized raw args => raw.isDeclared && allDeclared args
  | typeVar _ bound => bound.isDeclared
  | _ => false

def allDeclared : List Descriptor → Bool
  | [] => true
  | d :: ds => d.isDeclared && allDeclared ds

end

theorem allDeclared_iff (ds : List Descriptor) : allDeclared ds = true ↔ ∀ d ∈ ds, d.isDeclared = true := by
  induction ds with
  | nil => simp [allDeclared]
  | cons d ds ih => simp [allDeclared, ih]

/-- A parameterized type is declared where its raw type and its arguments are. -/
theorem isDeclared_parameterized {raw : Descriptor} {args : List Descriptor} :
    (parameterized raw args).isDeclared = true ↔ raw.isDeclared = true ∧ ∀ d ∈ args, d.isDeclared = true := by
  rw [isDeclared, Bool.and_eq_true, allDeclared_iff]

mutual

/-- What stands for variables is declared, so the result is. -/
theorem isDeclared_replaceVariables {leaf : TypeVar → Descriptor → Option Descriptor}
    (hleaf : ∀ v bound d, leaf v bound = some d → d.isDeclared = true) :
    (d : Descriptor) → d.isDeclared = true → (d.replaceVariables leaf).isDeclared = true
  | array c, h => by
    rw [replaceVariables_array]
    exact isDeclared_replaceVariables hleaf c h
  | parameterized raw args, h => by
    obtain ⟨hraw, hargs⟩ := isDeclared_parameterized.mp h
    rw [replaceVariables_parameterized, isDeclared_parameterized]
    exact ⟨hraw, isDeclared_map_replaceVariables hleaf args hargs⟩
  | typeVar v bound, h => by
    rw [replaceVariables_typeVar]
    cases hv : leaf v bound with
    | none => exact h
    | some d => exact hleaf v bound d hv
  | unspecified, _ | plain _, _ | enumeration _, _ | interface _ _, _ => rfl

/-- Replacing variables by declared types keeps a list of types declared. -/
theorem isDeclared_map_replaceVariables {leaf : TypeVar → Descriptor → Option Descriptor}
    (hleaf : ∀ v bound d, leaf v bound = some d → d.isDeclared = true) :
    (ds : List Descriptor) → (∀ d ∈ ds, d.isDeclared = true) →
      ∀ d ∈ ds.map (replaceVariables leaf), d.isDeclared = true
  | [], _ => by simp
  | d :: ds, h => by
    rw [List.map_cons, List.forall_mem_cons]
    exact ⟨isDeclared_replaceVariables hleaf d (h d List.mem_cons_self),
      isDeclared_map_replaceVariables hleaf ds fun d' hd' => h d' (List.mem_cons_of_mem _ hd')⟩

end

/-! ## Erasure -/

/-- An erased type is a named type inside arrays, whatever was in the bounds. -/
theorem mentionsVariables_erase : (d : Descriptor) → d.isDeclared = true → d.erase.mentionsVariables = false
  | array c, h => by
    rw [erase, mentionsVariables]
    exact mentionsVariables_erase c h
  | parameterized raw args, h => by
    rw [erase]
    exact mentionsVariables_erase raw (isDeclared_parameterized.mp h).1
  | typeVar _ bound, h => by
    rw [erase]
    exact mentionsVariables_erase bound h
  | unspecified, _ | plain _, _ | enumeration _, _ | interface _ _, _ => rfl

/-- Erasure is the replacement of variables by their erased bounds. -/
theorem eraseVariables_eq (d : Descriptor) :
    d.eraseVariables = d.replaceVariables fun _ bound => some bound.erase := rfl

end Interop.Descriptor

/-! ## Bindings -/

namespace Interop.Bindings

/-- All bindings are as a condition says. -/
def Every (P : TypeVar → Descriptor → Prop) (b : Bindings) : Prop := ∀ entry ∈ b.entries, P entry.1 entry.2

theorem every_empty (P : TypeVar → Descriptor → Prop) : empty.Every P := List.forall_mem_nil _

/-- A property of all bindings is kept where the new one has it. -/
theorem Every.insert {P : TypeVar → Descriptor → Prop} {b : Bindings} (hb : b.Every P) {v : TypeVar} {d : Descriptor}
    (hd : P v d) : (b.insert v d).Every P := by
  have hentries : ∀ {entries : List (TypeVar × Descriptor)}, (∀ entry ∈ entries, P entry.1 entry.2) →
      ∀ entry ∈ insertEntry v d entries, P entry.1 entry.2 := by
    intro entries h
    induction entries with
    | nil => simpa [insertEntry] using hd
    | cons first rest ih =>
      obtain ⟨hfirst, hrest⟩ := List.forall_mem_cons.mp h
      rw [insertEntry]
      split
      · exact List.forall_mem_cons.mpr ⟨hd, hrest⟩
      · exact List.forall_mem_cons.mpr ⟨hfirst, ih hrest⟩
  exact hentries hb

section Entries

variable {P : TypeVar → Descriptor → Prop} {entries : List (TypeVar × Descriptor)}
  (h : ∀ entry ∈ entries, P entry.1 entry.2)
include h

theorem Every.insertAll {b : Bindings} (hb : b.Every P) : (b.insertAll entries).Every P := by
  refine List.foldlRecOn (motive := Every P) _ _ hb fun b hb entry hentry => ?_
  exact hb.insert (h entry hentry)

theorem Every.insertMissing {b : Bindings} (hb : b.Every P) : (b.insertMissing entries).Every P := by
  refine List.foldlRecOn (motive := Every P) _ _ hb fun b hb entry hentry => ?_
  dsimp only
  split
  · exact hb
  · exact hb.insert (h entry hentry)

end Entries

/-- All variables stand for declared types. -/
def Declared (b : Bindings) : Prop := ∀ entry ∈ b.entries, entry.2.isDeclared = true

theorem declared_empty : empty.Declared := every_empty fun _ d => d.isDeclared = true

/-- Substitution of declared types stays within declared types. -/
theorem Declared.substitute {b : Bindings} (hb : b.Declared) {d : Descriptor} (hd : d.isDeclared = true) :
    (d.substitute b).isDeclared = true := by
  refine Descriptor.isDeclared_replaceVariables (fun v _ d hv => ?_) d hd
  exact hb (v, d) (mem_of_lookup hv)

end Interop.Bindings
