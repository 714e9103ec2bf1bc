import Mathlib.Data.List.Basic
import Interop.Proofs.Descriptor.Substitution

/-!
# Occurrences of variables

Substitution meets a variable where it stands for a type by itself: not in a bound, and not in the raw slot of a
parameterized type. `Descriptor.parts` are the types directly below a type that substitution enters, and a type is a
variable or acts through its parts. So what is said of all forms of types is said in two cases.

* **`Descriptor.vars`**: the variables that substitution meets, in order.
* **`vars_substitute`**: those that are met after a substitution.
* **`substitute_eq_self_iff`**: a substitution that puts no variable in its own place leaves a type alone exactly if
  it has nothing for the variables that it meets.
-/

namespace Interop.Descriptor

/-! ## Variables and parts -/

mutual

/-- The variables that substitution meets, from left to right. -/
def vars : Descriptor → List TypeVar
  | typeVar v _ => [v]
  | array c => c.vars
  | parameterized _ args => allVars args
  | union members => allVars members
  | objectShape fields => fieldVars fields
  | functionShape params result => allVars params ++ result.vars
  | _ => []

def allVars : List Descriptor → List TypeVar
  | [] => []
  | d :: ds => d.vars ++ allVars ds

def fieldVars : List (String × Descriptor) → List TypeVar
  | [] => []
  | (_, d) :: fields => d.vars ++ fieldVars fields

end

/-- The types directly below a type that substitution enters. -/
def parts : Descriptor → List Descriptor
  | array c => [c]
  | parameterized _ args => args
  | union members => members
  | objectShape fields => fields.map (·.2)
  | functionShape params result => params ++ [result]
  | _ => []

/-- The variables of a list of types are those of its types, in order. -/
theorem allVars_eq (ds : List Descriptor) : allVars ds = ds.flatMap vars := by
  induction ds with
  | nil => rw [allVars, List.flatMap_nil]
  | cons d ds ih => rw [allVars, ih, List.flatMap_cons]

theorem fieldVars_eq (fields : List (String × Descriptor)) :
    fieldVars fields = (fields.map (·.2)).flatMap vars := by
  induction fields with
  | nil => rw [fieldVars, List.map_nil, List.flatMap_nil]
  | cons field fields ih => rw [fieldVars, ih, List.map_cons, List.flatMap_cons]

/-- A type that is not a variable has the variables of its parts. -/
theorem vars_eq {d : Descriptor} (hd : d.isVariable = false) : d.vars = d.parts.flatMap vars := by
  cases d with
  | typeVar => cases hd
  | array => rw [vars, parts, List.flatMap_singleton]
  | parameterized | union => rw [vars, parts, allVars_eq]
  | objectShape => rw [vars, parts, fieldVars_eq]
  | functionShape => rw [vars, parts, allVars_eq, List.flatMap_append, List.flatMap_singleton]
  | _ => simp [vars, parts]

/-- A part is smaller than the whole, which is what recursion over the parts needs. -/
theorem sizeOf_lt_of_mem_parts {d e : Descriptor} (he : e ∈ d.parts) : sizeOf e < sizeOf d := by
  cases d with
  | array c =>
    rw [List.mem_singleton.mp he, array.sizeOf_spec]
    omega
  | parameterized raw args =>
    have : sizeOf e < sizeOf args := List.sizeOf_lt_of_mem he
    rw [parameterized.sizeOf_spec]
    omega
  | union members =>
    have : sizeOf e < sizeOf members := List.sizeOf_lt_of_mem he
    rw [union.sizeOf_spec]
    omega
  | objectShape fields =>
    -- the parts of a shape are the second halves of its fields
    obtain ⟨⟨name, e⟩, hfield, rfl⟩ := List.mem_map.mp he
    have := List.sizeOf_lt_of_mem hfield
    simp only [objectShape.sizeOf_spec, Prod.mk.sizeOf_spec] at this ⊢
    omega
  | functionShape params result =>
    rw [functionShape.sizeOf_spec]
    rcases List.mem_append.mp he with hparam | hresult
    · have := List.sizeOf_lt_of_mem hparam
      omega
    · rw [List.mem_singleton.mp hresult]
      omega
  | _ => cases he

/-- Induction over types: variables, and the other types through their parts. -/
@[elab_as_elim]
theorem partsInduction {motive : Descriptor → Prop} (var : ∀ v bound, motive (typeVar v bound))
    (other : ∀ d, d.isVariable = false → (∀ e ∈ d.parts, motive e) → motive d) (d : Descriptor) : motive d :=
  match hd : d.isVariable with
  | true =>
    match d, hd with
    | typeVar v bound, _ => var v bound
  | false => other d hd fun e _ => partsInduction var other e
termination_by sizeOf d
decreasing_by exact sizeOf_lt_of_mem_parts ‹_›

/-! ## Replacement through parts -/

section Replacement

variable (leaf : TypeVar → Descriptor → Option Descriptor)

/-- Replacing in a union is replacing in its members. -/
theorem replaceVariables_union (members : List Descriptor) :
    (union members).replaceVariables leaf = union (members.map (replaceVariables leaf)) := by
  rw [replaceVariables, replaceVariables?, ← getD_replaceAll?]
  cases replaceAll? leaf members <;> rfl

theorem getD_replaceFields? (fields : List (String × Descriptor)) :
    (replaceFields? leaf fields).getD fields = fields.map fun field => (field.1, field.2.replaceVariables leaf) := by
  induction fields with
  | nil => simp [replaceFields?]
  | cons field fields ih =>
    rw [List.map_cons, ← ih, replaceVariables, replaceFields?]
    cases field.2.replaceVariables? leaf <;> cases replaceFields? leaf fields <;> rfl

/-- Replacing in an object shape is replacing in the types of its fields, whose names stay. -/
theorem replaceVariables_objectShape (fields : List (String × Descriptor)) :
    (objectShape fields).replaceVariables leaf =
      objectShape (fields.map fun field => (field.1, field.2.replaceVariables leaf)) := by
  rw [replaceVariables, replaceVariables?, ← getD_replaceFields?]
  cases replaceFields? leaf fields <;> rfl

/-- Replacing in a function shape is replacing in its parameters and its result. -/
theorem replaceVariables_functionShape (params : List Descriptor) (result : Descriptor) :
    (functionShape params result).replaceVariables leaf =
      functionShape (params.map (replaceVariables leaf)) (result.replaceVariables leaf) := by
  rw [replaceVariables, replaceVariables?, ← getD_replaceAll?, replaceVariables]
  cases replaceAll? leaf params <;> cases result.replaceVariables? leaf <;> rfl

/-- What is no variable itself keeps its shape, so its parts are the old ones with their variables replaced. -/
theorem parts_replaceVariables {d : Descriptor} (hd : d.isVariable = false) :
    (d.replaceVariables leaf).parts = d.parts.map (replaceVariables leaf) := by
  cases d with
  | typeVar => cases hd
  | array => rw [replaceVariables_array]; rfl
  | parameterized => rw [replaceVariables_parameterized]; rfl
  | union => rw [replaceVariables_union]; rfl
  | objectShape fields =>
    rw [replaceVariables_objectShape, parts, parts, List.map_map, List.map_map]
    rfl
  | functionShape =>
    rw [replaceVariables_functionShape, parts, parts, List.map_append]
    rfl
  | _ => rfl

theorem isVariable_replaceVariables {d : Descriptor} (hd : d.isVariable = false) :
    (d.replaceVariables leaf).isVariable = false := by
  cases d with
  | typeVar => cases hd
  | array => rw [replaceVariables_array]; rfl
  | parameterized => rw [replaceVariables_parameterized]; rfl
  | union => rw [replaceVariables_union]; rfl
  | objectShape => rw [replaceVariables_objectShape]; rfl
  | functionShape => rw [replaceVariables_functionShape]; rfl
  | _ => rfl

/-- A replacement leaves a type alone if it leaves its parts alone. -/
theorem replaceVariables_eq_self_iff {d : Descriptor} (hd : d.isVariable = false) :
    d.replaceVariables leaf = d ↔ ∀ e ∈ d.parts, e.replaceVariables leaf = e := by
  refine ⟨fun heq e he => ?_, fun hparts => ?_⟩
  · have hmap : d.parts.map (replaceVariables leaf) = d.parts.map id := by
      rw [← parts_replaceVariables leaf hd, heq, List.map_id]
    exact List.map_inj_left.mp hmap e he
  · have hmap : ∀ ds : List Descriptor, (∀ e ∈ ds, e.replaceVariables leaf = e) →
        ds.map (replaceVariables leaf) = ds := fun ds h => (List.map_congr_left h).trans (List.map_id ds)
    cases d with
    | typeVar => cases hd
    | array c => rw [replaceVariables_array, hparts c List.mem_cons_self]
    | parameterized raw args => rw [replaceVariables_parameterized, hmap args hparts]
    | union members => rw [replaceVariables_union, hmap members hparts]
    | objectShape fields =>
      rw [replaceVariables_objectShape]
      refine congrArg objectShape ((List.map_congr_left fun field hfield => ?_).trans (List.map_id fields))
      rw [hparts field.2 (List.mem_map_of_mem hfield), id_eq]
    | functionShape params result =>
      obtain ⟨hparams, hresult⟩ := List.forall_mem_append.mp hparts
      rw [replaceVariables_functionShape, hmap params hparams, hresult result List.mem_cons_self]
    | _ => rfl

end Replacement

/-! ## Substitution -/

variable {b : Bindings}

/-- Substitution is the replacement of variables that looks them up in the bindings. -/
theorem substitute_eq (b : Bindings) (d : Descriptor) : d.substitute b = d.replaceVariables fun v _ => b.get? v := rfl

/-- A variable is replaced by what is bound to it, and stays without a binding. -/
theorem substitute_typeVar (b : Bindings) (v : TypeVar) (bound : Descriptor) :
    (typeVar v bound).substitute b = (b.get? v).getD (typeVar v bound) := replaceVariables_typeVar _ v bound

/-- **What is met after a substitution**: what the variables stand for, and those that stand for nothing. -/
theorem vars_substitute (b : Bindings) (d : Descriptor) :
    (d.substitute b).vars = d.vars.flatMap fun v => (b.get? v).elim [v] vars := by
  induction d using partsInduction with
  | var v bound =>
    rw [substitute_typeVar, vars, List.flatMap_singleton]
    cases b.get? v <;> rfl
  | other d hd ih =>
    rw [substitute_eq, vars_eq (isVariable_replaceVariables _ hd), parts_replaceVariables _ hd, vars_eq hd,
      List.flatMap_map, List.flatMap_assoc]
    exact List.flatMap_congr ih

/-- **A type is left alone** exactly if nothing is bound that is met in it. -/
theorem substitute_eq_self_iff (hb : ∀ v bound, b.get? v ≠ some (typeVar v bound)) (d : Descriptor) :
    d.substitute b = d ↔ ∀ v ∈ d.vars, b.get? v = none := by
  induction d using partsInduction with
  | var v bound =>
    rw [substitute_typeVar, vars, List.forall_mem_singleton]
    cases hv : b.get? v with
    | none => simp
    | some e =>
      have hne : e ≠ typeVar v bound := fun heq => hb v bound (heq ▸ hv)
      simpa using hne
  | other d hd ih =>
    rw [substitute_eq, replaceVariables_eq_self_iff _ hd, vars_eq hd]
    refine ⟨fun hparts v hv => ?_, fun hunbound e he => (ih e he).mpr fun v hv => ?_⟩
    · obtain ⟨e, he, hve⟩ := List.mem_flatMap.mp hv
      exact (ih e he).mp (hparts e he) v hve
    · exact hunbound v (List.mem_flatMap.mpr ⟨e, he, hv⟩)

end Interop.Descriptor
