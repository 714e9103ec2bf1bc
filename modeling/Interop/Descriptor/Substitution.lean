import Interop.Descriptor.Basic

/-!
# Substitution of type variables

`Bindings` says what type variables stand for. Substitution replaces every bound variable in one simultaneous pass:
what is put in is not looked at again, and neither bounds nor the raw slot of a parameterized type are entered.
`replaceVariables?` reports whether anything was replaced, so that an unchanged descriptor is handed on as it is.
-/

namespace Interop

/-- What type variables stand for; one binding a variable. -/
structure Bindings where
  entries : List (TypeVar × Descriptor)
  deriving Repr, Inhabited

namespace Bindings

def empty : Bindings := ⟨[]⟩

def get? (b : Bindings) (v : TypeVar) : Option Descriptor := b.entries.lookup v

def size (b : Bindings) : Nat := b.entries.length

/-- Binds a variable, in the place of an earlier binding if there is one. -/
def insertEntry (v : TypeVar) (d : Descriptor) : List (TypeVar × Descriptor) → List (TypeVar × Descriptor)
  | [] => [(v, d)]
  | (w, e) :: rest => if v = w then (v, d) :: rest else (w, e) :: insertEntry v d rest

def insert (b : Bindings) (v : TypeVar) (d : Descriptor) : Bindings := ⟨insertEntry v d b.entries⟩

/-- Adds the bindings of a list in order, each replacing an earlier one of its variable. -/
def insertAll (b : Bindings) (entries : List (TypeVar × Descriptor)) : Bindings :=
  entries.foldl (fun b (v, d) => b.insert v d) b

/-- Adds the bindings of a list whose variables are still free. -/
def insertMissing (b : Bindings) (entries : List (TypeVar × Descriptor)) : Bindings :=
  entries.foldl (fun b (v, d) => if (b.get? v).isSome then b else b.insert v d) b

end Bindings

namespace Descriptor

/-! ## One simultaneous pass -/

mutual

/-- Replaces variables for which `leaf` has an answer; absent when nothing was replaced. -/
def replaceVariables? (leaf : TypeVar → Descriptor → Option Descriptor) : Descriptor → Option Descriptor
  | typeVar v bound => leaf v bound
  | array c => (c.replaceVariables? leaf).map array
  | parameterized raw args => (replaceAll? leaf args).map (parameterized raw)
  | union members => (replaceAll? leaf members).map union
  | objectShape fields => (replaceFields? leaf fields).map objectShape
  | functionShape params result =>
    match replaceAll? leaf params, result.replaceVariables? leaf with
    | none, none => none
    | params', result' => some (functionShape (params'.getD params) (result'.getD result))
  | _ => none

def replaceAll? (leaf : TypeVar → Descriptor → Option Descriptor) : List Descriptor → Option (List Descriptor)
  | [] => none
  | d :: ds =>
    match d.replaceVariables? leaf, replaceAll? leaf ds with
    | none, none => none
    | d', ds' => some (d'.getD d :: ds'.getD ds)

def replaceFields? (leaf : TypeVar → Descriptor → Option Descriptor) :
    List (String × Descriptor) → Option (List (String × Descriptor))
  | [] => none
  | (name, d) :: fields =>
    match d.replaceVariables? leaf, replaceFields? leaf fields with
    | none, none => none
    | d', fields' => some ((name, d'.getD d) :: fields'.getD fields)

end

/-- Substitutes bound variables; absent when no bound variable occurs. -/
def substitute? (b : Bindings) (d : Descriptor) : Option Descriptor :=
  d.replaceVariables? fun v _ => b.get? v

/-- Substitutes bound variables. -/
def substitute (b : Bindings) (d : Descriptor) : Descriptor := (d.substitute? b).getD d

/-- Replaces every variable by the erasure of its bound; absent when there is no variable. -/
def eraseVariables? (d : Descriptor) : Option Descriptor :=
  d.replaceVariables? fun _ bound => some bound.erase

/-- Replaces every variable by the erasure of its bound. -/
def eraseVariables (d : Descriptor) : Descriptor := d.eraseVariables?.getD d

end Descriptor

end Interop
