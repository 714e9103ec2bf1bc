import Interop.Member.Property
import Interop.TypeTable.Hierarchy

/-!
# Members along the hierarchy

The members of a type are collected from the type itself and then from its supertypes, the nearest first. Of methods
with one name and one list of erased parameter types the first visible declaration is kept. Of fields with one name
the one declared on the most derived type is kept. Signatures are resolved by what the type variables stand for, and
variables without a binding by their bounds. Members without a handle are left out.

Methods come first in a table, then fields, which take the place of methods of their name, then properties.
-/

namespace Interop

/-- A declared type as a member shows it: bound variables substituted, the others erased. -/
def resolveType (b : Bindings) (d : Descriptor) : Except Stop Descriptor :=
  let resolved := (d.substitute b).eraseVariables
  if resolved.mentionsVariables then .error (.unresolvedVariable d.signature) else .ok resolved

def Callable.ofMethod? (b : Bindings) (m : MethodDecl) : Except Stop (Option Callable) :=
  match m.invoker with
  | none => .ok none
  | some invoker => do
    let params ← m.params.mapM (resolveType b)
    let returnType ← resolveType b m.returnType
    .ok (some ⟨m.name, m.declaring, params, returnType, m.flags, invoker⟩)

def Callable.ofConstructor? (b : Bindings) (typeName : String) (c : ConstructorDecl) : Except Stop (Option Callable) :=
  match c.invoker with
  | none => .ok none
  | some invoker => do
    let params ← c.params.mapM (resolveType b)
    .ok (some ⟨typeName, c.declaring, params, .plain typeName, c.flags.union { isStatic := true }, invoker⟩)

def MemberField.ofField? (b : Bindings) (f : FieldDecl) : Except Stop (Option MemberField) :=
  match f.storage with
  | none => .ok none
  | some storage => do
    let type ← resolveType b f.type
    .ok (some ⟨f.name, f.declaring, type, f.flags, storage, none⟩)

/-- The erased ids of parameter types; a type without id counts as the empty one. -/
def erasedParams (params : List Descriptor) : List TypeId :=
  params.map fun p => p.erase.typeId?.getD .empty

/-- What two declarations of one method share: the name and the erased parameter types. -/
def MethodDecl.overrideKey (m : MethodDecl) : TypeId := .ofSignature m.name (erasedParams m.params)

namespace TypeTable

/-- The type with an id; a supertype that the host does not describe declares nothing. -/
def declaredBy (t : TypeTable) (root id : TypeId) : Except Stop (Option TypeDecl) :=
  match t.describe id with
  | .ok d => .ok (some d)
  | .error (.unknownType name) => if id = root then .error (.failed (.unknownType name)) else .ok none
  | .error failure => .error (.failed failure)

/-! ## Methods -/

/-- The keys of the visible declarations met so far, and the methods kept. -/
structure MethodScan where
  seen : List TypeId := []
  kept : List Callable := []

def MethodScan.add (b : Bindings) (includeNonPublic : Bool) (scan : MethodScan) (m : MethodDecl) :
    Except Stop MethodScan :=
  if !m.flags.isVisible includeNonPublic || scan.seen.contains m.overrideKey then .ok scan
  else do
    let callable ← Callable.ofMethod? b m
    .ok ⟨scan.seen ++ [m.overrideKey], scan.kept ++ callable.toList⟩

/-- The methods of a type, in the order in which they are met. -/
def scanMethods (t : TypeTable) (b : Bindings) (includeNonPublic : Bool) (root : TypeId) (closure : List TypeId) :
    Except Stop MethodScan :=
  closure.foldlM
    (fun scan id => do
      let decl ← t.declaredBy root id
      ((decl.map (·.methods)).getD []).foldlM (MethodScan.add b includeNonPublic) scan)
    {}

/-! ## Fields -/

/-- Fields under their names, in the order in which the names are met. -/
abbrev NamedFields := List (String × MemberField)

/-- Takes in a field; one declared on a strict subtype replaces the field found before. -/
def addField (t : TypeTable) (slots : NamedFields) (f : MemberField) : NamedFields :=
  match slots with
  | [] => [(f.name, f)]
  | (name, existing) :: rest =>
    if name = f.name then
      if existing.declaring ≠ f.declaring ∧ t.isSubtype f.declaring existing.declaring then (name, f) :: rest
      else (name, existing) :: rest
    else (name, existing) :: addField t rest f

/-- The instance fields and the static fields found so far. -/
structure FieldScan where
  instances : NamedFields := []
  statics : NamedFields := []

def FieldScan.add (t : TypeTable) (b : Bindings) (includeNonPublic : Bool) (scan : FieldScan) (f : FieldDecl) :
    Except Stop FieldScan :=
  if !f.flags.isVisible includeNonPublic then .ok scan
  else do
    match ← MemberField.ofField? b f with
    | none => .ok scan
    | some accessor =>
      if accessor.flags.isStatic then .ok { scan with statics := t.addField scan.statics accessor }
      else .ok { scan with instances := t.addField scan.instances accessor }

/-- The fields of a type. -/
def scanFields (t : TypeTable) (b : Bindings) (includeNonPublic : Bool) (root : TypeId) (closure : List TypeId) :
    Except Stop FieldScan :=
  closure.foldlM
    (fun scan id => do
      let decl ← t.declaredBy root id
      ((decl.map (·.fields)).getD []).foldlM (FieldScan.add t b includeNonPublic) scan)
    {}

/-! ## Constructors -/

/-- The constructors of a type; abstract types, interfaces and enums have none. -/
def scanConstructors (t : TypeTable) (b : Bindings) (includeNonPublic : Bool) (root : TypeId) (decl : TypeDecl) :
    Except Stop (Option OverloadSet) :=
  if decl.isAbstract || decl.kind == .ofEnum then .ok none
  else do
    let declared ← t.declaredBy root root
    let visible := ((declared.map (·.constructors)).getD []).filter (·.flags.isVisible includeNonPublic)
    let candidates ← visible.mapM (Callable.ofConstructor? b decl.name)
    match candidates.filterMap id with
    | [] => .ok none
    | found => .ok (some ⟨decl.name, found⟩)

end TypeTable

/-! ## Tables -/

/-- Puts a method with the methods of its name, a new name last. -/
def groupMethod (groups : List (String × List Callable)) (c : Callable) : List (String × List Callable) :=
  match groups with
  | [] => [(c.name, [c])]
  | (name, group) :: rest =>
    if name = c.name then (name, group ++ [c]) :: rest else (name, group) :: groupMethod rest c

/-- The methods of each name, the names in the order in which they are met. -/
def groupMethods (methods : List Callable) : List (String × List Callable) :=
  methods.foldl groupMethod []

namespace MemberTable

/-- A table of methods. -/
def ofMethods (methods : List Callable) : MemberTable :=
  ⟨(groupMethods methods).map fun (name, candidates) => (name, .methods ⟨name, candidates⟩)⟩

/-- Adds a field, which keeps the methods of its name behind it. -/
def addField (t : MemberTable) (f : MemberField) : MemberTable :=
  match t.find? f.name with
  | some (.methods set) => t.insert f.name (.field { f with methods := some set })
  | _ => t.insert f.name (.field f)

/-- Methods, then fields, then properties. -/
def build (methods : List Callable) (fields : TypeTable.NamedFields) : MemberTable :=
  (fields.foldl (fun t (_, f) => t.addField f) (ofMethods methods)).withProperties

end MemberTable

/-- The members of a type, with signatures resolved by bindings. -/
def TypeTable.collectMembers (t : TypeTable) (id : TypeId) (b : Bindings) (includeNonPublic : Bool) :
    Except Stop TypeMembers :=
  match t.find? id with
  | none => .error (.failed (.unknownType id.text))
  | some decl => do
    let closure := t.ancestry id
    let methods ← t.scanMethods b includeNonPublic id closure
    let fields ← t.scanFields b includeNonPublic id closure
    let constructors ← t.scanConstructors b includeNonPublic id decl
    .ok
      { typeId := id
        typeName := decl.name
        instances := .build (methods.kept.filter (!·.isStatic)) fields.instances
        statics := .build (methods.kept.filter (·.isStatic)) fields.statics
        constructors := constructors }

end Interop
