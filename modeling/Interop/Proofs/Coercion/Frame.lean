import Interop.Proofs.Store.Bridge
import Interop.Proofs.Store.Members

/-!
# What conversion leaves alone

Converting a value may run native code: where a number is asked of a proxy, its accessor is called, without arguments.
Host code can only write to records, and standard code can put nothing into a list without an argument. An accessor that
takes any number of arguments would be given an array for them, but standard code never does, whatever types are
declared. So lists are left as they are.

* **`MemberRule.fixedArity`**: standard members take a fixed number of arguments, in every lived store.
* **`Regime.lists`**: lists stay as they were in a store.
* **`leavesLists_convert`**: no conversion changes a list.
-/

namespace Interop

/-! ## Standard members -/

/-- Standard code behind the members of a type takes a fixed number of arguments. -/
structure TypeDecl.FixedArity (d : TypeDecl) : Prop where
  methods : ∀ m ∈ d.methods, ∀ code, m.invoker = some (.standard code) → m.flags.isVariadic = false
  constructors : ∀ c ∈ d.constructors, ∀ code, c.invoker = some (.standard code) → c.flags.isVariadic = false

def TypeTable.FixedArity (t : TypeTable) : Prop := ∀ id d, t.find? id = some d → d.FixedArity

/-- Every callable made of such a declaration carries its flags along, so the rule holds of the members that are
collected. -/
theorem TypeTable.FixedArity.makes {t : TypeTable} (ht : t.FixedArity) (b : Bindings) :
    t.Makes b (fun _ => True) .fixedArity where
  failed _ := trivial
  -- the flags of a declaration are those of its callable; types do not matter here
  method id d hd m hm := by
    unfold Callable.ofMethod?
    split
    · exact List.forall_mem_nil _
    · next invoker hinvoker =>
      refine (Yields.any _).bind fun params _ => (Yields.any _).bind fun returnType _ => ?_
      refine List.forall_mem_singleton.mpr fun code hcode => ?_
      have hflags := (ht id d hd).methods m hm code (hinvoker.trans (congrArg some hcode))
      simp [Callable.isVariadic, hflags]
  field id d hd f hf := by
    unfold MemberField.ofField?
    split
    · exact List.forall_mem_nil _
    · exact (Yields.any _).bind fun type _ => List.forall_mem_singleton.mpr ⟨trivial, by simp⟩
  constructor id d hd c hc typeName := by
    unfold Callable.ofConstructor?
    split
    · exact List.forall_mem_nil _
    · next invoker hinvoker =>
      refine (Yields.any _).bind fun params _ => ?_
      refine List.forall_mem_singleton.mpr fun code hcode => ?_
      have hflags := (ht id d hd).constructors c hc code (hinvoker.trans (congrArg some hcode))
      simp [Callable.isVariadic, Flags.union, hflags]

/-- Standard members take a fixed number of arguments. -/
def MemberRule.fixedArity : MemberRule where
  types := TypeTable.FixedArity
  members e := e.Meets .fixedArity
  collect := by
    intro t b flag declared id e ht h
    have hmeets := TypeTable.collectOrAbove_meets (ht.makes b) trivial flag declared id
    rwa [h] at hmeets

/-- The standard types declare no variadic code at all. -/
theorem StandardType.fixedArity_table : table.FixedArity := by
  intro id d hd
  have hcheck := forall_of_entries (p := fun _ d =>
    d.methods.all (!·.flags.isVariadic) && d.constructors.all (!·.flags.isVariadic)) (by decide +kernel) hd
  simp only [Bool.and_eq_true, List.all_eq_true, Bool.not_eq_true'] at hcheck
  exact ⟨fun m hm _ _ => hcheck.1 m hm, fun c hc _ _ => hcheck.2 c hc⟩

/-- A method that a host declares is never standard code. -/
theorem MethodSpec.invoker_declare (m : MethodSpec) (declaring : TypeId) (code : StandardCode) :
    (m.declare declaring).invoker ≠ some (.standard code) := by
  unfold declare
  dsimp only
  repeat' split
  all_goals simp

/-- What a host declares is its own code; the methods that every enum has take no arguments. -/
theorem TypeTable.FixedArity.declare {s : Store} (h : s.types.FixedArity) (spec : TypeSpec) :
    (s.declare spec).types.FixedArity := by
  obtain ⟨grown, decl, hgrows, heq, -, -, -, -, hmethods, hconstructors⟩ := s.declare_spec spec
  intro id d hd
  rw [heq, find?_insert, hgrows.types] at hd
  split at hd
  · cases hd
    constructor
    · intro m hm code hcode
      rw [hmethods] at hm
      rcases List.mem_append.mp hm with hm | hm
      · obtain ⟨declared, -, rfl⟩ := List.mem_map.mp hm
        exact absurd hcode (declared.invoker_declare _ code)
      · split at hm
        · simp only [Store.enumMethods, List.mem_cons, List.not_mem_nil, or_false] at hm
          rcases hm with rfl | rfl <;> rfl
        · cases hm
    · intro c hc code hcode
      rw [hconstructors] at hc
      obtain ⟨declared, -, rfl⟩ := List.mem_map.mp hc
      simp [ConstructorSpec.declare] at hcode
  · exact h id d hd

/-- Taking a type off the list of those that are shown changes no declaration. -/
theorem TypeTable.FixedArity.deny {t : TypeTable} (h : t.FixedArity) (denied : TypeId) : (t.deny denied).FixedArity := by
  intro id d hd
  rw [find?_deny] at hd
  obtain ⟨before, hbefore, rfl⟩ := Option.map_eq_some_iff.mp hd
  obtain ⟨hmethods, hconstructors⟩ := h id before hbefore
  split <;> exact ⟨hmethods, hconstructors⟩

/-- The rule survives all that a host does to the registry. -/
theorem MemberRule.lasts_fixedArity : MemberRule.fixedArity.Lasts where
  standard := StandardType.fixedArity_table
  bare _ _ h := by cases h
  declare spec h := h.declare spec
  deny denied h := h.deny denied

/-! ## Lists -/

/-- Standard members take a fixed number of arguments, and lists hold what they held in a store. -/
def Regime.lists (s : Store) : Regime where
  holds s' := s'.Complies .fixedArity ∧ s.LeavesLists s'
  allows _ := True
  change hchange hlists hs := ⟨hs.1.change hchange, hs.2.trans hlists⟩
  lookedUp id declared flag hs := ⟨hs.1.lookedUp id declared flag, hs.2.trans (.of_natives_eq rfl)⟩
  failed _ := trivial
  diverged := trivial
  lookup _ _ := trivial

/-- Where standard members take a fixed number of arguments, no conversion changes a list. -/
theorem Store.Complies.leavesLists_convert {s : Store} (hs : s.Complies .fixedArity) (d : Descriptor) (v : Script) :
    s.LeavesLists ((convert d v).outcome s).2 := by
  have hnumber : ∀ v, (toNumber v).Follows (Regime.lists s) :=
    follows_toNumber (.inl fun _ hs₁ => hs₁.1.noted)
  exact (follows_convert_of_number hnumber d (.inr fun _ => trivial) v s ⟨hs, .refl s⟩).1.2

/-- **No conversion changes a list**, whether it gives a value or stops. -/
theorem leavesLists_convert {s : Store} (hs : s.Lived) (d : Descriptor) (v : Script) :
    s.LeavesLists ((convert d v).outcome s).2 :=
  (hs.complies MemberRule.lasts_fixedArity).leavesLists_convert d v

end Interop
