import Interop.Proofs.Coercion.Discipline
import Interop.Proofs.Member.Resolved
import Interop.Store.Declare

/-!
# Type variables and conversion

No conversion meets a type variable where the host declares its types in the forms that host declarations have. The
entries that look-ups give mention none, and a conversion to one of their types looks up members by the way, which
again mention none.

* **`MemberCache.lookup_variableFree`**: both statements, for hierarchies of any shape.
-/

namespace Interop

/-- Whether all that a table mentions is declared can be read off its entries. -/
theorem TypeTable.declared_of_entries {t : TypeTable}
    (h : (t.entries.all fun entry => entry.2.mentioned.all (·.isDeclared)) = true) : t.Declared := by
  intro id d hfind type htype
  exact List.all_eq_true.mp (List.all_eq_true.mp h (id, d) (mem_of_lookup hfind)) type htype

/-- The host mentions declared types only, the members kept are resolved, and computations do not stop at variables. -/
def Discipline.variableFree : Discipline where
  holds s := s.types.Declared ∧ s.memberCache.Sound
  allows := Stop.NotAtVariable
  step := by
    intro s s' hchange hs
    obtain ⟨htypes, hcache⟩ := hchange.step.types_memberCache_eq
    rwa [htypes, hcache]
  lookedUp id declared flag hs := ⟨hs.1, (hs.2.lookup hs.1 id declared flag).2⟩
  failed := Stop.notAtVariable_failed
  diverged := Stop.notAtVariable_diverged
  lookup := by
    intro s id declared flag stop hs hstop
    have hyields := (hs.2.lookup hs.1 id declared flag).1
    rw [hstop] at hyields
    exact hyields

/-- A computation that follows the discipline does not stop at a variable. -/
theorem Eval.Follows.ne_unresolvedVariable {x : Eval α} (hx : x.Follows Discipline.variableFree) {s : Store}
    (htypes : s.types.Declared) (hcache : s.memberCache.Reached) (name : String) :
    (x.outcome s).1 ≠ .error (.unresolvedVariable name) :=
  fun heq => (hx s ⟨htypes, hcache.sound⟩).2 _ heq name rfl

/-- **No type variable reaches conversion.** A look-up never stops at one, whatever was looked up before; the types of
an entry mention none; and neither ranking nor converting a value for one of these types ever meets one. -/
theorem MemberCache.lookup_variableFree {t : TypeTable} (ht : t.Declared) {r : MemberCache} (hr : r.Reached)
    (id : TypeId) (declared : Option TypeId) (flag : Bool) :
    (∀ name, (r.lookup t id declared flag).1 ≠ .error (.unresolvedVariable name)) ∧
      ∀ m, (r.lookup t id declared flag).1 = .ok m → ∀ d ∈ m.entry.types,
        d.mentionsVariables = false ∧
          ∀ s : Store, s.types.Declared → s.memberCache.Reached → ∀ (v : Script) (name : String),
            ((rankOf v d).outcome s).1 ≠ .error (.unresolvedVariable name) ∧
              ((convert d v).outcome s).1 ≠ .error (.unresolvedVariable name) := by
  have hyields := (hr.sound.lookup ht id declared flag).1
  constructor
  · intro name heq
    rw [heq] at hyields
    exact hyields name rfl
  · intro m hm d hd
    rw [hm] at hyields
    have hresolved : d.mentionsVariables = false := hyields d hd
    refine ⟨hresolved, fun s htypes hcache v name => ⟨?_, ?_⟩⟩
    · exact (follows_rankOf v d (.inl hresolved)).ne_unresolvedVariable htypes hcache name
    · exact (follows_convert d (.inl hresolved) v).ne_unresolvedVariable htypes hcache name

/-- A generic class whose superclass is itself, each time with its arguments one list deeper. -/
def deepeningSpec : TypeSpec where
  name := "demo.Deepening"
  kind := .ofClass
  typeParams := ["T"]
  superclass := some (.parameterized (.plain "demo.Deepening")
    [.parameterized (.interface "host.List" false) [.typeVar ⟨.ofName "demo.Deepening", "T"⟩ (.plain "host.Object")]])
  methods := [{ name := "pick", params := [.array (.typeVar ⟨.ofName "demo.Deepening", "T"⟩ (.plain "host.Number"))],
                returnType := .typeVar ⟨.ofName "demo.Deepening", "U"⟩
                  (.typeVar ⟨.ofName "demo.Deepening", "T"⟩ (.plain "host.Object")) }]

theorem MemberCache.lookup_variableFree_deepening : ∃ m : Membership,
    (MemberCache.lookup {} ((Store.standard {} false).declare deepeningSpec).types (.ofName "demo.Deepening") none
      false).1 = .ok m ∧ m.entry.types.length = 5 ∧ ∀ d ∈ m.entry.types, d.mentionsVariables = false ∧
        ∀ (v : Script) (name : String), ((convert d v).outcome ((Store.standard {} false).declare deepeningSpec)).1 ≠
          .error (.unresolvedVariable name) := by
  have ht : ((Store.standard {} false).declare deepeningSpec).types.Declared :=
    TypeTable.declared_of_entries (by decide +kernel)
  have hfound : (MemberCache.lookup {} ((Store.standard {} false).declare deepeningSpec).types
      (.ofName "demo.Deepening") none false).1.toOption.map (·.entry.types.length) = some 5 := by decide +kernel
  obtain ⟨m, hm, hlength⟩ := Option.map_eq_some_iff.mp hfound
  cases hlookup : (MemberCache.lookup {} ((Store.standard {} false).declare deepeningSpec).types
      (.ofName "demo.Deepening") none false).1 with
  | error stop =>
    rw [hlookup] at hm
    cases hm
  | ok m' =>
    rw [hlookup] at hm
    cases hm
    refine ⟨m, rfl, hlength, fun d hd => ?_⟩
    obtain ⟨hresolved, hconvert⟩ := (MemberCache.lookup_variableFree ht .empty _ none false).2 m hlookup d hd
    exact ⟨hresolved, fun v name => (hconvert _ ht .empty v name).2⟩

end Interop
