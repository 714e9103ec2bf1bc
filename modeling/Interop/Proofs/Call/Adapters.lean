import Interop.Call.Basic
import Interop.Proofs.Store.Evaluation
import Interop.Store.Declare

/-!
# Calls that adapters answer

A call of an abstract method reaches an adapter under the name of the method, with its arguments. The adapter looks for a
method of its own by that name and the number of arguments, and goes by the signature of the one it finds first. The
method that was called and the one that is found are the same where no other overload takes as many arguments; an
overload that is declared later than another of its arity is answered by the signature of the earlier one.

* **`AnsweredBy`**: a call that is answered by the signature of a method.
* **`send_answeredBy`**: an adapter answers by the signature of the method it finds.
* **`run_answeredByFirst`**: so calls of one arity are all answered by one signature.
-/

namespace Interop

variable {s : Store} {r : NativeRef} {target : Script} {interface : Descriptor} {m : Membership} {name : String}
  {key : Option AdapterKey}

/-! ## Arguments -/

/-- Wraps values by their declared types, in order. -/
def Store.wrapAll (s : Store) : List (Native × Descriptor) → List Script × Store
  | [] => ([], s)
  | (v, type) :: rest => ((s.wrap v type).1 :: ((s.wrap v type).2.wrapAll rest).1, ((s.wrap v type).2.wrapAll rest).2)

/-- Wrapping is a step of the store that always succeeds, so a wrap in the middle of a computation can be read off the
store. -/
theorem Eval.outcome_wrap (v : Native) (type : Descriptor) (s : Store) :
    (Eval.wrap v type).outcome s = (.ok (s.wrap v type).1, (s.wrap v type).2) := rfl

/-- The arguments of a call are wrapped from left to right, each in the store that the ones before it left. -/
theorem Eval.outcome_wrapAll (arguments : List (Native × Descriptor)) (s : Store) :
    (arguments.mapM fun (v, type) => Eval.wrap v type).outcome s =
      (.ok (s.wrapAll arguments).1, (s.wrapAll arguments).2) := by
  induction arguments generalizing s with
  | nil => rfl
  | cons argument rest ih =>
    obtain ⟨v, type⟩ := argument
    rw [List.mapM_cons, Eval.outcome_bind_of_ok (Eval.outcome_wrap v type s), Eval.outcome_bind_of_ok (ih _)]
    rfl

/-! ## Answers -/

/-- The call of a script function with arguments that are wrapped by the parameter types of a method. The function and
the arguments are in use meanwhile. -/
def Store.callBy (s : Store) (c : Callable) (n : Nat) (f : FunctionRef) (target : Script) (args : List Native) :
    Except Stop Script × Store :=
  let (scripts, s₁) := s.wrapAll (args.zip c.params)
  (callFunction n f target scripts).outcome (s₁.withInUse (.function f :: scripts.flatMap Script.held ++ s.inUse))

/-- A call on an adapter of a script value ends as the signature of a method says: the script function that answers to
the name gets the arguments by the parameter types, and what it returns is converted to the return type. -/
inductive AnsweredBy (n : Nat) (s : Store) (target : Script) (name : String) (c : Callable) (args : List Native) :
    Except Stop Native × Store → Prop where
  /-- There is no telling which function answers. -/
  | refused {stop : Stop} {s₁ : Store} (hf : (answering n target name).outcome s = (.error stop, s₁)) :
    AnsweredBy n s target name c args (.error stop, s₁)
  /-- No function answers. -/
  | absent {s₁ : Store} (hf : (answering n target name).outcome s = (.ok none, s₁)) :
    AnsweredBy n s target name c args (.ok (if c.returnType.isVoid then .void else .initialFor c.returnType), s₁)
  /-- The function stops. -/
  | stopped {f : FunctionRef} {stop : Stop} {s₁ s₂ : Store}
    (hf : (answering n target name).outcome s = (.ok (some f), s₁))
    (hcall : s₁.callBy c n f target args = (.error stop, s₂)) :
    AnsweredBy n s target name c args (.error stop, s₂.withInUse s₁.inUse)
  /-- The function returns, and nothing is asked for. -/
  | void {f : FunctionRef} {result : Script} {s₁ s₂ : Store}
    (hf : (answering n target name).outcome s = (.ok (some f), s₁))
    (hcall : s₁.callBy c n f target args = (.ok result, s₂)) (hvoid : c.returnType.isVoid = true) :
    AnsweredBy n s target name c args (.ok .void, s₂.withInUse s₁.inUse)
  /-- The function returns, and the call ends as the conversion of the result does. -/
  | converted {f : FunctionRef} {result : Script} {s₁ s₂ s₃ : Store} {native : Except Stop Native}
    (hf : (answering n target name).outcome s = (.ok (some f), s₁))
    (hcall : s₁.callBy c n f target args = (.ok result, s₂)) (hvoid : c.returnType.isVoid = false)
    (hconvert : (convert c.returnType result).outcome (s₂.withInUse (result.held ++ s₂.inUse)) = (native, s₃)) :
    AnsweredBy n s target name c args (native, s₃.withInUse s₁.inUse)

/-- Of a method, only the parameter types and the return type count. -/
theorem AnsweredBy.of_signature {n : Nat} {c c' : Callable} {args : List Native} {outcome : Except Stop Native × Store}
    (hparams : c'.params = c.params) (hreturn : c'.returnType = c.returnType)
    (h : AnsweredBy n s target name c args outcome) : AnsweredBy n s target name c' args outcome := by
  have hcall : ∀ (s₁ : Store) f, s₁.callBy c' n f target args = s₁.callBy c n f target args := by
    intro s₁ f
    rw [Store.callBy, Store.callBy, hparams]
  cases h with
  | refused hf => exact .refused hf
  | absent hf =>
    rw [← hreturn]
    exact .absent hf
  | stopped hf hrun => exact .stopped hf ((hcall _ _).trans hrun)
  | void hf hrun hvoid => exact .void hf ((hcall _ _).trans hrun) (hreturn ▸ hvoid)
  | converted hf hrun hvoid hconvert => exact .converted hf ((hcall _ _).trans hrun) (hreturn ▸ hvoid) (hreturn ▸ hconvert)

/-- Wrapping a native hands out a script value and holds nothing of its own: what is in use stays the same. -/
theorem Store.inUse_wrap (s : Store) (v : Native) (type : Descriptor) : (s.wrap v type).2.inUse = s.inUse := by
  have hobject : ∀ r, (s.wrapObject r type).2.inUse = s.inUse := by
    intro r
    unfold wrapObject
    split <;> rfl
  unfold wrap
  split
  · rfl
  · rfl
  · exact hobject _
  · split <;> rfl

theorem Store.inUse_wrapAll (s : Store) (arguments : List (Native × Descriptor)) :
    (s.wrapAll arguments).2.inUse = s.inUse := by
  induction arguments generalizing s with
  | nil => rfl
  | cons argument rest ih =>
    show ((s.wrap argument.1 argument.2).2.wrapAll rest).2.inUse = s.inUse
    rw [ih, inUse_wrap]

/-- **An adapter answers by the signature of the method that it finds**, by name and number of arguments. -/
theorem send_answeredBy (hr : s.native r = .adapter target interface m key) {o : Overloads}
    (ho : m.overloads? name false = some o) {c : Callable} {args : List Native}
    (hc : o.set.candidates.find? (·.arity == args.length) = some c) (n : Nat) :
    AnsweredBy n s target name c args ((send (n + 1) r name args).outcome s) := by
  rw [send, Eval.outcome_get_bind, hr]
  dsimp only
  rw [ho, Option.bind_some, hc]
  dsimp only
  rcases hf : (answering n target name).outcome s with ⟨stop | _ | f, s₁⟩
  · rw [Eval.outcome_bind_of_error hf]
    exact .refused hf
  · rw [Eval.outcome_bind_of_ok hf]
    exact .absent hf
  · rw [Eval.outcome_bind_of_ok hf]
    dsimp only
    rw [Eval.outcome_bind_of_ok (Eval.outcome_wrapAll (args.zip c.params) s₁), Eval.outcome_holding,
      s₁.inUse_wrapAll (args.zip c.params)]
    -- while the function runs it is in use with its arguments, and afterwards what was before
    have hrun : (callFunction n f target (s₁.wrapAll (args.zip c.params)).1).outcome
        ((s₁.wrapAll (args.zip c.params)).2.withInUse
          (.function f :: (s₁.wrapAll (args.zip c.params)).1.flatMap Script.held ++ s₁.inUse)) =
        s₁.callBy c n f target args := rfl
    rcases hcall : s₁.callBy c n f target args with ⟨stop | result, s₂⟩ <;> rw [hcall] at hrun
    · rw [Eval.outcome_bind_of_error hrun]
      exact .stopped hf hcall
    · rw [Eval.outcome_bind_of_ok hrun]
      cases hvoid : c.returnType.isVoid with
      | true => exact .void hf hcall hvoid
      | false =>
        rcases hconvert : (convert c.returnType result).outcome (s₂.withInUse (result.held ++ s₂.inUse)) with ⟨native, s₃⟩
        rw [if_neg Bool.false_ne_true, Eval.outcome_holding, hconvert]
        have hanswer := AnsweredBy.converted hf hcall hvoid hconvert
        exact hanswer

/-! ## Overloads -/

/-- For a candidate there is a first one that takes as many arguments. -/
theorem OverloadSet.exists_first {set : OverloadSet} {c : Callable} (hc : c ∈ set.candidates) :
    ∃ first ∈ set.candidates, set.candidates.find? (·.arity == c.arity) = some first ∧ first.arity = c.arity := by
  have hsome : (set.candidates.find? (·.arity == c.arity)).isSome = true := by
    rw [List.find?_isSome]
    exact ⟨c, hc, beq_self_eq_true _⟩
  obtain ⟨first, hfirst⟩ := Option.isSome_iff_exists.mp hsome
  have hmem := List.mem_of_find?_eq_some hfirst
  have harity := List.find?_some hfirst
  exact ⟨first, hmem, hfirst, beq_iff_eq.mp harity⟩

/-- **Calls of abstract methods on an adapter are answered by the first signature of their arity.** Whichever overload
of a name is called on an adapter, the script function gets the arguments, and its result is converted, by the signature
of the first overload that takes as many arguments. That is the signature of the called one if all overloads of its
arity have the same. -/
theorem run_answeredByFirst (hr : s.native r = .adapter target interface m key) {o : Overloads}
    (ho : m.overloads? name false = some o) {c : Callable} (hc : c ∈ o.set.candidates)
    (hvirtual : c.invoker = .virtual name) {args : List Native} (hargs : args.length = c.arity) (n : Nat) :
    (∃ first ∈ o.set.candidates, o.set.candidates.find? (·.arity == c.arity) = some first ∧
      AnsweredBy n s target name first args ((c.invoker.run (send (n + 1)) (some (.object r)) args).outcome s)) ∧
    ((∀ other ∈ o.set.candidates, other.arity = c.arity →
        other.params = c.params ∧ other.returnType = c.returnType) →
      AnsweredBy n s target name c args ((c.invoker.run (send (n + 1)) (some (.object r)) args).outcome s)) := by
  obtain ⟨first, hmem, hfirst, harity⟩ := OverloadSet.exists_first hc
  have hrun : c.invoker.run (send (n + 1)) (some (.object r)) args = send (n + 1) r name args := by
    rw [hvirtual, Invoker.run]
  have hanswered : AnsweredBy n s target name first args ((send (n + 1) r name args).outcome s) := by
    rw [← hargs] at hfirst
    exact send_answeredBy hr ho hfirst n
  rw [hrun]
  refine ⟨⟨first, hmem, hfirst, hanswered⟩, fun hsame => ?_⟩
  obtain ⟨hparams, hreturn⟩ := hsame first hmem harity
  exact hanswered.of_signature hparams.symm hreturn.symm

/-! ## A converter of numbers and of texts -/

def converterSpec : TypeSpec where
  name := "demo.Conv"
  kind := .ofInterface
  methods := [{ name := "conv", params := [.numeric .int], returnType := .numeric .int, flags := { isAbstract := true } },
    { name := "conv", params := [.string], returnType := .string, flags := { isAbstract := true } }]

/-- A function that returns its argument has been passed as a converter. -/
def Store.converting : Store :=
  let declared := (Store.standard {} false).declare converterSpec
  let named := (declared.addFunction (.closure "echo" (.argument 0))).2
  ((convert (.interface "demo.Conv" false) (.callable ⟨0⟩)).outcome named).2

/-- Whether two overloads are those for a number and for a text, the latter without code of its own. -/
def Callable.areConverters (first second : Callable) : Bool :=
  first.signature == "conv(int)" && second.signature == "conv(host.String)" && first.arity == 1 && second.arity == 1 &&
    match second.invoker with
    | .virtual name => name == "conv"
    | _ => false

/-- Whether an object is an adapter that has them. -/
def NativeObject.adaptsConverters : NativeObject → Bool
  | adapter _ _ m _ =>
    match m.overloads? "conv" false with
    | some ⟨⟨_, [first, second]⟩, _⟩ => first.areConverters second
    | _ => false
  | _ => false

/-- The receiver of the example is an adapter whose two methods named `conv` differ in the type of their one parameter
alone. -/
theorem Store.exists_converters : ∃ target interface m key o first second,
    converting.native ⟨0⟩ = .adapter target interface m key ∧ m.overloads? "conv" false = some o ∧
      o.set.candidates = [first, second] ∧ first.areConverters second = true := by
  have hcheck : (converting.native ⟨0⟩).adaptsConverters = true := by decide +kernel
  unfold NativeObject.adaptsConverters at hcheck
  split at hcheck
  · next target interface m key hr =>
    split at hcheck
    · next first second _ ho => exact ⟨target, interface, m, key, _, first, second, hr, ho, rfl, hcheck⟩
    · cases hcheck
  · cases hcheck

/-- A text reaches the function under the signature for numbers, and the text that it returns is refused as a number. -/
theorem run_answeredByFirst_converting :
    ∃ target first second, first.areConverters second = true ∧
      AnsweredBy 5 .converting target "conv" first [.string "seven"]
        ((second.invoker.run (send 6) (some (.object ⟨0⟩)) [.string "seven"]).outcome .converting) ∧
      ((second.invoker.run (send 6) (some (.object ⟨0⟩)) [.string "seven"]).outcome .converting).1 =
        .error (.failed (.conversion "\"seven\"" "int")) := by
  obtain ⟨target, interface, m, key, o, first, second, hr, ho, hcandidates, hconverters⟩ := Store.exists_converters
  refine ⟨target, first, second, hconverters, ?_⟩
  simp only [Callable.areConverters, Bool.and_eq_true, beq_iff_eq] at hconverters
  obtain ⟨⟨⟨-, hfirst⟩, hsecond⟩, hinvoker⟩ := hconverters
  have hvirtual : second.invoker = .virtual "conv" := by
    split at hinvoker
    · next name hname => rw [hname, beq_iff_eq.mp hinvoker]
    · cases hinvoker
  have hmem : second ∈ o.set.candidates := by
    rw [hcandidates]
    exact List.mem_cons_of_mem _ (List.mem_singleton_self second)
  have hone : ([.string "seven"] : List Native).length = second.arity := hsecond.symm
  obtain ⟨⟨found, -, hfound, hanswered⟩, -⟩ := run_answeredByFirst hr ho hmem hvirtual hone 5
  -- the first candidate with one parameter is not the one that was invoked
  have hsame : first = found := by
    rw [hcandidates, hsecond, List.find?_cons, hfirst] at hfound
    exact Option.some.inj hfound
  refine ⟨hsame ▸ hanswered, ?_⟩
  rw [hvirtual]
  -- so the text goes through the parameter of that one, and its result is refused as a number
  have hstop : (match ((Invoker.run (send 6) (.virtual "conv") (some (.object ⟨0⟩)) [.string "seven"]).outcome
      .converting).1 with
      | .error stop => stop == .failed (.conversion "\"seven\"" "int")
      | .ok _ => false) = true := by decide +kernel
  split at hstop
  · next stop hrun => rw [hrun, beq_iff_eq.mp hstop]
  · cases hstop

end Interop
