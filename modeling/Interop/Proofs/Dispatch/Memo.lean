import Interop.Proofs.Dispatch.Resolution

/-!
# Remembered winners

With its memo an overload set answers some calls from memory. An answer from memory is right when it is the one that
choosing from scratch gives for the arguments at hand. The memo knows the arguments by their classes only, so what has
to be asked is whether the classes of arguments decide who is chosen.

* **`Overloads.Honest`**: every remembered winner is one that arguments of these classes were resolved to. Every call
  keeps this (`Overloads.Honest.call`).
* **`Overloads.ClassesDecide`**: what the classes of arguments are resolved to does not depend on the arguments.
* **`Overloads.transparent_iff`**: that is exactly what the memo needs.
-/

namespace Interop

/-! ## Single calls -/

/-- Choosing again in a later store gives the same answer. -/
theorem chooseBest_repeatable (set : OverloadSet) (args : List Script) : (chooseBest set args).Repeatable := by
  rw [chooseBest]
  exact (applicable_repeatable args 0 set.candidates).bind fun _ => .get_bind (fun _ _ _ => rfl) fun _ => .pure _

/-- The classes of arguments are fixed for as long as the store only settles. -/
theorem Store.Later.argumentClasses {s s' : Store} (h : s.Later s') (args : List Script) :
    args.map s'.argumentClass? = args.map s.argumentClass? := by
  obtain ⟨r, m, rfl⟩ := h.exists_eq
  rfl

/-- A memo that was written is the one that is read. -/
theorem Store.memo_setMemo (s : Store) (o : Overloads) (m : Memo) : (s.setMemo o m).memo o = m := by
  simp [setMemo, memo]

theorem Store.later_setMemo (s : Store) (o : Overloads) (m : Memo) : s.Later (s.setMemo o m) := .memos _

/-- What a memo knows after a record was known before, or is the record. -/
theorem Memo.mem_entries_record {m : Memo} {classes classes' : ArgumentClasses} {winner i : Nat}
    (h : (classes', i) ∈ (m.record classes winner).2.entries) :
    (classes', i) ∈ m.entries ∨ (classes' = classes ∧ i = winner) := by
  unfold record at h
  split at h
  · exact .inl h
  · simpa using h

section Calls

variable {o : Overloads} {args : List Script} {s : Store}

/-- With a single candidate there is nothing to remember. -/
theorem chooseOverload_of_single {only : Callable} (h : o.set.candidates = [only]) :
    chooseOverload o args = chooseBest o.set args := by
  refine Eval.ext fun s => ?_
  unfold chooseOverload chooseBest
  rw [h]
  dsimp only
  rw [applicable, Eval.outcome_bind, Eval.outcome_bind, Eval.outcome_bind]
  rcases hrun : (rankCandidate 0 only args).outcome s with ⟨stop | candidate | w, s'⟩
  · rfl
  · rfl
  · -- the one candidate that ranks stands at the first place
    have hindex : w.index = 0 := (rankedBy_of_rankCandidate hrun (.refl s')).1
    show (Except.ok (Resolution.resolved 0), s') = (Except.ok (Resolution.resolved w.index), s')
    rw [hindex]

theorem chooseOverload_of_off (hoff : s.config.overloadMemo = false) :
    ((chooseOverload o args).outcome s) = (chooseBest o.set args).outcome s := by
  by_cases hone : ∃ only, o.set.candidates = [only]
  · obtain ⟨only, hone⟩ := hone
    rw [chooseOverload_of_single hone]
  unfold chooseOverload
  split
  · exact absurd ⟨_, ‹_›⟩ hone
  · rw [Eval.outcome_get_bind, hoff]
    rfl

variable (hon : s.config.overloadMemo = true) (hmany : o.set.candidates.length ≠ 1)
include hon hmany

/-- A remembered winner is taken, and nothing is done. -/
theorem chooseOverload_of_lookup {i : Nat} (h : (s.memo o).lookup (args.map s.argumentClass?) = some i) :
    (chooseOverload o args).outcome s = (.ok (.resolved i), s) := by
  unfold chooseOverload
  split
  case h_1 only heq => simp [heq] at hmany
  case h_2 =>
    rw [Eval.outcome_get_bind, if_pos hon]
    dsimp only
    rw [h]
    rfl

/-- Without one the choice is made from scratch, and a winner is remembered. -/
theorem chooseOverload_of_fresh (h : (s.memo o).lookup (args.map s.argumentClass?) = none) :
    (chooseOverload o args).outcome s =
      match (chooseBest o.set args).outcome s with
      | (.ok (.resolved i), s') =>
        (.ok (.resolved i), s'.setMemo o ((s'.memo o).record (args.map s.argumentClass?) i).2)
      | other => other := by
  unfold chooseOverload
  split
  case h_1 only heq => simp [heq] at hmany
  case h_2 =>
    rw [Eval.outcome_get_bind, if_pos hon]
    dsimp only
    rw [h]
    dsimp only
    rw [Eval.outcome_bind]
    rcases (chooseBest o.set args).outcome s with ⟨stop | i | indices | _, s'⟩ <;> rfl

end Calls

/-! ## Runs -/

namespace Overloads

/-- Every call of a run gives what choosing from scratch gives at that time. -/
def Transparent (o : Overloads) : Store → List (List Script) → Prop
  | _, [] => True
  | s, args :: calls =>
    ((chooseOverload o args).outcome s).1 = ((chooseBest o.set args).outcome s).1 ∧
      o.Transparent ((chooseOverload o args).outcome s).2 calls

/-- Every remembered winner is what some arguments of these classes are resolved to. -/
def Honest (o : Overloads) (s : Store) : Prop :=
  ∀ classes i, (classes, i) ∈ (s.memo o).entries →
    ∃ args, args.map s.argumentClass? = classes ∧ (chooseBest o.set args).outcome s = (.ok (.resolved i), s)

/-- Whatever else is settled: when arguments are resolved, all arguments of the same classes are resolved alike. -/
def ClassesDecide (o : Overloads) (s : Store) : Prop :=
  ∀ s', s.Later s' → ∀ args args' i, args.map s'.argumentClass? = args'.map s'.argumentClass? →
    (chooseBest o.set args).outcome s' = (.ok (.resolved i), s') →
      ((chooseBest o.set args').outcome s').1 = .ok (.resolved i)

variable {o : Overloads} {s s' : Store}

theorem honest_of_empty (h : (s.memo o).entries = []) : o.Honest s := by
  intro classes i hmem
  simp [h] at hmem

/-- A memo that stays as it is stays honest, for its answers are those of any later store. -/
theorem Honest.later (h : o.Honest s) (hlater : s.Later s') (hmemo : s'.memo o = s.memo o) : o.Honest s' := by
  intro classes i hmem
  rw [hmemo] at hmem
  obtain ⟨args, hclasses, hchoice⟩ := h classes i hmem
  exact ⟨args, (hlater.argumentClasses args).trans hclasses, (chooseBest_repeatable o.set args).again hchoice hlater⟩

/-- **One call keeps the memo honest**, whether it is answered from memory or not. -/
theorem Honest.call (hon : s.config.overloadMemo = true) (hmany : o.set.candidates.length ≠ 1) (h : o.Honest s)
    (args : List Script) :
    s.Later ((chooseOverload o args).outcome s).2 ∧ o.Honest ((chooseOverload o args).outcome s).2 := by
  cases hlookup : (s.memo o).lookup (args.map s.argumentClass?) with
  | some i =>
    rw [chooseOverload_of_lookup hon hmany hlookup]
    exact ⟨.refl s, h⟩
  | none =>
    rw [chooseOverload_of_fresh hon hmany hlookup]
    rcases hrun : (chooseBest o.set args).outcome s with ⟨result, s'⟩
    have hsettles : s.Settles s' := (chooseBest_repeatable o.set args).settles hrun
    -- what was honest before the choice still is, since the choice only settles the store
    have hkept : o.Honest s' := h.later hsettles.later (hsettles.memo_eq o)
    rcases result with stop | i | indices | _
    · exact ⟨hsettles.later, hkept⟩
    · -- the new entry is for the arguments of this very call
      have hmemo := s'.later_setMemo o ((s'.memo o).record (args.map s.argumentClass?) i).2
      have hlater := hsettles.later.trans hmemo
      refine ⟨hlater, fun classes j hmem => ?_⟩
      dsimp only at hmem
      rw [Store.memo_setMemo] at hmem
      rcases Memo.mem_entries_record hmem with hold | ⟨rfl, rfl⟩
      · obtain ⟨args', hclasses, hchoice⟩ := hkept classes j hold
        exact ⟨args', (hmemo.argumentClasses args').trans hclasses,
          (chooseBest_repeatable o.set args').again hchoice hmemo⟩
      · exact ⟨args, hlater.argumentClasses args, (chooseBest_repeatable o.set args).again hrun hmemo⟩
    · exact ⟨hsettles.later, hkept⟩
    · exact ⟨hsettles.later, hkept⟩

/-- It is enough that single choices agree in every later store. -/
theorem transparent_of_eq (h : ∀ s', s.Later s' → ∀ args,
      (chooseOverload o args).outcome s' = (chooseBest o.set args).outcome s') :
    ∀ {s' : Store}, s.Later s' → ∀ calls, o.Transparent s' calls
  | _, _, [] => trivial
  | s', hlater, args :: calls => by
    have hcall := h s' hlater args
    have hsettles : s'.Settles ((chooseBest o.set args).outcome s').2 := (chooseBest_repeatable o.set args).settles rfl
    refine ⟨by rw [hcall], transparent_of_eq h (hlater.trans ?_) calls⟩
    rw [hcall]
    exact hsettles.later

/-- From an honest memo on every run is transparent where classes decide. -/
theorem Honest.transparent (hdecide : o.ClassesDecide s) (hmany : o.set.candidates.length ≠ 1)
    (hon : s.config.overloadMemo = true) :
    ∀ {s' : Store}, s.Later s' → o.Honest s' → ∀ calls, o.Transparent s' calls
  | _, _, _, [] => trivial
  | s', hlater, h, args :: calls => by
    have hon' : s'.config.overloadMemo = true := hlater.config_eq ▸ hon
    obtain ⟨hstep, hhonest⟩ := h.call hon' hmany args
    refine ⟨?_, Honest.transparent hdecide hmany hon (hlater.trans hstep) hhonest calls⟩
    cases hlookup : (s'.memo o).lookup (args.map s'.argumentClass?) with
    | some i =>
      obtain ⟨args', hclasses, hchoice⟩ := h _ i (mem_of_lookup hlookup)
      rw [chooseOverload_of_lookup hon' hmany hlookup]
      exact (hdecide s' hlater args' args i hclasses hchoice).symm
    | none =>
      rw [chooseOverload_of_fresh hon' hmany hlookup]
      rcases (chooseBest o.set args).outcome s' with ⟨stop | i | indices | _, s₁⟩ <;> rfl

theorem exists_of_resolved {args : List Script} {i : Nat}
    (h : (chooseBest o.set args).outcome s = (.ok (.resolved i), s')) : 0 < o.set.candidates.length := by
  rw [List.length_pos_iff]
  intro hnil
  rw [chooseBest, hnil] at h
  cases h

/-- Two calls in a row show what classes do not decide. -/
theorem resolved_of_transparent (hon : s.config.overloadMemo = true) (hmany : o.set.candidates.length ≠ 1)
    (hmemo : s.memo o = .ofCandidates o.set.candidates.length) {args args' : List Script} {i : Nat}
    (hclasses : args.map s.argumentClass? = args'.map s.argumentClass?)
    (hchoice : (chooseBest o.set args).outcome s = (.ok (.resolved i), s))
    (h : o.Transparent s [args, args']) : ((chooseBest o.set args').outcome s).1 = .ok (.resolved i) := by
  have hpos : 0 < o.set.candidates.length := exists_of_resolved hchoice
  have hfresh : (s.memo o).lookup (args.map s.argumentClass?) = none := by rw [hmemo]; rfl
  have hfirst := chooseOverload_of_fresh hon hmany hfresh
  rw [hchoice] at hfirst
  -- the first winner is remembered, and found again for the second call
  obtain ⟨m, hm⟩ : ∃ m, m = ((s.memo o).record (args.map s.argumentClass?) i).2 := ⟨_, rfl⟩
  have hentries : m.entries = [(args.map s.argumentClass?, i)] := by
    rw [hm, hmemo, Memo.ofCandidates, Memo.record, if_neg]
    · rfl
    · rintro (hfull | hknown)
      · have hcapacity : 2 * o.set.candidates.length ≤ 0 := hfull
        omega
      · cases hknown
  have hlookup : ((s.setMemo o m).memo o).lookup (args'.map s.argumentClass?) = some i := by
    rw [Store.memo_setMemo, Memo.lookup, hentries, ← hclasses]
    simp
  have hon' : (s.setMemo o m).config.overloadMemo = true := hon
  have hhit : (chooseOverload o args').outcome (s.setMemo o m) = (.ok (.resolved i), s.setMemo o m) :=
    chooseOverload_of_lookup hon' hmany hlookup
  obtain ⟨-, hsecond, -⟩ := h
  rw [hfirst] at hsecond
  dsimp only at hsecond
  rw [← hm, hhit] at hsecond
  -- the choice from scratch pays no attention to the memo
  have hscratch : ((chooseBest o.set args').outcome (s.setMemo o m)).1 = ((chooseBest o.set args').outcome s).1 :=
    (chooseBest_repeatable o.set args').result_memos s _
  exact hscratch.symm.trans hsecond.symm

/--
**When the memo is right.** From an empty memo on, every call of every run gives what choosing from scratch gives,
exactly when the memo is off, when the set has a single candidate, or when classes decide.
-/
theorem transparent_iff (o : Overloads) (s : Store) :
    (∀ s', s.Later s' → (s'.memo o).entries = [] → ∀ calls, o.Transparent s' calls) ↔
      s.config.overloadMemo = false ∨ o.set.candidates.length = 1 ∨ o.ClassesDecide s := by
  constructor
  · intro h
    by_cases hoff : s.config.overloadMemo = false
    · exact .inl hoff
    by_cases hone : o.set.candidates.length = 1
    · exact .inr (.inl hone)
    refine .inr (.inr fun s' hlater args args' i hclasses hchoice => ?_)
    -- forget everything and make the two calls
    have hforgotten : s.Later { s' with memos := [] } := hlater.trans (.memos [])
    have hon : ({ s' with memos := [] } : Store).config.overloadMemo = true := by
      rw [hforgotten.config_eq]
      simpa using hoff
    have hrun := h _ hforgotten rfl [args, args']
    have hforgetful := (chooseBest_repeatable o.set args).memos [] hchoice
    have hresolved := resolved_of_transparent hon hone rfl hclasses hforgetful hrun
    rwa [(chooseBest_repeatable o.set args').result_memos] at hresolved
  · rintro h s' hlater hempty calls
    by_cases hone : o.set.candidates.length = 1
    · obtain ⟨only, honly⟩ := List.length_eq_one_iff.mp hone
      exact transparent_of_eq (fun s' _ args => by rw [chooseOverload_of_single honly]) hlater calls
    by_cases hoff : s.config.overloadMemo = false
    · exact transparent_of_eq (fun s' hs' args => chooseOverload_of_off (hs'.config_eq ▸ hoff)) hlater calls
    have hdecide : o.ClassesDecide s := by tauto
    exact Honest.transparent hdecide hone (by simpa using hoff) hlater (honest_of_empty hempty) calls

end Overloads

/-! ## Where classes do not decide

The class of an array is that of its component, the root type if that has no id, and here it goes wrong: an array without
a component type is no array of the root type. -/

/-- Two arrays of no elements, the first without a component type and the second of the root type, behind proxies. -/
def twoArrays : Store :=
  let proxy (i : Nat) (component : Descriptor) : ScriptObject := .proxy ⟨.ofArray, .object ⟨i⟩, component, none⟩
  { Store.standard {} false with
    natives := #[.array ⟨.unspecified, []⟩, .array ⟨.object, []⟩]
    objects := #[proxy 0 .unspecified, proxy 1 .object] }

/-- Two methods of one name, for arrays of the root type and for strings. -/
def arrayOrText : Overloads :=
  let taking (param : Descriptor) : Callable :=
    { name := "f", declaring := .ofName "demo.F", params := [param], returnType := .void,
      flags := { isPublic := true, isStatic := true }, invoker := .host "f" (.constant .void) }
  ⟨⟨"f", [taking (.array .object), taking .string]⟩, .standalone 0⟩

/-- The first array is no array of the root type and goes to the method for strings; the second one is, and follows it
there from memory. -/
theorem not_transparent_twoArrays :
    ¬ arrayOrText.Transparent twoArrays [[.object ⟨0⟩], [.object ⟨1⟩]] := by
  intro h
  have hclasses :
      [Script.object ⟨0⟩].map twoArrays.argumentClass? = [Script.object ⟨1⟩].map twoArrays.argumentClass? := by
    decide +kernel
  have hfirst : (chooseBest arrayOrText.set [.object ⟨0⟩]).outcome twoArrays = (.ok (.resolved 1), twoArrays) := by rfl
  have hsecond : ((chooseBest arrayOrText.set [.object ⟨1⟩]).outcome twoArrays).1 = .ok (.resolved 0) := by rfl
  have hmemory := Overloads.resolved_of_transparent rfl (by decide) rfl hclasses hfirst h
  rw [hsecond] at hmemory
  cases hmemory

end Interop
