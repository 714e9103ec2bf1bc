import Interop.Proofs.Coercion.Tracking
import Interop.Session

/-!
# Adapters are unique while they live

An embedder coerces script values to interfaces, keeps what it got in registers, makes new script values and empties
registers, in any order. Between two steps the adapters that are kept are those that live, so that a coercion gives the
one that lives, and a value gets a new one only when the last reference to the old one is gone. The entries come and go
one by one: a new adapter is published under its key, and a dropped one looks at its own key only.

* **`Session.Tidy`**: what holds between steps, and **`Session.Tidy.step`**: a step keeps it.
* **`Session.Runs`**: all runs of such steps, and **`Session.Runs.tidy`**: what holds along them.
* **`Session.adapters_unique`**: the adapters that are kept, those that live, and what coercions give.
-/

namespace Interop

/-- An adapter of the value and the interface of a key, which lives. -/
def Store.LiveAdapter (s : Store) (key : AdapterKey) (r : NativeRef) : Prop :=
  .native r ∈ s.survivors ∧ s.Adapts key r

namespace Session

variable {s s₀ : Session}

/-! ## Steps -/

/-- A step that runs a computation and keeps what it gives, where a register is named for it. -/
def step (s : Session) (x : Eval α) (slot : α → Slot) (into : Option String) : Except Stop α × Session :=
  let (result, after) := s.start.eval x
  let kept := match result, into with
    | .ok a, some name => after.keep name (slot a)
    | _, _ => after
  (result, kept.settle)

/-- A step that converts a script value. -/
def coerce (s : Session) (d : Descriptor) (v : Script) (into : Option String) : Except Stop Native × Session :=
  s.step (convert d v) .native into

/-- A step that empties a register. -/
def release (s : Session) (name : String) : Session := (s.start.drop name).2.settle

/-- What the registers hold. -/
def held (s : Session) : List Referent := s.registers.flatMap fun (_, slot) => slot.held

/-- Between steps, what is in use is what the registers hold, and the adapters that are kept live. -/
structure Tidy (s : Session) : Prop where
  inUse : s.store.inUse = s.held
  orderly : s.store.Orderly

/-- Forgetting the calls of the last step changes nothing that is tracked. -/
theorem Tidy.start (h : s.Tidy) : s.start.Tidy := by
  have hused : ∀ x ∈ s.store.inUse, x ∈ s.store.referents → s.store.Lives x := fun x hx hmade =>
    Store.lives_of_root hmade (Store.mem_roots.mpr (.inl hx))
  refine ⟨h.inUse, h.orderly.withInUse hused [], fun r hr => ?_⟩
  exact (Store.lives_frame s.store.adapters s.store.referred []).mpr (h.orderly.live r hr)

/-- Between two steps what the script holds is all that is in use, and adapters that nothing reaches are dropped. -/
theorem store_settle (s : Session) : s.settle.store = (s.store.withInUse s.held).releaseAdapters := rfl

/-- To settle changes what is in use, the adapters that are kept and those that are referred to, and nothing else. -/
theorem settle_frame (s : Session) : ∃ adapters referred, s.settle.store =
    { s.store.withInUse s.held with adapters := adapters, referred := referred } := by
  obtain ⟨adapters, referred, heq, -⟩ := (s.store.withInUse s.held).releaseAdapters_frame
  exact ⟨adapters, referred, heq⟩

theorem native_settle (s : Session) (r : NativeRef) : s.settle.store.native r = s.store.native r := by
  obtain ⟨adapters, referred, heq⟩ := s.settle_frame
  rw [heq]
  rfl

/-- After a step, what is in use is what the registers hold. -/
theorem inUse_settle (s : Session) : s.settle.store.inUse = s.held := by
  obtain ⟨adapters, referred, heq⟩ := s.settle_frame
  rw [heq]
  rfl

theorem config_settle (s : Session) : s.settle.store.config = s.store.config := by
  obtain ⟨adapters, referred, heq⟩ := s.settle_frame
  rw [heq]
  rfl

/-- Dropping adapters touches neither types nor members. -/
theorem sameBridge_settle (s : Session) : s.store.SameBridge s.settle.start.store := by
  obtain ⟨adapters, referred, heq⟩ := s.settle_frame
  rw [start, heq]
  exact ⟨rfl, rfl, rfl⟩

/-- Whatever was in use during a step, the registers hold some of it afterwards. -/
theorem tidy_settle {store : Store} {held : List Referent} (h : store.Continues held s.store)
    (hheld : ∀ x ∈ s.held, x ∈ held ∨ x ∈ store.inUse) :
    s.settle.Tidy ∧ s.settle.store.config = store.config := by
  have hused : ∀ x ∈ s.held, x ∈ (s.store.withInUse (held ++ store.inUse)).referents →
      (s.store.withInUse (held ++ store.inUse)).Lives x := fun x hx hmade =>
    Store.lives_of_root hmade (Store.mem_roots.mpr (.inl (List.mem_append.mpr (hheld x hx))))
  have haccounted : (s.store.withInUse s.held).Accounted := h.accounted.withInUse hused s.store.calls
  exact ⟨⟨s.inUse_settle, haccounted.releaseAdapters⟩, s.config_settle.trans h.config⟩

theorem held_drop (s : Session) (name : String) : ∀ x ∈ (s.drop name).2.held, x ∈ s.held := by
  intro x hx
  obtain ⟨register, hregister, hx⟩ := List.mem_flatMap.mp hx
  exact List.mem_flatMap.mpr ⟨register, (List.mem_filter.mp hregister).1, hx⟩

/-- A name holds what it is set to, besides what the other names hold. -/
theorem held_keep (s : Session) (name : String) (slot : Slot) :
    ∀ x ∈ (s.keep name slot).held, x ∈ slot.held ∨ x ∈ s.held := by
  intro x hx
  have hsplit : x ∈ slot.held ++ (s.drop name).2.held := hx
  exact (List.mem_append.mp hsplit).imp_right (s.held_drop name x)

section Running

variable {x : Eval α} {slot : α → Slot} {into : Option String} {store : Store}

/-- A step that ends with a result leaves it, and the store that the computation left. -/
theorem eval_start {result : Except Stop α} (h : x.outcome s.start.store = (result, store)) :
    s.start.eval x = (result, { s with store := store }) := by
  show (match x.outcome s.start.store with
    | (result, store) => (result, ({ s.start with store := store } : Session))) = _
  rw [h]
  rfl

/-- A step that fails puts nothing under a name, and the session settles. -/
theorem step_of_error {stop : Stop} (h : x.outcome s.start.store = (.error stop, store)) :
    s.step x slot into = (.error stop, ({ s with store := store } : Session).settle) := by
  rw [step, eval_start h]

/-- A step that succeeds puts its value under the name that it is given, if it is given one. -/
theorem step_of_ok {a : α} (h : x.outcome s.start.store = (.ok a, store)) :
    s.step x slot into = (.ok a, (into.elim { s with store := store } fun name =>
      ({ s with store := store } : Session).keep name (slot a)).settle) := by
  rw [step, eval_start h]
  cases into <;> rfl

/-- After a step, types and members are what its computation left. -/
theorem sameBridge_step {result : Except Stop α} (h : x.outcome s.start.store = (result, store)) :
    store.SameBridge (s.step x slot into).2.start.store := by
  cases result with
  | error stop =>
    rw [step_of_error h]
    exact sameBridge_settle { s with store := store }
  | ok a =>
    rw [step_of_ok h]
    cases into with
    | none => exact sameBridge_settle { s with store := store }
    | some name => exact sameBridge_settle (({ s with store := store } : Session).keep name (slot a))

/-- **A step keeps a session tidy** if its computation keeps track of adapters. -/
theorem Tidy.step (h : s.Tidy) (hx : s.start.store.Continued (fun a => (slot a).held) (x.outcome s.start.store))
    (into : Option String) :
    (s.step x slot into).2.Tidy ∧ (s.step x slot into).2.store.config = s.store.config := by
  have hheld : s.start.store.inUse = s.held := h.inUse
  show _ ∧ _ = s.start.store.config
  rcases hrun : x.outcome s.start.store with ⟨stop | a, store⟩ <;> rw [hrun] at hx
  · rw [step_of_error hrun]
    have hcontinues : s.start.store.Continues [] store := hx
    exact tidy_settle hcontinues fun y hy => .inr (hheld ▸ hy)
  · rw [step_of_ok hrun]
    have hcontinues : s.start.store.Continues (slot a).held store := hx
    -- the result stays in use only where a register takes it
    cases into with
    | none => exact tidy_settle hcontinues fun y hy => .inr (hheld ▸ hy)
    | some name =>
      refine tidy_settle hcontinues fun y hy => ?_
      rw [hheld]
      exact held_keep _ name (slot a) y hy

end Running

theorem Tidy.release (h : s.Tidy) (name : String) :
    (s.release name).Tidy ∧ (s.release name).store.config = s.store.config := by
  have hheld : s.start.store.inUse = s.held := h.inUse
  have hcontinues : s.start.store.Continues [] s.start.store := h.start.orderly.continues (List.forall_mem_nil _)
  show _ ∧ _ = s.start.store.config
  refine tidy_settle (s := (s.start.drop name).2) hcontinues fun y hy => .inr ?_
  rw [hheld]
  exact s.start.held_drop name y hy

/-! ## Runs -/

/-- A session in which nothing has been adapted. -/
structure Fresh (s : Session) : Prop where
  inUse : s.store.inUse = s.held
  adapters : s.store.adapters = []
  referred : s.store.referred = []
  natives : ∀ o ∈ s.store.natives, o.adapted? = none

/-- What coercions to interfaces, and emptied registers, lead to. The embedder also makes script values and keeps what it
can get at in further registers. Whatever it passes lives. -/
inductive Runs (s₀ : Session) : Session → Prop where
  | refl : Runs s₀ s₀
  | coerce {s : Session} (h : Runs s₀ s) {d interface : Descriptor} {v : Script}
    (htarget : s.store.types.targetOf d = .ok (.interface interface)) (hv : v.held ⊆ s.store.survivors)
    (into : Option String) : Runs s₀ (s.coerce d v into).2
  | release {s : Session} (h : Runs s₀ s) (name : String) : Runs s₀ (s.release name)
  | share {s : Session} (h : Runs s₀ s) {slot : Slot} (hslot : slot.held ⊆ s.store.survivors) (name : String) :
    Runs s₀ (s.step (pure slot) id (some name)).2
  | object {s : Session} (h : Runs s₀ s) {o : ScriptObject} (ho : o.held ⊆ s.store.survivors) (into : Option String) :
    Runs s₀ (s.step (Eval.newObject o) .script into).2
  | function {s : Session} (h : Runs s₀ s) {f : ScriptFunction} (hf : f.held ⊆ s.store.survivors)
    (into : Option String) : Runs s₀ (s.step (Eval.newFunction f) .script into).2

/-- A fresh session has made no adapter and is tidy. -/
theorem Fresh.tidy (h : s.Fresh) : s.Tidy := by
  have hnil : ∀ {P : AdapterKey × NativeRef → Prop}, ∀ kept ∈ s.store.adapters, P kept := by
    rw [h.adapters]
    exact List.forall_mem_nil _
  have hnone : ∀ r ∈ s.store.referred, s.store.Lives (.native r) := by
    rw [h.referred]
    exact List.forall_mem_nil _
  refine ⟨h.inUse, ⟨fun _ => ⟨hnil, hnil, ?_, fun r hr _ => ?_⟩, fun _ => h.adapters⟩, hnone⟩
  · rw [h.adapters]
    exact List.nodup_nil
  · have hlt : r.index < s.store.natives.size := Store.mem_referents.mp (Store.mem_referents_of_adapted? hr)
    have hmem : s.store.native r ∈ s.store.natives := by
      rw [Store.native, Array.getD_eq_getD_getElem?, Array.getElem?_eq_getElem hlt]
      exact Array.getElem_mem hlt
    rw [h.natives _ hmem] at hr
    cases hr

/-- What lives still lives when a step starts. -/
theorem lives_start {x : Referent} (h : x ∈ s.store.survivors) : s.start.store.Lives x :=
  (Store.lives_frame s.store.adapters s.store.referred []).mpr (Store.mem_survivors_iff.mp h)

/-- **Every run leaves a tidy session.** -/
theorem Runs.tidy (h₀ : s₀.Fresh) (h : s₀.Runs s) : s.Tidy ∧ s.store.config = s₀.store.config := by
  -- on the run: each step starts from an orderly store and settles what it leaves
  induction h with
  | refl => exact ⟨h₀.tidy, rfl⟩
  | @coerce s _ d interface v htarget hv into ih =>
    obtain ⟨htidy, hconfig⟩ := ih
    have hstarted : s.start.store.types.targetOf d = .ok (.interface interface) := htarget
    have hcoerces := convert_coerces hstarted v
    have hcontinued := htidy.start.orderly.coerced (fun x hx => lives_start (hv hx)) hcoerces
    exact (htidy.step hcontinued into).imp_right (·.trans hconfig)
  | release _ name ih =>
    obtain ⟨htidy, hconfig⟩ := ih
    exact (htidy.release name).imp_right (·.trans hconfig)
  | @share s _ slot hslot name ih =>
    obtain ⟨htidy, hconfig⟩ := ih
    have hcontinued : s.start.store.Continued (fun a => (id a).held) ((pure slot : Eval Slot).outcome s.start.store) :=
      htidy.start.orderly.continues fun x hx _ => lives_start (hslot hx)
    exact (htidy.step hcontinued (some name)).imp_right (·.trans hconfig)
  | object _ ho into ih =>
    obtain ⟨htidy, hconfig⟩ := ih
    have hcontinued := htidy.start.orderly.newObject fun x hx => lives_start (ho hx)
    exact (htidy.step hcontinued into).imp_right (·.trans hconfig)
  | function _ hf into ih =>
    obtain ⟨htidy, hconfig⟩ := ih
    have hcontinued := htidy.start.orderly.newFunction fun x hx => lives_start (hf hx)
    exact (htidy.step hcontinued into).imp_right (·.trans hconfig)

/-! ## Adapters -/

/-- A script function or object, and no proxy, that has a rank for a type. -/
def Adaptable (s : Session) (v : Script) (d : Descriptor) : Prop :=
  ∃ identity rank, v.identity? = some identity ∧ s.store.unwrap? v = none ∧
    (s.start.eval (rankOf v d)).1 = .ok rank ∧ rank.isNone = false

section Between

variable (h : s.Tidy)
include h

/-- Between steps, an adapter is kept exactly when it lives. -/
theorem Tidy.mem_adapters_iff (hon : s.store.config.adapterCache = true) {key : AdapterKey} {r : NativeRef} :
    (key, r) ∈ s.store.adapters ↔ s.store.LiveAdapter key r := by
  have htracked := h.orderly.tracked hon
  constructor
  · intro hkept
    exact ⟨Store.mem_survivors_iff.mpr (h.orderly.lives_kept hkept), (htracked.named _ hkept).adapts⟩
  · rintro ⟨hlives, hadapts⟩
    -- what lives is kept under some key, and an adapter has one key
    obtain ⟨key', hkept⟩ := htracked.complete r hadapts.isSome_adapted? (Store.mem_survivors_iff.mp hlives)
    have hsame : key = key' := hadapts.key_unique (htracked.named _ hkept).adapts
    rw [hsame]
    exact hkept

/-- In a tidy session two live adapters are one exactly where their keys are. -/
theorem Tidy.eq_iff_key_eq (hon : s.store.config.adapterCache = true) {key key' : AdapterKey}
    {r r' : NativeRef} (hr : s.store.LiveAdapter key r) (hr' : s.store.LiveAdapter key' r') : r = r' ↔ key = key' := by
  have htracked := h.orderly.tracked hon
  constructor
  · rintro rfl
    exact hr.2.key_unique hr'.2
  · rintro rfl
    have hfound := htracked.lookup ((h.mem_adapters_iff hon).mpr hr)
    have hfound' := htracked.lookup ((h.mem_adapters_iff hon).mpr hr')
    exact Option.some.inj (hfound.symm.trans hfound')

/-- A coercion of a value that has a live adapter gives it. -/
theorem Tidy.coerce_live (hon : s.store.config.adapterCache = true) {d interface : Descriptor} {v : Script}
    {key : AdapterKey} {r : NativeRef} (htarget : s.store.types.targetOf d = .ok (.interface interface))
    (hidentity : v.identity? = some key.1) (hid : interface.typeId? = some key.2) (hr : s.store.LiveAdapter key r)
    (into : Option String) : (s.coerce d v into).1 = .ok (.object r) := by
  have hkept : (key, r) ∈ s.start.store.adapters := (h.mem_adapters_iff hon).mpr hr
  have hstarted : s.start.store.types.targetOf d = .ok (.interface interface) := htarget
  have hrun := h.start.orderly.convert_of_kept hstarted hon hkept hidentity hid
  rw [coerce, step_of_ok hrun]

/-- A coercion that fails leaves the adapters as they are. -/
theorem Tidy.coerce_failed {d interface : Descriptor} {v : Script} {stop : Stop} {into : Option String}
    (htarget : s.store.types.targetOf d = .ok (.interface interface)) (hfailed : (s.coerce d v into).1 = .error stop) :
    (s.coerce d v into).2.store.adapters = s.store.adapters := by
  have hstarted : s.start.store.types.targetOf d = .ok (.interface interface) := htarget
  have hcoerces := convert_coerces hstarted v
  rcases hrun : (convert d v).outcome s.start.store with ⟨stop | n, store⟩
  · rw [hrun] at hcoerces
    have hbrowses := h.start.orderly.browses_of_failed hcoerces
    have horderly : store.Orderly := h.start.orderly.browses hbrowses
    -- what is in use is what the registers hold all along, so that nothing is let go
    have hsame : store.withInUse s.held = store := by
      rw [← h.inUse]
      obtain ⟨objects, cache, rfl⟩ := hbrowses.exists_eq
      rfl
    rw [coerce, step_of_error hrun, store_settle]
    show (store.withInUse s.held).releaseAdapters.adapters = _
    rw [hsame, horderly.releaseAdapters_eq]
    obtain ⟨objects, cache, rfl⟩ := hbrowses.exists_eq
    rfl
  · rw [coerce, step_of_ok hrun] at hfailed
    cases hfailed

/-- A coercion of a value that can be adapted gives an adapter of it, which lives on where a register takes it. -/
theorem Tidy.coerce_adaptable {d interface : Descriptor} {v : Script}
    (htarget : s.store.types.targetOf d = .ok (.interface interface)) (hv : s.Adaptable v d) (into : Option String) :
    ∃ key r, v.identity? = some key.1 ∧ interface.typeId? = some key.2 ∧ (s.coerce d v into).1 = .ok (.object r) ∧
      (s.coerce d v into).2.store.Adapts key r ∧
      (into.isSome = true → (s.coerce d v into).2.store.LiveAdapter key r) ∧
      ((s.store.config.adapterCache = true ∧ s.store.LiveAdapter key r) ∨ .native r ∉ s.store.referents) := by
  obtain ⟨identity, rank, hidentity, hunwrap, hrank, hsome⟩ := hv
  have hstarted : s.start.store.types.targetOf d = .ok (.interface interface) := htarget
  have hd : ∀ members, d = .union members → False := by
    rintro members rfl
    cases htarget
  have hsucceeds : ((rankOf v d).outcome s.start.store).1.toOption = some rank := congrArg Except.toOption hrank
  -- a rank exists, so the coercion goes the way of adapters and succeeds
  obtain ⟨target, hranked, hrun⟩ := exists_target_of_rankOf hd (Eval.outcome_of_toOption hsucceeds)
  obtain rfl : Target.interface interface = target := Except.ok.inj (hstarted.symm.trans hranked)
  obtain ⟨id, r, store, hid, hconvert, hadapts, hr⟩ :=
    h.start.orderly.convert_of_ranked hstarted hidentity hunwrap hrun hsome
  have hafter : (s.coerce d v into).2.store.Adapts (identity, id) r := by
    rw [coerce, step_of_ok hconvert]
    unfold Store.Adapts
    rw [native_settle]
    cases into <;> exact hadapts
  refine ⟨(identity, id), r, hidentity, hid, ?_, hafter, fun hsome => ⟨?_, hafter⟩, ?_⟩
  · rw [coerce, step_of_ok hconvert]
  · -- the register holds the adapter, which makes it a root
    obtain ⟨name, rfl⟩ := Option.isSome_iff_exists.mp hsome
    have hmade := Store.mem_referents_of_adapted? hafter.isSome_adapted?
    refine Store.mem_survivors_iff.mpr (Store.lives_of_root hmade (Store.mem_roots.mpr (.inl ?_)))
    rw [coerce, step_of_ok hconvert, inUse_settle]
    exact List.mem_cons_self
  · rcases hr with ⟨hon, hkept⟩ | rfl
    · exact .inl ⟨hon, (h.mem_adapters_iff hon).mp hkept⟩
    · exact .inr fun hmade => Nat.lt_irrefl _ (Store.mem_referents.mp hmade)

end Between

/-- **Adapters are unique while they live.** Between any two steps of a run,
* with the cache on, the adapters that are kept, each key once, are exactly those that live; every adapter that lives
  has a key, and two of them are the same exactly when their keys are;
* with the cache on, an adapter that is dropped takes its own entry away and no other, and not even that one if it has
  been taken over before the adapter came to be dropped;
* with the cache on, a coercion gives the adapter of the value and the interface that lives, and otherwise a new one if
  the value can be adapted; the adapter lives on where a register takes it, and a coercion that fails leaves the adapters
  as they are;
* with the cache off, none is kept, and every value that can be adapted gets an adapter that was not there before. -/
theorem adapters_unique (h₀ : s₀.Fresh) (h : s₀.Runs s) :
    (s₀.store.config.adapterCache = true →
      (s.store.adapters.map (·.1)).Nodup ∧
      (∀ key r, (key, r) ∈ s.store.adapters ↔ s.store.LiveAdapter key r) ∧
      (∀ r, .native r ∈ s.store.survivors → (s.store.native r).adapted?.isSome = true →
        ∃ key, s.store.LiveAdapter key r) ∧
      (∀ key key' r r', s.store.LiveAdapter key r → s.store.LiveAdapter key' r' → (r = r' ↔ key = key')) ∧
      (∀ r, (s.store.dropAdapter r).adapters = s.store.adapters.filter (·.2 ≠ r)) ∧
      (∀ key r made, r ∉ s.store.referred → made ∈ s.store.referred →
        ((s.store.publish key made).2.dropAdapter r).upgrade? key = some (s.store.publish key made).1) ∧
      ∀ d interface v into, s.store.types.targetOf d = .ok (.interface interface) →
        (∀ key r, v.identity? = some key.1 → interface.typeId? = some key.2 → s.store.LiveAdapter key r →
          (s.coerce d v into).1 = .ok (.object r)) ∧
        (s.Adaptable v d → ∃ key r, v.identity? = some key.1 ∧ interface.typeId? = some key.2 ∧
          (s.coerce d v into).1 = .ok (.object r) ∧ (s.store.LiveAdapter key r ∨ .native r ∉ s.store.referents) ∧
          (into.isSome = true → (s.coerce d v into).2.store.LiveAdapter key r)) ∧
        (∀ stop, (s.coerce d v into).1 = .error stop →
          (s.coerce d v into).2.store.adapters = s.store.adapters)) ∧
    (s₀.store.config.adapterCache = false →
      s.store.adapters = [] ∧
      ∀ d interface v into, s.store.types.targetOf d = .ok (.interface interface) → s.Adaptable v d →
        ∃ key r, v.identity? = some key.1 ∧ interface.typeId? = some key.2 ∧
          (s.coerce d v into).1 = .ok (.object r) ∧ .native r ∉ s.store.referents ∧
          (s.coerce d v into).2.store.Adapts key r) := by
  obtain ⟨htidy, hconfig⟩ := h.tidy h₀
  rw [← hconfig]
  refine ⟨fun hon => ?_, fun hoff => ⟨htidy.orderly.empty hoff, ?_⟩⟩
  · have htracked := htidy.orderly.tracked hon
    refine ⟨htracked.distinct, fun key r => htidy.mem_adapters_iff hon, fun r hlives hadapter => ?_,
      fun key key' r r' hr hr' => htidy.eq_iff_key_eq hon hr hr', fun r => ?_,
      fun key r made hgone hmade => Store.upgrade?_dropAdapter_publish hgone hmade key,
      fun d interface v into htarget => ⟨?_, ?_, ?_⟩⟩
    · obtain ⟨key, hkept⟩ := htracked.complete r hadapter (Store.mem_survivors_iff.mp hlives)
      exact ⟨key, (htidy.mem_adapters_iff hon).mp hkept⟩
    · rw [htracked.published.dropAdapter_eq]
    · intro key r hidentity hid hr
      exact htidy.coerce_live hon htarget hidentity hid hr into
    · intro hv
      obtain ⟨key, r, hidentity, hid, hgives, -, hlives, hr⟩ := htidy.coerce_adaptable htarget hv into
      exact ⟨key, r, hidentity, hid, hgives, hr.imp_left (·.2), hlives⟩
    · intro stop hfailed
      exact htidy.coerce_failed htarget hfailed
  · intro d interface v into htarget hv
    -- without the cache nothing is kept, so only a new adapter is left
    obtain ⟨key, r, hidentity, hid, hgives, hadapts, -, ⟨hon, -⟩ | hnew⟩ := htidy.coerce_adaptable htarget hv into
    · cases hoff.symm.trans hon
    · exact ⟨key, r, hidentity, hid, hgives, hnew, hadapts⟩

/-! ## A listener -/

/-- A session with an interface of listeners and a function in a register. -/
def listening (cached : Bool) : Session where
  store :=
    let declared := (Store.standard { adapterCache := cached } false).declare listenerSpec
    { (declared.addFunction (.closure "onFire" (.argument 0))).2 with inUse := [.function ⟨0⟩] }
  registers := [("handler", .script (.callable ⟨0⟩))]

/-- The session after the function has been passed as a listener. -/
def notified (cached : Bool) : Session :=
  ((listening cached).coerce (.interface "demo.Listener" true) (.callable ⟨0⟩) (some "listener")).2

/-- The session of the example is fresh, with the cache on or off. -/
theorem fresh_listening (cached : Bool) : (listening cached).Fresh := by
  cases cached <;> exact ⟨rfl, rfl, rfl, by decide +kernel⟩

/-- The interface of the example is the target that it asks for. -/
theorem targetOf_listening (cached : Bool) : (listening cached).store.types.targetOf (.interface "demo.Listener" true) =
    .ok (.interface (.interface "demo.Listener" true)) := by
  cases cached <;> rfl

/-- The later session of the example comes about by a run of the first. -/
theorem runs_notified (cached : Bool) : (listening cached).Runs (notified cached) := by
  refine .coerce .refl (targetOf_listening cached) (fun x hx => ?_) (some "listener")
  rw [List.mem_singleton.mp hx, Store.mem_survivors_iff]
  have hmade : .function ⟨0⟩ ∈ (listening cached).store.referents := by cases cached <;> decide +kernel
  exact Store.lives_of_root hmade (Store.mem_roots.mpr (.inl List.mem_cons_self))

/-- The function can be adapted again, also where its adapter is not kept. -/
theorem adaptable_notified : (notified false).Adaptable (.callable ⟨0⟩) (.interface "demo.Listener" true) := by
  have hbridge : ((convert (.interface "demo.Listener" true) (.callable ⟨0⟩)).outcome
      (listening false).start.store).2.SameBridge (notified false).start.store := sameBridge_step rfl
  have hrank := (rankOf_endAlike (u := .callable ⟨0⟩) (v := .callable ⟨0⟩) (.interface "demo.Listener" true) hbridge
    ⟨rfl, rfl⟩).result
  refine ⟨.callable ⟨0⟩, .exact, rfl, rfl, ?_, rfl⟩
  show ((rankOf (.callable ⟨0⟩) (.interface "demo.Listener" true)).outcome (notified false).start.store).1 = _
  rw [← hrank]
  decide +kernel

/-- The function gets an adapter that lives, which is given again; without a cache it gets another one. -/
theorem adapters_unique_notified :
    (∃ key r, (notified true).store.LiveAdapter key r ∧
      ((notified true).coerce (.interface "demo.Listener" true) (.callable ⟨0⟩) none).1 = .ok (.object r)) ∧
    ∃ r, .native r ∉ (notified false).store.referents ∧
      ((notified false).coerce (.interface "demo.Listener" true) (.callable ⟨0⟩) none).1 = .ok (.object r) := by
  obtain ⟨hbefore, -⟩ := adapters_unique (fresh_listening true) .refl
  obtain ⟨-, -, -, -, -, -, hcoerces⟩ := hbefore rfl
  obtain ⟨hafter, -⟩ := adapters_unique (fresh_listening true) (runs_notified true)
  obtain ⟨-, -, -, -, -, -, hagain⟩ := hafter rfl
  obtain ⟨-, hoff⟩ := adapters_unique (fresh_listening false) (runs_notified false)
  obtain ⟨-, hnew⟩ := hoff rfl
  have hfirst : (listening true).Adaptable (.callable ⟨0⟩) (.interface "demo.Listener" true) :=
    ⟨.callable ⟨0⟩, .exact, rfl, rfl, by decide +kernel, rfl⟩
  obtain ⟨key, r, hidentity, hid, -, -, hlives⟩ :=
    (hcoerces _ _ (.callable ⟨0⟩) (some "listener") (targetOf_listening true)).2.1 hfirst
  obtain ⟨-, r', -, -, hgives, hr', -⟩ := hnew _ _ (.callable ⟨0⟩) none rfl adaptable_notified
  exact ⟨⟨key, r, hlives rfl, (hagain _ _ (.callable ⟨0⟩) none rfl).1 key r hidentity hid (hlives rfl)⟩, r', hr', hgives⟩

end Session

end Interop
