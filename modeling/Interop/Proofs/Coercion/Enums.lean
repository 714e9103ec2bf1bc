import Interop.Proofs.Coercion.Instances
import Interop.Proofs.Member.History
import Interop.Proofs.Member.Shadowing
import Interop.Proofs.Store.Enums
import Interop.Proofs.Store.Settling

/-!
# Names and ordinals of constants

A number is the ordinal of an enum constant, a string its name in any letter case. Both lead to one object: the one that
has been in the field of the constant since the enum was declared, which is found among the members of the enum. Three
things come in between. Of constants whose names differ in letter case only, strings name the first. Members that the
host does not list, or that were collected before a type was declared anew, are not those of the enum. And a supertype
that is a subtype as well may put a field of its own in the place of the constant.

* **`Store.ShowsOwn`**: the members that are looked up are those of the type.
* **`outcome_constantObject`**: the object of a constant is the one in its field.
* **`convert_constants`**: what numbers and strings convert to.
-/

namespace Interop

-- ids are compared as they stand; unfolding one means computing a digest
attribute [local irreducible] TypeId.ofName

variable {s s₁ : Store} {d : TypeDecl} {i : Nat} {name : String}

/-! ## Members of the enum -/

/-- A look-up gives members of the type itself, as its types are declared now. -/
def Store.ShowsOwn (s : Store) (id : TypeId) : Prop :=
  ∃ m b, (s.memberCache.lookup s.types id none s.config.includeNonPublic).1 = .ok m ∧
    s.types.collectMembers id b s.config.includeNonPublic = .ok m.entry

/-- Where no members are kept and the host lists the type with all its supertypes, they are collected from it. -/
theorem Store.showsOwn_of_listsAll {id : TypeId} (hfresh : s.memberCache.find? id s.config.includeNonPublic = none)
    (hlisted : s.types.ListsAll (s.types.ancestry id))
    (hfound : (s.memberCache.lookup s.types id none s.config.includeNonPublic).1.toOption.isSome = true) :
    s.ShowsOwn id := by
  rcases s.memberCache.lookup_cases s.types id none s.config.includeNonPublic with
    ⟨known, hfind, -⟩ | ⟨entry, -, hcollect, heq⟩ | ⟨stop, -, -, heq⟩
  · rw [hfresh] at hfind
    cases hfind
  · rw [TypeTable.collectOrAbove_eq hlisted] at hcollect
    exact ⟨_, _, congrArg Prod.fst heq, hcollect⟩
  · rw [heq] at hfound
    cases hfound

/-- The members of an enum show the field of a constant. -/
theorem Store.Reached.find?_constant (hs : s.Reached) (hd : s.types.find? d.id = some d) (hnames : d.NamesApart)
    (hbelow : ∀ a ∈ s.types.ancestry d.id, ¬ s.types.Below a d.id) {b : Bindings} {flag : Bool} {entry : TypeMembers}
    (hentry : s.types.collectMembers d.id b flag = .ok entry) (hi : d.constants[i]? = some name) :
    ∃ f r n, entry.statics.find? name = some (.field f) ∧ f.flags.isFinal = true ∧ f.storage = .cell r ∧
      s.cell r = .object n ∧ s.native n = .constant d.name i name := by
  have hordered := hs.ordered
  obtain ⟨f, hf, hholds, honly⟩ := (hordered.inPlace d.id d hd).exists_field hnames hi
  obtain ⟨r, n, hr, hcell, hn⟩ := hholds.stored
  have hshown : f.isShown flag = true := by
    rw [FieldDecl.isShown, hholds.flags, hr]
    rfl
  rw [← hholds.named] at honly
  obtain ⟨a, hfind, ha⟩ := TypeTable.collectMembers_own hordered.owned hd hbelow hentry hf hshown honly
  rw [hholds.flags, hholds.named] at hfind
  refine ⟨a, r, n, hfind, ?_, ?_, hcell, hn⟩
  · rw [ha.flags, hholds.flags]
  · exact Option.some.inj (ha.storage.symm.trans hr)

/-! ## Objects -/

/-- A computation leads from a store to another one and gives a value, which it gives again in all later stores. -/
def Eval.Answers (x : Eval α) (s s₁ : Store) (a : α) : Prop :=
  x.outcome s = (.ok a, s₁) ∧ ∀ s', s₁.Later s' → x.outcome s' = (.ok a, s')

/-- A constant is read from its field. -/
theorem outcome_constantObject_of_field {enumName : String} {m : Membership}
    (hm : (Eval.membersOf (.ofName enumName) none false).outcome s = (.ok m, s₁)) {f : MemberField}
    (hf : m.entry.statics.find? name = some (.field f)) (hfinal : f.flags.isFinal = true) {r : CellRef}
    (hr : f.storage = .cell r) (i : Nat) :
    (constantObject enumName i name).outcome s = (.ok (s₁.cell r), s₁) := by
  have hattempt : (Eval.attempt (Eval.membersOf (.ofName enumName) none false)).outcome s = (.ok (.ok m), s₁) := by
    rw [Eval.outcome_attempt, hm]
  rw [constantObject, Eval.outcome_bind_of_ok hattempt]
  dsimp only
  rw [hf]
  dsimp only
  rw [hfinal, if_pos rfl, hr]
  rfl

/-- **The object of a constant** is the one that was made when its enum was declared, now and later. -/
theorem outcome_constantObject (hs : s.Reached) (hd : s.types.find? d.id = some d) (hnames : d.NamesApart)
    (hshows : s.ShowsOwn d.id) (hbelow : ∀ a ∈ s.types.ancestry d.id, ¬ s.types.Below a d.id)
    (hi : d.constants[i]? = some name) :
    ∃ n, s.native n = .constant d.name i name ∧
      (constantObject d.name i name).Answers s (s.lookedUp d.id none s.config.includeNonPublic) (.object n) := by
  obtain ⟨m, b, hlookup, hentry⟩ := hshows
  obtain ⟨f, r, n, hf, hfinal, hr, hcell, hn⟩ := hs.find?_constant hd hnames hbelow hentry hi
  have hm : (Eval.membersOf (.ofName d.name) none false).outcome s =
      (.ok m, s.lookedUp d.id none s.config.includeNonPublic) := by
    rw [Eval.outcome_membersOf, Bool.false_or]
    exact congrArg (·, _) hlookup
  refine ⟨n, hn, ?_, fun s' hlater => ?_⟩
  · rw [outcome_constantObject_of_field hm hf hfinal hr]
    exact congrArg (fun v => (Except.ok v, _)) hcell
  · rw [outcome_constantObject_of_field ((Eval.Repeatable.membersOf _ _).again hm hlater) hf hfinal hr]
    obtain ⟨cache, memos, rfl⟩ := hlater.exists_eq
    exact congrArg (fun v => (Except.ok v, _)) hcell

/-! ## Ordinals and names -/

/-- The constants of an enum are read from the table, under the name of the enum. -/
theorem TypeTable.constantsOf_eq {t : TypeTable} (hd : t.find? d.id = some d) : t.constantsOf d.name = d.constants := by
  have hfind : t.find? (.ofName d.name) = some d := hd
  rw [constantsOf, hfind]
  rfl

/-- An ordinal is a whole number from zero up, below the number of constants. -/
theorem ordinal?_eq_some_iff {count : Nat} {x : Double} :
    ordinal? count x = some i ↔ x.whole? = some (i : Int) ∧ i < count := by
  rw [ordinal?, Option.bind_eq_bind, Option.bind_eq_some_iff]
  constructor
  · rintro ⟨n, hn, hi⟩
    split at hi
    · next hrange =>
      obtain rfl : n.toNat = i := Option.some.inj hi
      rw [Int.toNat_of_nonneg hrange.1]
      exact ⟨hn, by omega⟩
    · cases hi
  · rintro ⟨hx, hi⟩
    refine ⟨i, hx, ?_⟩
    rw [if_pos ⟨Int.natCast_nonneg i, Int.ofNat_lt.mpr hi⟩, Int.toNat_natCast]

/-- A number in range gives the constant with this ordinal. -/
theorem outcome_constantByOrdinal (hd : s.types.find? d.id = some d) (hi : d.constants[i]? = some name) {x : Double}
    (hx : x.whole? = some (i : Int)) :
    (constantByOrdinal d.name x).outcome s = (constantObject d.name i name).outcome s := by
  have hordinal : ordinal? d.constants.length x = some i :=
    ordinal?_eq_some_iff.mpr ⟨hx, (List.getElem?_eq_some_iff.mp hi).1⟩
  rw [constantByOrdinal, Eval.outcome_get_bind, TypeTable.constantsOf_eq hd]
  dsimp only
  rw [hordinal, Option.bind_some, hi]
  rfl

/-- **Any other number is refused.** -/
theorem outcome_constantByOrdinal_of_none (hd : s.types.find? d.id = some d) {x : Double}
    (hx : ∀ i < d.constants.length, x.whole? ≠ some (i : Int)) :
    (constantByOrdinal d.name x).outcome s
      = (.error (.failed (.illegalEnumValue d.name x.scriptText (constantList d.constants))), s) := by
  have hordinal : ordinal? d.constants.length x = none := by
    rw [Option.eq_none_iff_forall_ne_some]
    intro i hi
    obtain ⟨hwhole, hlt⟩ := ordinal?_eq_some_iff.mp hi
    exact hx i hlt hwhole
  rw [constantByOrdinal, Eval.outcome_get_bind, TypeTable.constantsOf_eq hd]
  dsimp only
  rw [hordinal]
  rfl

/-- A text gives the first constant that it names. -/
theorem outcome_constantByName (hd : s.types.find? d.id = some d) (hi : d.constants[i]? = some name) {text : String}
    (htext : equalIgnoringCase name text = true)
    (hfirst : ∀ j < i, ∀ other, d.constants[j]? = some other → equalIgnoringCase other text = false) :
    (constantByName d.name text).outcome s = (constantObject d.name i name).outcome s := by
  have hfind : ∀ isNamed : String × Nat → Bool, (∀ other j, isNamed (other, j) = equalIgnoringCase other text) →
      d.constants.zipIdx.find? isNamed = some (name, i) := by
    intro isNamed hnamed
    obtain ⟨hlt, hget⟩ := List.getElem?_eq_some_iff.mp hi
    rw [List.find?_eq_some_iff_getElem]
    refine ⟨(hnamed name i).trans htext, i, by rwa [List.length_zipIdx], ?_, fun j hj => ?_⟩
    · rw [List.getElem_zipIdx, hget, Nat.zero_add]
    · rw [List.getElem_zipIdx, hnamed, hfirst j hj _ (List.getElem?_eq_getElem (hj.trans hlt))]
      rfl
  rw [constantByName, Eval.outcome_get_bind, TypeTable.constantsOf_eq hd]
  dsimp only
  rw [hfind]
  exact fun _ _ => rfl

/-! ## Conversion -/

/-- What depends on the types only, besides another computation, answers like that one. -/
theorem Eval.Answers.of_types {x y : Eval α} {a : α} (hy : y.Answers s s₁ a) (htypes : s₁.types = s.types)
    (h : ∀ s' : Store, s'.types = s.types → x.outcome s' = y.outcome s') : x.Answers s s₁ a := by
  refine ⟨(h s rfl).trans hy.1, fun s' hlater => ?_⟩
  have hsame : s'.types = s.types := by
    obtain ⟨cache, memos, rfl⟩ := hlater.exists_eq
    exact htypes
  exact (h s' hsame).trans (hy.2 s' hlater)

/--
**Names and ordinals name the same constants.** In a reached store, let the constants of an enum have names of their
own, let the members that are looked up be those of the enum, and let no supertype be a subtype as well. Then there is
one object for each constant, with its ordinal and its name. Its ordinal converts to it, and so does every text that is
its name, but not that of an earlier constant, up to the case of letters; the same goes for later stores. Every number
that is not an ordinal is refused.
-/
theorem convert_constants (hs : s.Reached) (hd : s.types.find? d.id = some d) (hnames : d.NamesApart)
    (hshows : s.ShowsOwn d.id) (hbelow : ∀ a ∈ s.types.ancestry d.id, ¬ s.types.Below a d.id) {type : Descriptor}
    (htype : s.types.targetOf type = .ok (.enumeration d.name)) :
    (∀ (i : Nat) name, d.constants[i]? = some name → ∃ n s₁, s.Settles s₁ ∧ s.native n = .constant d.name i name ∧
      (∀ x : Double, x.whole? = some (i : Int) → (convert type (.number x)).Answers s s₁ (.object n)) ∧
      ∀ text, equalIgnoringCase name text = true →
        (∀ j < i, ∀ other, d.constants[j]? = some other → equalIgnoringCase other text = false) →
        (convert type (.string text)).Answers s s₁ (.object n)) ∧
    ∀ x : Double, (∀ i < d.constants.length, x.whole? ≠ some (i : Int)) → (convert type (.number x)).outcome s
      = (.error (.failed (.illegalEnumValue d.name x.scriptText (constantList d.constants))), s) := by
  refine ⟨fun i name hi => ?_, fun x hx => ?_⟩
  · obtain ⟨n, hn, hobject⟩ := outcome_constantObject hs hd hnames hshows hbelow hi
    have hsettles : s.Settles (s.lookedUp d.id none s.config.includeNonPublic) :=
      (Eval.Repeatable.membersOf d.id false).settles (Eval.outcome_membersOf d.id none false s)
    refine ⟨n, _, hsettles, hn, fun x hx => ?_, fun text htext hfirst => ?_⟩
    · refine hobject.of_types rfl fun s' htypes => ?_
      rw [← htypes] at htype hd
      rw [(ByTables.number x).outcome_convert htype rfl, convertNumber, outcome_constantByOrdinal hd hi hx]
    · refine hobject.of_types rfl fun s' htypes => ?_
      rw [← htypes] at htype hd
      rw [(ByTables.string text).outcome_convert htype rfl, convertString, outcome_constantByName hd hi htext hfirst]
  · rw [(ByTables.number x).outcome_convert htype rfl, convertNumber, outcome_constantByOrdinal_of_none hd hx]

/-- An enum over the standard types. -/
def tones (constants : List String) : Store :=
  (Store.standard {} false).declare { name := "demo.Tone", kind := .ofEnum, constants := constants }

/-- The text of a number may be the name of a constant, and one constant may be another one in capitals. -/
theorem convert_constants_tones :
    let s := tones ["1", "do", "DO"]
    ∃ n n' s₁ s₂, s.native n = .constant "demo.Tone" 0 "1" ∧ s.native n' = .constant "demo.Tone" 1 "do" ∧
      (convert (.enumeration "demo.Tone") (.number (.ofInt 0))).Answers s s₁ (.object n) ∧
      (convert (.enumeration "demo.Tone") (.string "1")).Answers s s₁ (.object n) ∧
      (convert (.enumeration "demo.Tone") (.number (.ofInt 1))).Answers s s₂ (.object n') ∧
      (convert (.enumeration "demo.Tone") (.string "Do")).Answers s s₂ (.object n') ∧
      (convert (.enumeration "demo.Tone") (.number (.ofInt 3))).outcome s
        = (.error (.failed (.illegalEnumValue "demo.Tone" "3" ["1(0)", "do(1)", "DO(2)"])), s) := by
  intro s
  have hs : s.Reached := (Store.Reached.standard {} false).declare _
  obtain ⟨d, hfind, hname, -, -, hconstants, hiff⟩ := (Store.standard {} false).declare_namesApart_iff
    { name := "demo.Tone", kind := .ofEnum, constants := ["1", "do", "DO"] } rfl
  have hnames : d.NamesApart := hiff.mpr ⟨by decide, List.forall_mem_nil _⟩
  have hid : d.id = .ofName "demo.Tone" := congrArg TypeId.ofName hname
  have hd : s.types.find? d.id = some d := by
    rw [hid]
    exact hfind
  have hshows : s.ShowsOwn d.id := by
    rw [hid]
    exact Store.showsOwn_of_listsAll rfl (by decide +kernel) (by decide +kernel)
  -- a cycle would let a field of a supertype count as one of the enum
  have hbelow : ∀ a ∈ s.types.ancestry d.id, ¬ s.types.Below a d.id := by
    rw [hid]
    decide +kernel
  have htype : s.types.targetOf (.enumeration d.name) = .ok (.enumeration d.name) := rfl
  obtain ⟨hagree, hrefused⟩ := convert_constants hs hd hnames hshows hbelow htype
  rw [hconstants, hname] at hagree hrefused
  obtain ⟨n, s₁, -, hn, hnumber, hstring⟩ := hagree 0 "1" rfl
  obtain ⟨n', s₂, -, hn', hnumber', hstring'⟩ := hagree 1 "do" rfl
  refine ⟨n, n', s₁, s₂, hn, hn', hnumber _ (by decide +kernel), hstring "1" (by decide) fun j hj => by omega,
    hnumber' _ (by decide +kernel), hstring' "Do" (by decide) ?_, hrefused _ ?_⟩
  · -- the constants before this one are not written like the text
    intro j hj other hother
    obtain rfl : j = 0 := by omega
    obtain rfl : "1" = other := Option.some.inj hother
    decide
  · have hwhole : (Double.ofInt 3).whole? = some 3 := by decide +kernel
    intro i hi heq
    have hthree : (3 : Int) = i := Option.some.inj (hwhole.symm.trans heq)
    have hcount : i < 3 := hi
    omega

/-- Whether the name of a constant and its ordinal, converted one after the other, give one object, and whether this is
the constant. -/
def Store.givesOne (s : Store) (enumName name : String) (i : Nat) : Bool :=
  match (convert (.enumeration enumName) (.string name)).outcome s with
  | (.ok (.object n), s₁) =>
    match (convert (.enumeration enumName) (.number (.ofNat i))).outcome s₁ with
    | (.ok (.object n'), s₂) =>
      match s₂.native n with
      | .constant enumName' i' name' => n == n' && enumName' == enumName && i' == i && name' == name
      | _ => false
    | _ => false
  | _ => false

/-- An enum with an interface that the host does not list. -/
def hiddenTones : Store :=
  ((Store.standard {} false).declare { name := "demo.Secret", kind := .ofInterface, denied := true }).declare
    { name := "demo.Tone", kind := .ofEnum, interfaces := [.interface "demo.Secret" false], constants := ["do", "re"] }

/-- An enum below a class that is below the enum, and has a field of its own by the name of a constant. -/
def circularTones : Store :=
  ((Store.standard {} false).declare
    { name := "demo.Base", kind := .ofClass, superclass := some (.plain "demo.Tone")
      fields := [{ name := "re", type := .string, flags := { isStatic := true, isFinal := true }
                   initial := some (.string "x") }] }).declare
    { name := "demo.Tone", kind := .ofEnum, superclass := some (.plain "demo.Base"), constants := ["do", "re"] }

/-- An enum that is declared anew after its members have been looked up. -/
def reorderedTones : Store :=
  ((tones ["do", "re"]).lookedUp (.ofName "demo.Tone") none false).declare
    { name := "demo.Tone", kind := .ofEnum, constants := ["re", "do"] }

/-- An enum whose members the host lists and whose constants have names of their own has a constant that its name and
its ordinal do not both give. -/
def Store.Confuses (s : Store) (enumName : String) : Prop :=
  ∃ d, s.types.find? (.ofName enumName) = some d ∧ d.kind = .ofEnum ∧ d.denied = false ∧ d.NamesApart ∧
    ∃ i name, d.constants[i]? = some name ∧ s.givesOne enumName name i = false

/-- It is enough to find one constant that its name and its ordinal do not both give, in an enum that the host declares
last. -/
theorem Store.confuses_of_declare (s : Store) {spec : TypeSpec} (hkind : spec.kind = .ofEnum)
    (hdenied : spec.denied = false) (hnodup : spec.constants.Nodup)
    (hfields : ∀ f ∈ spec.fields, f.name ∉ spec.constants) (hi : spec.constants[i]? = some name)
    (hgives : (s.declare spec).givesOne spec.name name i = false) : (s.declare spec).Confuses spec.name := by
  obtain ⟨d, hfind, -, hdkind, hddenied, hconstants, hiff⟩ := s.declare_namesApart_iff spec hkind
  rw [← hconstants] at hi
  exact ⟨d, hfind, hdkind, hddenied.trans hdenied, hiff.mpr ⟨hnodup, hfields⟩, i, name, hi, hgives⟩

/-- Letter case, types that are not listed, cycles, and members of former times confuse names and ordinals. -/
theorem convert_constants_confused :
    (tones ["do", "DO"]).Reached ∧ (tones ["do", "DO"]).Confuses "demo.Tone" ∧
    hiddenTones.Reached ∧ hiddenTones.Confuses "demo.Tone" ∧
    circularTones.Reached ∧ circularTones.Confuses "demo.Tone" ∧
    reorderedTones.Reached ∧ reorderedTones.Confuses "demo.Tone" := by
  have hstandard := Store.Reached.standard {} false
  refine ⟨hstandard.declare _, ?_, (hstandard.declare _).declare _, ?_, (hstandard.declare _).declare _, ?_,
    ((hstandard.declare _).memberCache _).declare _, ?_⟩
  · exact Store.confuses_of_declare _ rfl rfl (by decide) (List.forall_mem_nil _) (i := 1) rfl (by decide +kernel)
  · exact Store.confuses_of_declare _ rfl rfl (by decide) (List.forall_mem_nil _) (i := 1) rfl (by decide +kernel)
  · exact Store.confuses_of_declare _ rfl rfl (by decide) (List.forall_mem_nil _) (i := 1) rfl (by decide +kernel)
  · exact Store.confuses_of_declare _ rfl rfl (by decide) (List.forall_mem_nil _) (i := 0) rfl (by decide +kernel)

end Interop
