import CarbonRuntime.Stream.Validate
import Mathlib.Logic.Relation

/-!
# A name every object inherits

The schema validator asks with `in` whether a required field is there and whether a property is
declared (stream/validate.ts:110-127). Both say yes of `constructor`, `toString` and the other names
every object inherits: a required field of such a name is never missing, and an undeclared field of one
is neither refused nor judged by `additionalProperties`.

Validity is said level by level (`LevelValid`), of every level of the schema a value reaches.

`means_iff`: `validate` says what the schema means exactly where such a name makes no difference at any
level, or some level has another fault.

Counterexample: a record with a field `constructor` of a schema that declares exact keys.
-/

open CarbonRuntime.Core Utf16

namespace CarbonRuntime.Bugs.InheritedName

open Schemas Relation

variable {L : Language} {S T : Schema} {schemaName subject name : Text} {v w child : Value Text}
  {items : List (Value Text)} {fields : List (Text × Value Text)} {i : Nat}

/-! ## What a schema means -/

/-- The type of a value; a number without a fraction is an integer too. -/
inductive HasType : Value Text → JsonType → Prop
  | null : HasType .null .null
  | bool (b : Bool) : HasType (.bool b) .boolean
  | number (n : Rat) : HasType (.number n) .number
  | integer (k : Int) : HasType (.number k) .integer
  | string (t : Text) : HasType (.string t) .string
  | array (items : List (Value Text)) : HasType (.array items) .array
  | object (fields : List (Text × Value Text)) : HasType (.object fields) .object

/-- The keywords about the value alone. -/
structure Fits (L : Language) (S : Schema) (v : Value Text) : Prop where
  type : ∀ want ∈ S.type, HasType v want
  const : ∀ c ∈ S.const, v = c.value
  enum : ∀ cs ∈ S.enum, ∃ c ∈ cs, v = c.value
  pattern : ∀ t, v = .string t → ∀ p ∈ S.pattern, L.test p t = true
  minLength : ∀ t, v = .string t → ∀ n ∈ S.minLength, n ≤ t.length
  minimum : ∀ n, v = .number n → ∀ m ∈ S.minimum, m ≤ n

/-- A value is valid at a level of a schema. -/
structure LevelValid (L : Language) (S : Schema) (v : Value Text) : Prop where
  fits : Fits L S v
  required : ∀ fields, v = .object fields → ∀ name ∈ S.required, (Value.own name fields).isSome = true
  declared : ∀ fields, v = .object fields → ∀ name child, (name, child) ∈ fields →
    S.declared name = none → S.additional ≠ .refused

/-- A level right below another: of an item, of a declared property, of an additional one. -/
inductive Below : Schema × Value Text → Schema × Value Text → Prop
  | item {S T : Schema} {items : List (Value Text)} {w : Value Text} :
      S.items = some T → w ∈ items → Below (S, .array items) (T, w)
  | declared {S T : Schema} {fields : List (Text × Value Text)} {name : Text} {w : Value Text} :
      (name, w) ∈ fields → S.declared name = some T → Below (S, .object fields) (T, w)
  | additional {S T : Schema} {fields : List (Text × Value Text)} {name : Text} {w : Value Text} :
      (name, w) ∈ fields → S.declared name = none → S.additional = .schema T →
        Below (S, .object fields) (T, w)

abbrev Reaches := ReflTransGen Below

def Valid (L : Language) (S : Schema) (v : Value Text) : Prop :=
  ∀ T w, Reaches (S, v) (T, w) → LevelValid L T w

/-- Every level that is reached has supported keywords only. -/
def Known (S : Schema) (v : Value Text) : Prop := ∀ T w, Reaches (S, v) (T, w) → T.unknown = []

/-- The validator means JSON Schema: it reports no fault exactly of what is valid, and one wherever a
keyword is reached that is not supported. -/
def Means (L : Language) (schemaName : Text) (S : Schema) (subject : Text) (v : Value Text) : Prop :=
  (Known S v → (validate L schemaName S subject v = [] ↔ Valid L S v)) ∧
    (¬ Known S v → validate L schemaName S subject v ≠ [])

/-! ## What the validator looks at -/

/-- An additional property of an inherited name is passed over. -/
inductive Asked : Schema × Value Text → Schema × Value Text → Prop
  | item {S T : Schema} {items : List (Value Text)} {w : Value Text} :
      S.items = some T → w ∈ items → Asked (S, .array items) (T, w)
  | declared {S T : Schema} {fields : List (Text × Value Text)} {name : Text} {w : Value Text} :
      (name, w) ∈ fields → S.declared name = some T → Asked (S, .object fields) (T, w)
  | additional {S T : Schema} {fields : List (Text × Value Text)} {name : Text} {w : Value Text} :
      (name, w) ∈ fields → S.declared name = none → inherited name = false →
        S.additional = .schema T → Asked (S, .object fields) (T, w)

/-- A level without a fault, inherited names aside. -/
structure Faultless (L : Language) (S : Schema) (v : Value Text) : Prop where
  unknown : S.unknown = []
  fits : Fits L S v
  required : ∀ fields, v = .object fields → ∀ name ∈ S.required, inherited name = false →
    (Value.own name fields).isSome = true
  declared : ∀ fields, v = .object fields → ∀ name child, (name, child) ∈ fields →
    S.declared name = none → inherited name = false → S.additional ≠ .refused

/-- At a level an inherited name makes a difference: it is required and missing, or it is the name of a
field that is not declared and that the schema refuses, or does not take. -/
inductive Turns (L : Language) : Schema → Value Text → Prop
  | missing {S : Schema} {fields : List (Text × Value Text)} {name : Text} :
      name ∈ S.required → inherited name = true → Value.own name fields = none →
        Turns L S (.object fields)
  | refused {S : Schema} {fields : List (Text × Value Text)} {name : Text} {w : Value Text} :
      (name, w) ∈ fields → S.declared name = none → inherited name = true → S.additional = .refused →
        Turns L S (.object fields)
  | additional {S T : Schema} {fields : List (Text × Value Text)} {name : Text} {w : Value Text} :
      (name, w) ∈ fields → S.declared name = none → inherited name = true →
        S.additional = .schema T → ¬ (Known T w ∧ Valid L T w) → Turns L S (.object fields)

/-! ## One level -/

theorem same_iff {c : Scalar} : c.same v = true ↔ v = c.value := by
  cases c <;> cases v <;> simp [Scalar.same, Scalar.value, eq_comm]

theorem matchesType_iff {want : JsonType} : matchesType v want = true ↔ HasType v want := by
  have hint : ∀ n : Rat, n.den = 1 ↔ ∃ k : Int, (k : Rat) = n := fun n =>
    ⟨fun h => ⟨n.num, Rat.den_eq_one_iff n |>.1 h⟩, fun ⟨k, hk⟩ => by rw [← hk]; rfl⟩
  constructor
  · intro h
    cases v with
    | number n =>
      by_cases hn : n.den = 1
      · obtain ⟨k, rfl⟩ := (hint n).1 hn
        cases want with
        | number => exact .number _
        | integer => exact .integer k
        | _ => simp [matchesType, typeOf] at h
      · cases want with
        | number => exact .number n
        | _ => simp [matchesType, typeOf, hn] at h
    | _ =>
      cases want <;> simp [matchesType, typeOf] at h
      constructor
  · intro h
    cases h with
    | number n =>
      by_cases hn : n.den = 1 <;> simp [matchesType, typeOf, hn]
    | integer k => simp [matchesType, typeOf]
    | _ => simp [matchesType, typeOf]

theorem constFault_none : constFault L S subject v = none ↔ ∀ c ∈ S.const, v = c.value := by
  unfold constFault
  cases S.const with
  | none => simp
  | some c => simp [same_iff]

theorem enumFault_none : enumFault L S subject v = none ↔ ∀ cs ∈ S.enum, ∃ c ∈ cs, v = c.value := by
  unfold enumFault
  cases S.enum with
  | none => simp
  | some cs => simp [same_iff]

theorem typeFault_none : typeFault S subject v = none ↔ ∀ want ∈ S.type, HasType v want := by
  unfold typeFault
  cases S.type with
  | none => simp
  | some want => simp [matchesType_iff]

theorem patternFaults_nil {t : Text} :
    patternFaults L S subject t = [] ↔ ∀ p ∈ S.pattern, L.test p t = true := by
  unfold patternFaults
  cases S.pattern with
  | none => simp
  | some p =>
    by_cases hp : p = []
    · simp [Option.filter, hp, L.test_empty]
    · simp [Option.filter, hp]

theorem lengthFaults_nil {t : Text} :
    lengthFaults L S subject t = [] ↔ ∀ n ∈ S.minLength, n ≤ t.length := by
  unfold lengthFaults
  cases S.minLength with
  | none => simp
  | some n => simp

theorem stringFaults_nil : stringFaults L S subject v = [] ↔
    (∀ t, v = .string t → ∀ p ∈ S.pattern, L.test p t = true) ∧
      ∀ t, v = .string t → ∀ n ∈ S.minLength, n ≤ t.length := by
  cases v with
  | string t =>
    rw [stringFaults, List.append_eq_nil_iff, patternFaults_nil, lengthFaults_nil]
    constructor
    · rintro ⟨hp, hl⟩
      exact ⟨fun _ h => by cases h; exact hp, fun _ h => by cases h; exact hl⟩
    · exact fun ⟨hp, hl⟩ => ⟨hp t rfl, hl t rfl⟩
  | _ => simp [stringFaults]

theorem minimumFaults_nil : minimumFaults L S subject v = [] ↔
    ∀ n, v = .number n → ∀ m ∈ S.minimum, m ≤ n := by
  cases v with
  | number n => cases hm : S.minimum <;> simp [minimumFaults, hm, Rat.not_lt]
  | _ => simp [minimumFaults]

theorem fits_iff : Fits L S v ↔ (constFault L S subject v).or ((enumFault L S subject v).or
    (typeFault S subject v)) = none ∧ stringFaults L S subject v = [] ∧
      minimumFaults L S subject v = [] := by
  rw [Option.or_eq_none_iff, Option.or_eq_none_iff, constFault_none, enumFault_none, typeFault_none,
    stringFaults_nil, minimumFaults_nil]
  exact ⟨fun h => ⟨⟨h.const, h.enum, h.type⟩, ⟨h.pattern, h.minLength⟩, h.minimum⟩,
    fun ⟨⟨hc, he, ht⟩, ⟨hp, hl⟩, hm⟩ => ⟨ht, hc, he, hp, hl, hm⟩⟩

theorem levelFaults_nil {below : List SchemaFault} :
    levelFaults L schemaName S subject v below = [] ↔ S.unknown = [] ∧ Fits L S v ∧ below = [] := by
  rw [levelFaults, List.append_eq_nil_iff, keywordFaults, List.map_eq_nil_iff, @fits_iff _ _ subject]
  cases (constFault L S subject v).or ((enumFault L S subject v).or (typeFault S subject v)) with
  | none => simp [and_assoc]
  | some fault => simp

theorem missingFaults_nil : missingFaults S subject fields = [] ↔
    ∀ name ∈ S.required, inherited name = false → (Value.own name fields).isSome = true := by
  rw [missingFaults, List.map_eq_nil_iff, List.filter_eq_nil_iff]
  refine forall₂_congr fun name _ => ?_
  cases inherited name <;> simp [Option.isSome_iff_ne_none]

/-! ## Every level -/

/-- Nothing is found at any level that is looked at. -/
def Passes (L : Language) (S : Schema) (v : Value Text) : Prop :=
  ∀ T w, ReflTransGen Asked (S, v) (T, w) → Faultless L T w

theorem passes_iff : Passes L S v ↔
    Faultless L S v ∧ ∀ T w, Asked (S, v) (T, w) → Passes L T w := by
  constructor
  · exact fun h => ⟨h S v .refl, fun T w hask U x hx => h U x (.head hask hx)⟩
  · rintro ⟨hlevel, hbelow⟩ T w hreach
    rcases hreach.cases_head with heq | ⟨⟨U, x⟩, hask, hrest⟩
    · cases heq
      exact hlevel
    · exact hbelow U x hask T w hrest

theorem passes_inherited : Passes L inheritedSchema v := by
  refine passes_iff.2 ⟨⟨rfl, ⟨nofun, nofun, nofun, fun _ _ => nofun, fun _ _ => nofun, fun _ _ => nofun⟩,
    fun _ _ => nofun, fun _ _ _ _ _ _ _ => nofun⟩, fun T w h => ?_⟩
  cases h with
  | item hT => cases hT
  | declared _ hT => cases hT
  | additional _ _ _ hT => cases hT

/-- What the validator asks of a field. -/
def FieldPasses (L : Language) (S : Schema) (name : Text) (w : Value Text) : Prop :=
  (∀ T, S.declared name = some T → Passes L T w) ∧
    (S.declared name = none → inherited name = false →
      S.additional ≠ .refused ∧ ∀ T, S.additional = .schema T → Passes L T w)

theorem fields_cons {p : Text → Value Text → Prop} :
    (∀ n w, (n, w) ∈ (name, child) :: fields → p n w) ↔
      p name child ∧ ∀ n w, (n, w) ∈ fields → p n w := by
  constructor
  · exact fun h => ⟨h name child List.mem_cons_self, fun n w hmem => h n w (List.mem_cons_of_mem _ hmem)⟩
  · rintro ⟨hhead, hrest⟩ n w hmem
    rcases List.mem_cons.1 hmem with heq | hmem
    · cases heq
      exact hhead
    · exact hrest n w hmem

theorem passes_object : Passes L S (.object fields) ↔ S.unknown = [] ∧ Fits L S (.object fields) ∧
    (∀ name ∈ S.required, inherited name = false → (Value.own name fields).isSome = true) ∧
      ∀ name w, (name, w) ∈ fields → FieldPasses L S name w := by
  rw [passes_iff]
  constructor
  · rintro ⟨⟨hunknown, hfits, hrequired, hdeclared⟩, hbelow⟩
    exact ⟨hunknown, hfits, hrequired _ rfl, fun name w hmem =>
      ⟨fun T hT => hbelow T w (.declared hmem hT), fun hnone hown =>
        ⟨hdeclared _ rfl name w hmem hnone hown, fun T hT => hbelow T w (.additional hmem hnone hown hT)⟩⟩⟩
  · rintro ⟨hunknown, hfits, hrequired, hfields⟩
    refine ⟨⟨hunknown, hfits, fun _ h => by cases h; exact hrequired, fun _ h => ?_⟩, fun T w h => ?_⟩
    · cases h
      exact fun name w hmem hnone hown => ((hfields name w hmem).2 hnone hown).1
    · cases h with
      | declared hmem hT => exact (hfields _ _ hmem).1 T hT
      | additional hmem hnone hown hT => exact ((hfields _ _ hmem).2 hnone hown).2 T hT

theorem passes_array : Passes L S (.array items) ↔ S.unknown = [] ∧ Fits L S (.array items) ∧
    ∀ T, S.items = some T → ∀ w ∈ items, Passes L T w := by
  rw [passes_iff]
  constructor
  · rintro ⟨⟨hunknown, hfits, -, -⟩, hbelow⟩
    exact ⟨hunknown, hfits, fun T hT w hw => hbelow T w (.item hT hw)⟩
  · rintro ⟨hunknown, hfits, hitems⟩
    refine ⟨⟨hunknown, hfits, nofun, nofun⟩, fun T w h => ?_⟩
    cases h with
    | item hT hw => exact hitems T hT w hw

theorem passes_leaf (harray : ∀ items, v ≠ .array items) (hobject : ∀ fields, v ≠ .object fields) :
    Passes L S v ↔ S.unknown = [] ∧ Fits L S v := by
  rw [passes_iff]
  constructor
  · exact fun ⟨h, _⟩ => ⟨h.unknown, h.fits⟩
  · rintro ⟨hunknown, hfits⟩
    refine ⟨⟨hunknown, hfits, fun _ h => absurd h (hobject _), fun _ h => absurd h (hobject _)⟩,
      fun T w h => ?_⟩
    cases h with
    | item => exact absurd rfl (harray _)
    | declared => exact absurd rfl (hobject _)
    | additional => exact absurd rfl (hobject _)

theorem leaf_nil (harray : ∀ items, v ≠ .array items) (hobject : ∀ fields, v ≠ .object fields) :
    levelFaults L schemaName S subject v [] = [] ↔ Passes L S v := by
  rw [levelFaults_nil, passes_leaf harray hobject]
  simp

mutual

theorem validate_nil (L : Language) (schemaName : Text) : ∀ (v : Value Text) (S : Schema)
    (subject : Text), validate L schemaName S subject v = [] ↔ Passes L S v
  | .null, S, subject => by
    rw [validate]
    exact leaf_nil nofun nofun
  | .bool b, S, subject => by
    rw [validate]
    exact leaf_nil nofun nofun
  | .number n, S, subject => by
    rw [validate]
    exact leaf_nil nofun nofun
  | .string t, S, subject => by
    rw [validate]
    exact leaf_nil nofun nofun
  | .array items, S, subject => by
    rw [validate, levelFaults_nil, passes_array]
    cases hi : S.items with
    | none => simp
    | some T => simp [validateItems_nil L schemaName items T subject 0]
  | .object fields, S, subject => by
    rw [validate, levelFaults_nil, passes_object, List.append_eq_nil_iff, missingFaults_nil,
      validateFields_nil L schemaName fields S subject]

theorem validateItems_nil (L : Language) (schemaName : Text) : ∀ (items : List (Value Text))
    (T : Schema) (subject : Text) (i : Nat),
    validateItems L schemaName T subject i items = [] ↔ ∀ w ∈ items, Passes L T w
  | [], T, subject, i => by simp [validateItems]
  | item :: items, T, subject, i => by
    rw [validateItems, List.append_eq_nil_iff, validate_nil L schemaName item,
      validateItems_nil L schemaName items, List.forall_mem_cons]

theorem validateFields_nil (L : Language) (schemaName : Text) : ∀ (fields : List (Text × Value Text))
    (S : Schema) (subject : Text), validateFields L schemaName S subject fields = [] ↔
      ∀ name w, (name, w) ∈ fields → FieldPasses L S name w
  | [], S, subject => by simp [validateFields]
  | (name, child) :: fields, S, subject => by
    have hchild := fun T => validate_nil L schemaName child T (fieldOf subject name)
    rw [validateFields, List.append_eq_nil_iff, validateFields_nil L schemaName fields, fields_cons]
    refine and_congr ?_ Iff.rfl
    unfold FieldPasses
    cases S.declared name with
    | some T => simp [hchild]
    | none =>
      cases inherited name with
      | true => simp [hchild, passes_inherited]
      | false => cases S.additional <;> simp [hchild]

end

/-! ## The levels passed over -/

theorem Asked.below {a b : Schema × Value Text} (h : Asked a b) : Below a b := by
  cases h with
  | item hT hw => exact .item hT hw
  | declared hmem hT => exact .declared hmem hT
  | additional hmem hnone _ hT => exact .additional hmem hnone hT

theorem reaches_of_asked {a b : Schema × Value Text} (h : ReflTransGen Asked a b) : Reaches a b :=
  ReflTransGen.mono (fun _ _ hask => Asked.below hask) _ _ h

/-- At no level that is looked at an inherited name makes a difference. -/
def Straight (L : Language) (S : Schema) (v : Value Text) : Prop :=
  ∀ T w, ReflTransGen Asked (S, v) (T, w) → ¬ Turns L T w

theorem Straight.asked (h : Straight L S v) (hask : Asked (S, v) (T, w)) : Straight L T w :=
  fun U x hx => h U x (.head hask hx)

/-- What is valid has no fault: the validator looks at levels of the value, and asks no more of them. -/
theorem passes_of_valid (hknown : Known S v) (hvalid : Valid L S v) : Passes L S v := by
  intro T w hask
  have hreach := reaches_of_asked hask
  have hlevel := hvalid T w hreach
  exact ⟨hknown T w hreach, hlevel.fits, fun fields h name hname _ => hlevel.required fields h name hname,
    fun fields h name child hmem hnone _ => hlevel.declared fields h name child hmem hnone⟩

theorem level_valid (hlevel : Faultless L S v) (hturns : ¬ Turns L S v) : LevelValid L S v := by
  refine ⟨hlevel.fits, fun fields h name hname => ?_, fun fields h name child hmem hnone hrefused => ?_⟩
  · subst h
    by_cases hown : inherited name = true
    · by_contra hmissing
      exact hturns (.missing hname hown (Option.not_isSome_iff_eq_none.1 hmissing))
    · exact hlevel.required fields rfl name hname (Bool.eq_false_iff.2 hown)
  · subst h
    by_cases hown : inherited name = true
    · exact hturns (.refused hmem hnone hown hrefused)
    · exact hlevel.declared fields rfl name child hmem hnone (Bool.eq_false_iff.2 hown) hrefused

/-- A level below is looked at, or is one of an additional property with an inherited name. -/
theorem Below.asked_or (h : Below (S, v) (T, w)) (hturns : ¬ Turns L S v) :
    Asked (S, v) (T, w) ∨ Known T w ∧ Valid L T w := by
  cases h with
  | item hT hw => exact .inl (.item hT hw)
  | declared hmem hT => exact .inl (.declared hmem hT)
  | @additional _ _ _ name _ hmem hnone hT =>
    by_cases hown : inherited name = true
    · exact .inr (by_contra fun hnot => hturns (.additional hmem hnone hown hT hnot))
    · exact .inl (.additional hmem hnone (Bool.eq_false_iff.2 hown) hT)

theorem levels_of_passes {a b : Schema × Value Text} (hreach : Reaches a b) :
    Passes L a.1 a.2 → Straight L a.1 a.2 → b.1.unknown = [] ∧ LevelValid L b.1 b.2 := by
  induction hreach using ReflTransGen.head_induction_on with
  | refl =>
    intro hpasses hstraight
    have hlevel := hpasses _ _ .refl
    exact ⟨hlevel.unknown, level_valid hlevel (hstraight _ _ .refl)⟩
  | head hbelow hrest ih =>
    intro hpasses hstraight
    rcases hbelow.asked_or (hstraight _ _ .refl) with hask | ⟨hknown, hvalid⟩
    · exact ih ((passes_iff.1 hpasses).2 _ _ hask) (hstraight.asked hask)
    · exact ⟨hknown _ _ hrest, hvalid _ _ hrest⟩

theorem valid_of_passes (hpasses : Passes L S v) (hstraight : Straight L S v) :
    Known S v ∧ Valid L S v :=
  ⟨fun _ _ hreach => (levels_of_passes hreach hpasses hstraight).1,
    fun _ _ hreach => (levels_of_passes hreach hpasses hstraight).2⟩

/-- Where an inherited name makes a difference, the value is not valid. -/
theorem Turns.invalid (h : Turns L S v) (hknown : Known S v) : ¬ Valid L S v := by
  intro hvalid
  have hlevel := hvalid S v .refl
  cases h with
  | missing hname _ hnone => simpa [hnone] using hlevel.required _ rfl _ hname
  | refused hmem hnone _ hrefused => exact hlevel.declared _ rfl _ _ hmem hnone hrefused
  | additional hmem hnone _ hT hnot =>
    have hbelow := Below.additional hmem hnone hT
    exact hnot ⟨fun U x hx => hknown U x (.head hbelow hx), fun U x hx => hvalid U x (.head hbelow hx)⟩

theorem straight_of_valid (hknown : Known S v) (hvalid : Valid L S v) : Straight L S v := by
  intro T w hask hturns
  have hreach := reaches_of_asked hask
  exact hturns.invalid (fun U x hx => hknown U x (hreach.trans hx))
    fun U x hx => hvalid U x (hreach.trans hx)

theorem means_iff : Means L schemaName S subject v ↔
    (∃ T w, ReflTransGen Asked (S, v) (T, w) ∧ ¬ Faultless L T w) ∨ Straight L S v := by
  have hpasses : (∃ T w, ReflTransGen Asked (S, v) (T, w) ∧ ¬ Faultless L T w) ↔ ¬ Passes L S v := by
    simp [Passes]
  rw [hpasses, Means, ne_eq, validate_nil]
  constructor
  · rintro ⟨hknown, hunknown⟩
    by_cases hp : Passes L S v
    · have hk : Known S v := by_contra fun hnot => hunknown hnot hp
      exact .inr (straight_of_valid hk ((hknown hk).1 hp))
    · exact .inl hp
  · rintro (hp | hstraight)
    · exact ⟨fun hk => ⟨fun h => absurd h hp, passes_of_valid hk⟩, fun _ => hp⟩
    · exact ⟨fun hk => ⟨fun h => (valid_of_passes h hstraight).2, passes_of_valid hk⟩,
        fun hnot h => hnot (valid_of_passes h hstraight).1⟩

/-! ## A record with a field `constructor` -/

/-- Any expression matches, nothing is written. -/
def silent : Language where
  test := fun _ _ => true
  test_empty := fun _ => rfl
  json := fun _ => []
  number := fun _ => []

/-- Exact keys: one declared property, and no other. -/
def exactKeys : Schema :=
  { type := some .object
    properties := [(ofString "schema", { type := some .string })]
    additional := .refused }

def crafted : Value Text :=
  .object [(ofString "schema", .string (ofString "carbon.message.v1")), (ofString "constructor", .number 1)]

theorem crafted_accepted : validate silent (ofString "exact") exactKeys (ofString "$") crafted = [] ∧
    ¬ Valid silent exactKeys crafted := by
  refine ⟨?_, fun hvalid => ?_⟩
  · decide +kernel
  · have hlevel := hvalid _ _ .refl
    exact hlevel.declared _ rfl (ofString "constructor") (.number 1) (.tail _ (.head _)) (by decide) rfl

/-- Exact keys, and a field of an inherited name is not faulted. -/
theorem constructor_accepted : ¬ ∀ (L : Language) (schemaName : Text) (S : Schema) (subject : Text)
    (v : Value Text), Means L schemaName S subject v := by
  intro hmeans
  obtain ⟨hknown, hunknown⟩ := hmeans silent (ofString "exact") exactKeys (ofString "$") crafted
  by_cases hk : Known exactKeys crafted
  · exact crafted_accepted.2 ((hknown hk).1 crafted_accepted.1)
  · exact hunknown hk crafted_accepted.1

end CarbonRuntime.Bugs.InheritedName
