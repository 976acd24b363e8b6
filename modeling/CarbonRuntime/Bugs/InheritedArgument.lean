import CarbonRuntime.Tools.Args

/-!
# An argument that every object has

Whether an argument is declared, and whether it was passed, is asked with `in` (tools/lib/args.ts:81, 128-146),
which says yes of `constructor`, `toString` and the other names every object inherits. An undeclared argument
of such a name is dropped without a fault, a required one is never missing, and an optional one that is
declared is judged by the function that is read in its place. An argument `__proto__` becomes the prototype of
the result instead of a field.

`arguments_iff`: for a schema without faults, the arguments are judged as the schema says exactly where no such
name makes a difference, and no object or array has to be one of an `enum`.

Counterexample: a tool without arguments, called with one named `constructor`.
-/

open CarbonRuntime.Core Utf16

namespace CarbonRuntime.Bugs.InheritedArgument

open Tools
open Schemas (inherited)

variable {L : Tools.Language} {at_ name : Text} {schema spec v w : Value Text} {given : List (Text × Value Text)}

/-! ## What a schema says of arguments -/

inductive HasType : Value Text → Text → Prop
  | null : HasType .null (ofString "null")
  | bool (b : Bool) : HasType (.bool b) (ofString "boolean")
  | number (n : Rat) : HasType (.number n) (ofString "number")
  | integer (n : Rat) : n.den = 1 → HasType (.number n) (ofString "integer")
  | string (t : Text) : HasType (.string t) (ofString "string")
  | array (items : List (Value Text)) : HasType (.array items) (ofString "array")
  | object (fields : List (Text × Value Text)) : HasType (.object fields) (ofString "object")

/-- One value of JSON: objects are the same whatever the order of their fields. -/
inductive Same : Value Text → Value Text → Prop
  | null : Same .null .null
  | bool (b : Bool) : Same (.bool b) (.bool b)
  | number (n : Rat) : Same (.number n) (.number n)
  | string (t : Text) : Same (.string t) (.string t)
  | array {l m : List (Value Text)} : List.Forall₂ Same l m → Same (.array l) (.array m)
  | object {f g : List (Text × Value Text)} :
      (∀ name, Option.Rel Same (lookup name f) (lookup name g)) → Same (.object f) (.object g)

/-- The property declares the type. -/
def Declares (spec : Value Text) (type : Text) : Prop :=
  some (Value.string type) ∈ typesOf (spec.field (ofString "type"))

/-- The values a property permits, where it lists them. -/
def Permits (spec : Value Text) (permitted : List (Value Text)) : Prop :=
  spec.field (ofString "enum") = some (.array permitted)

structure Conforms (spec v : Value Text) : Prop where
  type : ∃ type, Declares spec type ∧ HasType v type
  permitted : ∀ l, Permits spec l → ∃ e ∈ l, Same e v

/-- The name is one the schema requires. -/
def Requires (L : Tools.Language) (schema : Value Text) (name : Text) : Prop :=
  ∃ v ∈ requiredOf schema, L.text v = some name

/-- The argument offends the schema: it is not declared, it is required and missing, or its value does not
conform. -/
inductive Offends (L : Tools.Language) (schema : Value Text) (given : List (Text × Value Text)) (name : Text) : Prop
  | undeclared : (lookup name given).isSome → (∀ spec, (name, spec) ∉ entries (propertiesOf schema)) →
      Offends L schema given name
  | missing : Requires L schema name → lookup name given = none → Offends L schema given name
  | value {spec v : Value Text} : (name, spec) ∈ entries (propertiesOf schema) → lookup name given = some v →
      ¬ Conforms spec v → Offends L schema given name

/-- The arguments are judged as the schema says. -/
structure Judged (L : Tools.Language) (at_ : Text) (schema : Value Text) (given : List (Text × Value Text)) : Prop where
  accepts : (∃ out, parseArguments L at_ schema (some (.object given)) = .ok out) ↔
    ∀ name, ¬ Offends L schema given name
  exact : ∀ out, parseArguments L at_ schema (some (.object given)) = .ok out →
    ∀ name, lookup name out = (lookup name given).map .value
  reports : ∀ faults, parseArguments L at_ schema (some (.object given)) = .error (.faults faults) →
    ∀ name, Offends L schema given name → ∃ f ∈ faults, f.subject = nameOf at_ name

/-! ## Where a name makes a difference -/

/-- What an object inherits under the name is no value of the property. -/
def Unfit (spec : Value Text) (name : Text) : Prop :=
  name ≠ ofString "__proto__" ∨ ¬ Declares spec (ofString "object") ∨ ∃ l, Permits spec l

/-- An object or an array. -/
def compound : Value Text → Bool
  | .array _ | .object _ => true
  | _ => false

structure Clear (L : Tools.Language) (schema : Value Text) (given : List (Text × Value Text)) : Prop where
  /-- An argument that is passed is declared, or is no name that the declarations inherit. -/
  passed : ∀ name, (lookup name given).isSome → isIn L name (propertiesOf schema) = true →
    ∃ spec, (name, spec) ∈ entries (propertiesOf schema)
  /-- A required argument that is not passed has no inherited name, or one that its property does not take. -/
  required : ∀ name, Requires L schema name → lookup name given = none → inherited name = true →
    ∃ spec, (name, spec) ∈ entries (propertiesOf schema) ∧ Unfit spec name
  /-- Where no argument offends, a declared one of an inherited name is passed or taken as it is inherited. -/
  optional : (∀ name, ¬ Offends L schema given name) → ∀ name spec,
    (name, spec) ∈ entries (propertiesOf schema) → lookup name given = none → inherited name = true → ¬ Unfit spec name
  /-- Then no object or array is one of an `enum`. -/
  permitted : (∀ name, ¬ Offends L schema given name) → ∀ name spec v,
    (name, spec) ∈ entries (propertiesOf schema) → lookup name given = some v → compound v = true →
      ∀ l, ¬ Permits spec l
  /-- Then no argument is called `__proto__`. -/
  prototype : (∀ name, ¬ Offends L schema given name) → lookup (ofString "__proto__") given = none

/-! ## Values -/

theorem same_of_sameValue (h : sameValue v w = true) : Same v w := by
  cases v <;> cases w <;> simp only [sameValue, decide_eq_true_eq, Bool.false_eq_true] at h
  · exact .null
  · exact h ▸ .bool _
  · exact h ▸ .number _
  · exact h ▸ .string _

theorem sameValue_of_same (h : Same v w) (hw : compound w = false) : sameValue v w = true := by
  cases h with
  | array _ => cases hw
  | object _ => cases hw
  | _ => simp [sameValue]

theorem eq_of_sameValue (h : sameValue v w = true) : v = w := by
  cases v <;> cases w <;> simp_all [sameValue]

theorem sameValue_compound (hw : compound w = true) : sameValue v w = false := by
  cases v <;> cases w <;> first | rfl | cases hw

/-- A value has the type it is said to be of, and an integer is a number too. -/
theorem hasType_iff {type : Text} : HasType v type ↔ typeOf (.value v) = type ∨
    type = ofString "number" ∧ typeOf (.value v) = ofString "integer" := by
  constructor
  · intro h
    cases h with
    | number n =>
      by_cases hn : n.den = 1
      · exact .inr ⟨rfl, by rw [typeOf, if_pos hn]⟩
      · exact .inl (by rw [typeOf, if_neg hn])
    | integer n hn => exact .inl (by rw [typeOf, if_pos hn])
    | _ => exact .inl rfl
  · intro h
    cases v with
    | number n =>
      by_cases hn : n.den = 1
      · rw [typeOf, if_pos hn] at h
        rcases h with rfl | ⟨rfl, -⟩
        · exact .integer n hn
        · exact .number n
      · rw [typeOf, if_neg hn] at h
        rcases h with rfl | ⟨-, h⟩
        · exact .number n
        · exact absurd h (by decide)
    | null => exact h.elim (fun h => h ▸ .null) fun h => absurd h.2 (by simp only [typeOf]; decide)
    | bool b => exact h.elim (fun h => h ▸ .bool b) fun h => absurd h.2 (by simp only [typeOf]; decide)
    | string t => exact h.elim (fun h => h ▸ .string t) fun h => absurd h.2 (by simp only [typeOf]; decide)
    | array l => exact h.elim (fun h => h ▸ .array l) fun h => absurd h.2 (by simp only [typeOf]; decide)
    | object f => exact h.elim (fun h => h ▸ .object f) fun h => absurd h.2 (by simp only [typeOf]; decide)

theorem typeOk_iff {declared : Option (Value Text)} {r : Read} : typeOk declared r = true ↔
    ∃ type, some (Value.string type) ∈ typesOf declared ∧ (typeOf r = type ∨
      type = ofString "number" ∧ typeOf r = ofString "integer") := by
  rw [typeOk, List.any_eq_true]
  constructor
  · rintro ⟨type, htype, h⟩
    split at h
    · rename_i t
      refine ⟨t, htype, ?_⟩
      split at h
      · rename_i ht
        simp only [decide_eq_true_eq] at h
        exact h.imp (fun h => h.trans ht.symm) fun h => ⟨ht, h⟩
      · split at h
        · rename_i ht
          exact .inl ((of_decide_eq_true h).trans ht.symm)
        · exact .inl (of_decide_eq_true h)
    · cases h
  · rintro ⟨t, htype, h⟩
    refine ⟨_, htype, ?_⟩
    simp only
    split
    · rename_i ht
      rw [decide_eq_true_eq]
      exact h.imp (fun h => h.trans ht) fun h => h.2
    · rename_i hnumber
      have ht : typeOf r = t := h.resolve_right fun h => hnumber h.1
      split
      · rename_i hint
        exact decide_eq_true (ht.trans hint)
      · exact decide_eq_true ht

/-! ## A property's faults -/

theorem valueFaults_nil {r : Read} : valueFaults L at_ name spec r = [] ↔
    typeOk (spec.field (ofString "type")) r = true ∧ ∀ l, Permits spec l → includes l r = true := by
  unfold valueFaults Permits
  dsimp only
  cases htype : typeOk (spec.field (ofString "type")) r with
  | false => simp
  | true =>
    simp only [Bool.not_true, Bool.false_eq_true, if_false, true_and]
    split
    · rename_i l hl
      simp only [hl, Option.some.injEq, Value.array.injEq, forall_eq']
      split <;> simp_all
    · rename_i hne
      exact ⟨fun _ l hl => absurd hl (hne l), fun _ => rfl⟩

/-- What is passed has no fault exactly where it conforms, an object or array that has to be in a list apart. -/
theorem value_conforms (h : valueFaults L at_ name spec (.value v) = []) : Conforms spec v := by
  obtain ⟨htype, hpermitted⟩ := valueFaults_nil.1 h
  obtain ⟨type, hdeclared, hof⟩ := typeOk_iff.1 htype
  refine ⟨⟨type, hdeclared, hasType_iff.2 hof⟩, fun l hl => ?_⟩
  obtain ⟨e, he, hsame⟩ := List.any_eq_true.1 (hpermitted l hl)
  have := eq_of_sameValue hsame
  subst this
  exact ⟨v, he, same_of_sameValue hsame⟩

theorem conforms_value (h : Conforms spec v) (hv : compound v = true → ∀ l, ¬ Permits spec l) :
    valueFaults L at_ name spec (.value v) = [] := by
  obtain ⟨type, hdeclared, hof⟩ := h.type
  refine valueFaults_nil.2 ⟨typeOk_iff.2 ⟨type, hdeclared, hasType_iff.1 hof⟩, fun l hl => ?_⟩
  obtain ⟨e, he, hsame⟩ := h.permitted l hl
  refine List.any_eq_true.2 ⟨e, he, ?_⟩
  -- `includes` asks for identity: of an object or array there is no list
  cases hc : compound v with
  | false =>
    have heq := sameValue_of_same hsame hc
    obtain rfl := eq_of_sameValue heq
    exact heq
  | true => exact absurd hl (hv hc l)

/-- The read of an inherited name. -/
def inheritedRead (name : Text) : Read := if name = ofString "__proto__" then .prototype else .function

/-- What an object inherits has a fault exactly where it is unfit, the types being known ones. -/
theorem inherited_nil (htypes : ∀ t ∈ typesOf (spec.field (ofString "type")), isTypeName t = true) :
    valueFaults L at_ name spec (inheritedRead name) = [] ↔ ¬ Unfit spec name := by
  have hnames : ∀ {t : Text}, Declares spec t → t ∈ typeNames := fun ht => of_decide_eq_true (htypes _ ht)
  rw [valueFaults_nil, typeOk_iff, Unfit]
  unfold inheritedRead
  by_cases hproto : name = ofString "__proto__"
  · rw [if_pos hproto]
    simp only [hproto, ne_eq, not_true_eq_false, false_or, not_or, not_not, not_exists]
    refine and_congr ⟨?_, fun h => ⟨_, h, .inl rfl⟩⟩ (forall_congr' fun l => ⟨fun h hl => ?_, fun h hl => absurd hl h⟩)
    · rintro ⟨type, htype, rfl | ⟨-, h⟩⟩
      · exact htype
      · exact absurd h (by simp only [typeOf]; decide)
    · have := h hl
      simp [includes] at this
  · rw [if_neg hproto]
    simp only [ne_eq, hproto, not_false_eq_true, true_or, not_true_eq_false, iff_false, not_and]
    rintro ⟨type, htype, rfl | ⟨-, h⟩⟩
    · exact absurd (hnames htype) (by simp only [typeOf]; decide)
    · exact absurd h (by simp only [typeOf]; decide)

/-! ## A schema without faults -/

theorem isIn_of_entry (h : (name, spec) ∈ entries v) : isIn L name v = true := by
  unfold isIn
  rw [List.any_eq_true.2 ⟨(name, spec), h, by simp⟩, Bool.true_or]

theorem isIn_inherited (h : inherited name = true) : isIn L name v = true := by
  have hmem := L.arrayNames_inherited name h
  cases v <;> simp [isIn, h, hmem]

/-- Required names are keys, and the types are known ones. -/
theorem checked_parts (h : checkSchema L at_ schema = some []) :
    (∃ fields, schema = .object fields) ∧ (∃ keys, (requiredOf schema).mapM L.text = some keys) ∧
      ∀ entry ∈ entries (propertiesOf schema), ∀ t ∈ typesOf (entry.2.field (ofString "type")), isTypeName t = true := by
  unfold checkSchema at h
  split at h
  · rename_i fields
    simp only [bind, Option.bind, pure] at h
    split at h
    · cases h
    · rename_i keys hkeys
      simp only [Option.some.injEq, List.append_eq_nil_iff, List.flatMap_eq_nil_iff] at h
      refine ⟨⟨fields, rfl⟩, ⟨keys, hkeys⟩, fun entry hentry t ht => ?_⟩
      have hentryFaults := h.1.2 entry hentry
      unfold propertyFaults at hentryFaults
      dsimp only at hentryFaults
      split at hentryFaults
      all_goals first
        | (simp only [List.append_eq_nil_iff] at hentryFaults
           have htypes := hentryFaults.1.2
           split at htypes
           · cases htypes
           · rename_i hall
             simp only [not_or, not_not] at hall
             exact List.all_eq_true.1 hall.2 t ht)
        | cases hentryFaults
  · cases h

theorem mem_distinct {l : List (Value Text)} : v ∈ distinct l ↔ v ∈ l := by
  induction l with
  | nil => simp [distinct]
  | cons w l ih =>
    rw [distinct, List.mem_cons, List.mem_cons, List.mem_filter, ih]
    constructor
    · rintro (h | ⟨h, -⟩)
      · exact .inl h
      · exact .inr h
    · rintro (h | h)
      · exact .inl h
      · cases hs : sameValue w v with
        | true => exact .inl (eq_of_sameValue hs).symm
        | false => exact .inr ⟨h, rfl⟩

theorem mapM_parts {α β : Type} {f : α → Option β} {l : List α} {m : List β} (h : l.mapM f = some m) :
    (∀ a ∈ l, ∃ b, f a = some b) ∧ ∀ b, b ∈ m ↔ ∃ a ∈ l, f a = some b := by
  induction l generalizing m with
  | nil =>
    rw [List.mapM_nil] at h
    cases h
    simp
  | cons a l ih =>
    rw [List.mapM_cons] at h
    cases ha : f a with
    | none => simp [ha] at h
    | some c =>
      cases hl : l.mapM f with
      | none => simp [ha, hl] at h
      | some cs =>
        simp only [ha, hl, Option.bind_eq_bind, Option.bind_some, Option.pure_def, Option.some.injEq] at h
        subst h
        refine ⟨fun b hb => ?_, fun b => by simp [(ih hl).2, ha, eq_comm]⟩
        rcases List.mem_cons.1 hb with rfl | hb
        · exact ⟨c, ha⟩
        · exact (ih hl).1 b hb

/-- A fault of the arguments of a schema without faults: of an argument that is passed and not declared, of one
that is required and not found, or of what is found under a declared name. -/
theorem mem_faults (given : List (Text × Value Text)) (h : checkSchema L at_ schema = some []) :
    ∃ faults, argumentFaults L at_ schema given = some faults ∧
    ∀ f, f ∈ faults ↔
      (∃ name, (lookup name given).isSome ∧ isIn L name (propertiesOf schema) = false ∧
        f = undeclared at_ (propertiesOf schema) name) ∨
      (∃ name, Requires L schema name ∧ readOf given name = none ∧ f = missing L at_ (propertiesOf schema) name) ∨
      ∃ name spec r, (name, spec) ∈ entries (propertiesOf schema) ∧ readOf given name = some r ∧
        f ∈ valueFaults L at_ name spec r := by
  obtain ⟨-, ⟨keys, hkeys⟩, -⟩ := checked_parts h
  obtain ⟨names, hnames, -⟩ := exists_mapM (f := L.text) (l := distinct (requiredOf schema)) fun v hv =>
    (mapM_parts hkeys).1 v (mem_distinct.1 hv)
  have hrequires : ∀ name, name ∈ names ↔ Requires L schema name := fun name => by
    rw [(mapM_parts hnames).2, Requires]
    exact exists_congr fun v => and_congr_left fun _ => mem_distinct
  have hpassed : ∀ name, name ∈ given.map (·.1) ↔ (lookup name given).isSome = true := fun name => by
    simp only [lookup, Option.isSome_map, List.find?_isSome, List.mem_map, decide_eq_true_eq]
  refine ⟨_, by rw [argumentFaults, hnames]; rfl, fun f => ?_⟩
  simp only [List.mem_append, List.mem_map, List.mem_filter, List.mem_flatMap, hpassed, hrequires, or_assoc,
    Bool.not_eq_true', Option.isNone_iff_eq_none, and_assoc, Prod.exists, eq_comm (a := f)]
  refine or_congr Iff.rfl (or_congr Iff.rfl (exists_congr fun name => exists_congr fun spec => ?_))
  cases readOf given name <;> simp

/-! ## The result -/

@[simp] theorem lookup_nil {α : Type} : lookup name ([] : List (Text × α)) = none := rfl

theorem lookup_cons {α : Type} {f : Text × α} {l : List (Text × α)} :
    lookup name (f :: l) = if f.1 = name then some f.2 else lookup name l := by
  unfold lookup
  rw [List.find?_cons]
  by_cases h : f.1 = name <;> simp [h]

theorem lookup_append {α : Type} {f : Text × α} {l : List (Text × α)} :
    lookup name (l ++ [f]) = (lookup name l).or (if f.1 = name then some f.2 else none) := by
  induction l with
  | nil => simp [lookup_cons]
  | cons g l ih =>
    rw [List.cons_append, lookup_cons, lookup_cons, ih]
    split <;> simp

theorem lookup_eq_none {α : Type} {l : List (Text × α)} (h : ¬ l.any (·.1 = name)) : lookup name l = none := by
  rw [lookup, Option.map_eq_none_iff, List.find?_eq_none]
  exact fun f hf he => h (List.any_eq_true.2 ⟨f, hf, he⟩)

/-- An assignment gives the field, and leaves the others. -/
theorem lookup_assign {out : List (Text × Read)} {key : Text} {r : Read} (hkey : key ≠ ofString "__proto__") :
    lookup name (assign out key r) = if key = name then some r else lookup name out := by
  rw [assign, if_neg hkey]
  split
  · rename_i hany
    induction out with
    | nil => simp at hany
    | cons f out ih =>
      rw [List.map_cons, lookup_cons, lookup_cons]
      by_cases hf : f.1 = key
      · rw [if_pos hf]
        by_cases hname : key = name
        · simp [hname]
        · have hrest : lookup name (out.map fun f => if f.1 = key then (key, r) else f) = lookup name out := by
            clear ih hany
            induction out with
            | nil => rfl
            | cons g out ih =>
              rw [List.map_cons, lookup_cons, lookup_cons, ih]
              by_cases hg : g.1 = key
              · simp [hg, hname]
              · rw [if_neg hg]
          rw [hrest]
          simp [hname, hf]
      · rw [if_neg hf, ih (by simpa [hf] using hany)]
        by_cases hname : key = name
        · rw [if_neg fun h => hf (h.trans hname.symm), if_pos hname, if_pos hname]
        · rw [if_neg hname, if_neg hname]
  · rename_i hany
    rw [lookup_append]
    by_cases hname : key = name
    · subst hname
      simp [lookup_eq_none hany]
    · simp [hname]

/-- The fields taken, one declared name after the other. -/
def takeFrom (given : List (Text × Value Text)) (out : List (Text × Read)) (l : List (Text × Value Text)) :
    List (Text × Read) :=
  l.foldl (fun out (name, _) =>
    match readOf given name with
    | some v => assign out name v
    | none => out) out

theorem takeFrom_other {l : List (Text × Value Text)} {out : List (Text × Read)}
    (h : name = ofString "__proto__" ∨ readOf given name = none ∨ ∀ spec, (name, spec) ∉ l) :
    lookup name (takeFrom given out l) = lookup name out := by
  induction l generalizing out with
  | nil => rfl
  | cons entry l ih =>
    have hstep : takeFrom given out (entry :: l) = takeFrom given
        (match readOf given entry.1 with
          | some v => assign out entry.1 v
          | none => out) l := rfl
    rw [hstep, ih (h.imp_right (.imp_right fun h spec hs => h spec (List.mem_cons_of_mem _ hs)))]
    split
    · rename_i v hv
      by_cases hproto : entry.1 = ofString "__proto__"
      · rw [assign, if_pos hproto]
      · have hne : entry.1 ≠ name := by
          rintro rfl
          rcases h with h | h | h
          · exact hproto h
          · rw [hv] at h
            cases h
          · exact h entry.2 List.mem_cons_self
        rw [lookup_assign hproto, if_neg hne]
    · rfl

theorem takeFrom_read {l : List (Text × Value Text)} {out : List (Text × Read)} {r : Read}
    (hproto : name ≠ ofString "__proto__") (hr : readOf given name = some r)
    (h : (∃ spec, (name, spec) ∈ l) ∨ lookup name out = some r) : lookup name (takeFrom given out l) = some r := by
  induction l generalizing out with
  | nil => exact h.resolve_left fun ⟨spec, hs⟩ => List.not_mem_nil hs
  | cons entry l ih =>
    have hstep : takeFrom given out (entry :: l) = takeFrom given
        (match readOf given entry.1 with
          | some v => assign out entry.1 v
          | none => out) l := rfl
    rw [hstep]
    refine ih ?_
    by_cases hentry : entry.1 = name
    · right
      simp only [hentry, hr]
      rw [lookup_assign hproto, if_pos rfl]
    · refine h.imp (fun ⟨spec, hs⟩ => ⟨spec, (List.mem_cons.1 hs).resolve_left fun he => hentry (by rw [← he])⟩)
        fun hout => ?_
      split
      · by_cases hp : entry.1 = ofString "__proto__"
        · rw [assign, if_pos hp, hout]
        · rw [lookup_assign hp, if_neg hentry, hout]
      · exact hout

/-! ## When the arguments are judged as the schema says -/

theorem nameOf_inj {a b : Text} : nameOf at_ a = nameOf at_ b ↔ a = b := by
  simp [nameOf]

theorem subject_of_value {r : Read} {f : Schemas.SchemaFault} (h : f ∈ valueFaults L at_ name spec r) :
    f.subject = nameOf at_ name := by
  unfold valueFaults at h
  dsimp only at h
  split at h
  · rw [List.mem_singleton.1 h]
  · split at h
    · split at h
      · cases h
      · rw [List.mem_singleton.1 h]
    · cases h

theorem readOf_cases {r : Read} (h : readOf given name = some r) :
    (∃ v, lookup name given = some v ∧ r = .value v) ∨
      lookup name given = none ∧ inherited name = true ∧ r = inheritedRead name := by
  unfold readOf at h
  split at h
  · rename_i v hv
    exact .inl ⟨v, hv, (Option.some.inj h).symm⟩
  · rename_i hnone
    split at h
    · rename_i hi
      exact .inr ⟨hnone, hi, (Option.some.inj h).symm⟩
    · cases h

theorem readOf_passed (h : lookup name given = some v) : readOf given name = some (.value v) := by
  rw [readOf, h]

theorem readOf_inherited (h : lookup name given = none) (hi : inherited name = true) :
    readOf given name = some (inheritedRead name) := by
  rw [readOf, h]
  exact if_pos hi

theorem readOf_none (h : lookup name given = none) (hi : inherited name = false) : readOf given name = none := by
  rw [readOf, h]
  simp [hi]

/-- A checked schema takes the arguments of which there is no fault, and lists the faults of others. -/
theorem parse_cases (given : List (Text × Value Text)) (h : checkSchema L at_ schema = some []) :
    ∃ faults, argumentFaults L at_ schema given = some faults ∧
    ((faults = [] ∧ parseArguments L at_ schema (some (.object given)) =
        .ok (takeFrom given [] (entries (propertiesOf schema)))) ∨
      faults ≠ [] ∧ parseArguments L at_ schema (some (.object given)) = .error (.faults faults)) := by
  obtain ⟨⟨fields, rfl⟩, -, -⟩ := checked_parts h
  obtain ⟨faults, hfaults, -⟩ := mem_faults given h
  refine ⟨faults, hfaults, ?_⟩
  cases faults with
  | nil => exact .inl ⟨rfl, by simp only [parseArguments, Option.getD_some, parseArguments.parse, hfaults]; rfl⟩
  | cons f faults =>
    exact .inr ⟨by simp, by simp only [parseArguments, Option.getD_some, parseArguments.parse, hfaults]⟩

/-- No fault of an argument names another. -/
theorem subject_iff (h : checkSchema L at_ schema = some []) {faults : List Schemas.SchemaFault}
    (hfaults : argumentFaults L at_ schema given = some faults) : (∃ f ∈ faults, f.subject = nameOf at_ name) ↔
      ((lookup name given).isSome ∧ isIn L name (propertiesOf schema) = false) ∨
      (Requires L schema name ∧ readOf given name = none) ∨
      ∃ spec r, (name, spec) ∈ entries (propertiesOf schema) ∧ readOf given name = some r ∧
        valueFaults L at_ name spec r ≠ [] := by
  obtain ⟨_, hfaults', hmem⟩ := mem_faults given h
  obtain rfl := Option.some.inj (hfaults.symm.trans hfaults')
  constructor
  · rintro ⟨f, hf, hsubject⟩
    rcases (hmem f).1 hf with ⟨n, h1, h2, rfl⟩ | ⟨n, h1, h2, rfl⟩ | ⟨n, spec, r, h1, h2, h3⟩
    · obtain rfl := nameOf_inj.1 hsubject
      exact .inl ⟨h1, h2⟩
    · obtain rfl := nameOf_inj.1 hsubject
      exact .inr (.inl ⟨h1, h2⟩)
    · obtain rfl := nameOf_inj.1 ((subject_of_value h3).symm.trans hsubject)
      exact .inr (.inr ⟨spec, r, h1, h2, List.ne_nil_of_mem h3⟩)
  · rintro (⟨h1, h2⟩ | ⟨h1, h2⟩ | ⟨spec, r, h1, h2, h3⟩)
    · exact ⟨_, (hmem _).2 (.inl ⟨name, h1, h2, rfl⟩), rfl⟩
    · exact ⟨_, (hmem _).2 (.inr (.inl ⟨name, h1, h2, rfl⟩)), rfl⟩
    · obtain ⟨f, hf⟩ := List.exists_mem_of_ne_nil _ h3
      exact ⟨f, (hmem f).2 (.inr (.inr ⟨name, spec, r, h1, h2, hf⟩)), subject_of_value hf⟩

/-- Every fault is about some name. -/
theorem exists_subject (h : checkSchema L at_ schema = some []) {faults : List Schemas.SchemaFault}
    (hfaults : argumentFaults L at_ schema given = some faults) :
    faults = [] ↔ ∀ name, ¬ ∃ f ∈ faults, f.subject = nameOf at_ name := by
  obtain ⟨_, hfaults', hmem⟩ := mem_faults given h
  obtain rfl := Option.some.inj (hfaults.symm.trans hfaults')
  constructor
  · rintro rfl name ⟨f, hf, -⟩
    cases hf
  · intro hnone
    by_contra hne
    obtain ⟨f, hf⟩ := List.exists_mem_of_ne_nil _ hne
    rcases (hmem f).1 hf with ⟨n, -, -, rfl⟩ | ⟨n, -, -, rfl⟩ | ⟨n, spec, r, -, -, hr⟩
    · exact hnone n ⟨_, hf, rfl⟩
    · exact hnone n ⟨_, hf, rfl⟩
    · exact hnone n ⟨_, hf, subject_of_value hr⟩

/-- What a clear schema and clear arguments leave: an offending name has a fault. -/
theorem reported (h : checkSchema L at_ schema = some []) (hclear : Clear L schema given)
    (hoff : Offends L schema given name) :
    ((lookup name given).isSome ∧ isIn L name (propertiesOf schema) = false) ∨
      (Requires L schema name ∧ readOf given name = none) ∨
      ∃ spec r, (name, spec) ∈ entries (propertiesOf schema) ∧ readOf given name = some r ∧
        valueFaults L at_ name spec r ≠ [] := by
  have htypes := (checked_parts h).2.2
  cases hoff with
  | undeclared hpassed hundeclared =>
    refine .inl ⟨hpassed, ?_⟩
    rw [← Bool.not_eq_true]
    intro hin
    obtain ⟨spec, hs⟩ := hclear.passed name hpassed hin
    exact hundeclared spec hs
  | missing hrequired hmissing =>
    cases hi : inherited name with
    | false => exact .inr (.inl ⟨hrequired, readOf_none hmissing hi⟩)
    | true =>
      obtain ⟨spec, hs, hunfit⟩ := hclear.required name hrequired hmissing hi
      refine .inr (.inr ⟨spec, _, hs, readOf_inherited hmissing hi, fun hnil => ?_⟩)
      exact (inherited_nil (htypes _ hs)).1 hnil hunfit
  | value hs hv hconforms =>
    exact .inr (.inr ⟨_, _, hs, readOf_passed hv, fun hnil => hconforms (value_conforms hnil)⟩)

/-- Where no argument offends and the names make no difference, there is no fault. -/
theorem unreported (h : checkSchema L at_ schema = some []) (hclear : Clear L schema given)
    (hgood : ∀ name, ¬ Offends L schema given name) {faults : List Schemas.SchemaFault}
    (hfaults : argumentFaults L at_ schema given = some faults) : faults = [] := by
  have htypes := (checked_parts h).2.2
  refine (exists_subject h hfaults).2 fun name hname => ?_
  rcases (subject_iff h hfaults).1 hname with ⟨hpassed, hin⟩ | ⟨hrequired, hread⟩ | ⟨spec, r, hs, hr, hne⟩
  · refine hgood name (.undeclared hpassed fun spec hs => ?_)
    rw [isIn_of_entry hs] at hin
    cases hin
  · cases hl : lookup name given with
    | none => exact hgood name (.missing hrequired hl)
    | some v =>
      rw [readOf_passed hl] at hread
      cases hread
  · rcases readOf_cases hr with ⟨v, hv, rfl⟩ | ⟨hl, hi, rfl⟩
    · have hconforms : Conforms spec v := by
        by_contra hnot
        exact hgood name (.value hs hv hnot)
      exact hne (conforms_value hconforms (hclear.permitted hgood name spec v hs hv))
    · exact hne ((inherited_nil (htypes _ hs)).2 (hclear.optional hgood name spec hs hl hi))

/-- What is taken where no argument offends is what was passed. -/
theorem taken_exact (hclear : Clear L schema given) (hgood : ∀ name, ¬ Offends L schema given name) (name : Text) :
    lookup name (takeFrom given [] (entries (propertiesOf schema))) = (lookup name given).map .value := by
  by_cases hproto : name = ofString "__proto__"
  · rw [takeFrom_other (.inl hproto), hproto, hclear.prototype hgood]
    rfl
  by_cases hdeclared : ∃ spec, (name, spec) ∈ entries (propertiesOf schema)
  · obtain ⟨spec, hs⟩ := hdeclared
    cases hl : lookup name given with
    | some v => exact takeFrom_read hproto (readOf_passed hl) (.inl ⟨spec, hs⟩)
    | none =>
      have hread : readOf given name = none := by
        refine readOf_none hl (by_contra fun hi => ?_)
        rw [Bool.not_eq_false] at hi
        exact hclear.optional hgood name spec hs hl hi (.inl hproto)
      rw [takeFrom_other (.inr (.inl hread))]
      rfl
  · have hnone : ∀ spec, (name, spec) ∉ entries (propertiesOf schema) := fun spec hs => hdeclared ⟨spec, hs⟩
    rw [takeFrom_other (.inr (.inr hnone))]
    cases hl : lookup name given with
    | none => rfl
    | some v => exact absurd (.undeclared (by rw [hl]; rfl) hnone) (hgood name)

/-- What is judged as the schema says is clear. -/
theorem clear_of_judged (h : checkSchema L at_ schema = some []) (hjudged : Judged L at_ schema given) :
    Clear L schema given := by
  have htypes := (checked_parts h).2.2
  obtain ⟨faults, hfaults, hparse⟩ := parse_cases given h
  -- an argument that offends is refused, with a fault that names it
  have hreported : ∀ name, Offends L schema given name → ∃ f ∈ faults, f.subject = nameOf at_ name := by
    intro name hoff
    rcases hparse with ⟨-, hok⟩ | ⟨-, herror⟩
    · exact absurd hoff (hjudged.accepts.1 ⟨_, hok⟩ name)
    · exact hjudged.reports _ herror name hoff
  have hgood : (∀ name, ¬ Offends L schema given name) → faults = [] ∧
      parseArguments L at_ schema (some (.object given)) =
        .ok (takeFrom given [] (entries (propertiesOf schema))) := by
    intro hgood
    obtain ⟨out, hout⟩ := hjudged.accepts.2 hgood
    rcases hparse with hok | ⟨-, herror⟩
    · exact hok
    · rw [hout] at herror
      cases herror
  have hnil : (∀ name, ¬ Offends L schema given name) → ∀ {name spec r}, (name, spec) ∈ entries (propertiesOf schema) →
      readOf given name = some r → valueFaults L at_ name spec r = [] := by
    intro hg name spec r hs hr
    by_contra hne
    have hname := (subject_iff h hfaults).2 (.inr (.inr ⟨spec, r, hs, hr, hne⟩))
    exact (exists_subject h hfaults).1 (hgood hg).1 name hname
  refine ⟨fun name hpassed hin => ?_, fun name hrequired hmissing hi => ?_,
    fun hg name spec hs hl hi => ?_, fun hg name spec v hs hv hc l hl => ?_, fun hg => ?_⟩
  · by_contra hundeclared
    have hnone : ∀ spec, (name, spec) ∉ entries (propertiesOf schema) := fun spec hs => hundeclared ⟨spec, hs⟩
    rcases (subject_iff h hfaults).1 (hreported name (.undeclared hpassed hnone)) with
      ⟨-, hout⟩ | ⟨-, hread⟩ | ⟨spec, _, hs, -, -⟩
    · rw [hin] at hout
      cases hout
    · obtain ⟨v, hv⟩ := Option.isSome_iff_exists.1 hpassed
      rw [readOf_passed hv] at hread
      cases hread
    · exact hnone spec hs
  · rcases (subject_iff h hfaults).1 (hreported name (.missing hrequired hmissing)) with
      ⟨hpassed, -⟩ | ⟨-, hread⟩ | ⟨spec, r, hs, hr, hne⟩
    · rw [hmissing] at hpassed
      cases hpassed
    · rw [readOf_inherited hmissing hi] at hread
      cases hread
    · rw [readOf_inherited hmissing hi] at hr
      obtain rfl := Option.some.inj hr
      exact ⟨spec, hs, by_contra fun hfit => hne ((inherited_nil (htypes _ hs)).2 hfit)⟩
  · exact (inherited_nil (htypes _ hs)).1 (hnil hg hs (readOf_inherited hl hi))
  · have hin := (valueFaults_nil.1 (hnil hg hs (readOf_passed hv))).2 l hl
    obtain ⟨e, -, he⟩ := List.any_eq_true.1 hin
    obtain rfl := eq_of_sameValue he
    rw [sameValue_compound hc] at he
    cases he
  · have := hjudged.exact _ (hgood hg).2 (ofString "__proto__")
    rw [takeFrom_other (.inl rfl), lookup_nil, eq_comm, Option.map_eq_none_iff] at this
    exact this

/-- Of a schema without faults: the arguments are judged as it says exactly where no inherited name makes a
difference and no object or array has to be one of an `enum`. -/
theorem arguments_iff (h : checkSchema L at_ schema = some []) : Judged L at_ schema given ↔ Clear L schema given := by
  refine ⟨clear_of_judged h, fun hclear => ?_⟩
  obtain ⟨faults, hfaults, hparse⟩ := parse_cases given h
  have hgood : faults = [] ↔ ∀ name, ¬ Offends L schema given name := by
    refine ⟨fun hnil name hoff => ?_, fun hgood => unreported h hclear hgood hfaults⟩
    exact (exists_subject h hfaults).1 hnil name ((subject_iff h hfaults).2 (reported h hclear hoff))
  refine ⟨?_, fun out hout name => ?_, fun faults' herror name hoff => ?_⟩
  · rw [← hgood]
    rcases hparse with ⟨hnil, hok⟩ | ⟨hne, herror⟩
    · exact ⟨fun _ => hnil, fun _ => ⟨_, hok⟩⟩
    · refine ⟨fun ⟨out, hout⟩ => ?_, fun hnil => absurd hnil hne⟩
      rw [herror] at hout
      cases hout
  · rcases hparse with ⟨hnil, hok⟩ | ⟨-, herror⟩
    · obtain rfl := Except.ok.inj (hok.symm.trans hout)
      exact taken_exact hclear (hgood.1 hnil) name
    · rw [herror] at hout
      cases hout
  · rcases hparse with ⟨-, hok⟩ | ⟨-, herror'⟩
    · rw [hok] at herror
      cases herror
    · obtain rfl : faults = faults' := by simpa using herror'.symm.trans herror
      exact (subject_iff h hfaults).2 (reported h hclear hoff)

/-! ## Two tools -/

/-- Texts are written as they are, and no array is among what is asked here. -/
def plain : Tools.Language where
  text
    | .string t => some t
    | _ => none
  text_string _ := rfl
  json _ := []
  arrayNames := ofString "length" :: Schemas.inheritedNames
  arrayNames_inherited name h := List.mem_cons_of_mem _ (by simpa [inherited] using h)

/-- The schema of a tool with these properties and required names. -/
def toolSchema (properties : List (Text × Value Text)) (required : List Text) : Value Text :=
  .object [(ofString "type", .string (ofString "object")), (ofString "additionalProperties", .bool false),
    (ofString "properties", .object properties), (ofString "required", .array (required.map .string))]

def queryProperty : Value Text :=
  .object [(ofString "type", .string (ofString "string")), (ofString "description", .string (ofString "What to find."))]

def queryTool : Value Text := toolSchema [(ofString "query", queryProperty)] [ofString "query"]

def query : List (Text × Value Text) := [(ofString "query", .string (ofString "tea"))]

/-- A tool with one required text is judged as its schema says. -/
theorem query_judged : Judged plain (ofString "arguments") queryTool query := by
  have hlookup : ∀ name, lookup name query = if ofString "query" = name then some (.string (ofString "tea")) else none :=
    fun name => lookup_cons
  have hentries : entries (propertiesOf queryTool) = [(ofString "query", queryProperty)] := rfl
  refine (arguments_iff (by decide +kernel)).2 ⟨fun name hpassed _ => ?_, fun name hrequired hmissing _ => ?_,
    fun _ name spec hs hl _ => ?_, fun _ name spec v _ hv hc => ?_, fun _ => by decide⟩
  · rw [hlookup] at hpassed
    split at hpassed
    · rename_i hname
      exact ⟨queryProperty, by rw [hentries, hname]; exact List.mem_cons_self⟩
    · cases hpassed
  · obtain ⟨v, hv, htext⟩ := hrequired
    obtain rfl : v = .string (ofString "query") := List.mem_singleton.1 hv
    rw [hlookup, if_pos (Option.some.inj htext)] at hmissing
    cases hmissing
  · rw [hentries, List.mem_singleton, Prod.mk.injEq] at hs
    rw [hlookup, if_pos hs.1.symm] at hl
    cases hl
  · rw [hlookup] at hv
    split at hv
    · obtain rfl := Option.some.inj hv
      cases hc
    · cases hv

/-- An argument `constructor` of a tool that has none is dropped without a fault. -/
theorem constructor_dropped : ∃ name, checkSchema plain (ofString "arguments") (toolSchema [] []) = some [] ∧
    Offends plain (toolSchema [] []) [(name, .null)] name ∧
    parseArguments plain (ofString "arguments") (toolSchema [] []) (some (.object [(name, .null)])) = .ok [] :=
  ⟨ofString "constructor", by decide +kernel, .undeclared (by decide) fun _ hs => List.not_mem_nil hs, rfl⟩

end CarbonRuntime.Bugs.InheritedArgument
