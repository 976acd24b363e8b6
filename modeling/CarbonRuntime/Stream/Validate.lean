import CarbonRuntime.Core.Utf16
import CarbonRuntime.Core.Value

/-!
# The schema validator (stream/validate.ts)

`validate` goes over a value with a schema of the keywords it knows and lists the faults. Whether a
name is among the fields of an object is asked with `in`, which the names every object inherits are
too. A property of such a name that the schema does not declare is then gone over with what the object
inherits, in which there is no keyword.

How a regular expression matches and how a value is written are taken from outside.
-/

open CarbonRuntime.Core Utf16

namespace CarbonRuntime.Schemas

structure Language where
  /-- `new RegExp(pattern).test(text)` -/
  test : Text → Text → Bool
  /-- The empty expression matches. -/
  test_empty : ∀ t, test [] t = true
  /-- `JSON.stringify(value)` -/
  json : Value Text → Text
  /-- `String(n)` -/
  number : Rat → Text

/-! ## Schemas -/

inductive JsonType
  | null | boolean | object | array | number | string | integer
deriving DecidableEq

def JsonType.name : JsonType → Text
  | .null => ofString "null"
  | .boolean => ofString "boolean"
  | .object => ofString "object"
  | .array => ofString "array"
  | .number => ofString "number"
  | .string => ofString "string"
  | .integer => ofString "integer"

inductive Scalar
  | null
  | bool (b : Bool)
  | number (n : Rat)
  | string (t : Text)
deriving DecidableEq

def Scalar.value : Scalar → Value Text
  | null => .null
  | bool b => .bool b
  | number n => .number n
  | string t => .string t

/-- `===` -/
def Scalar.same : Scalar → Value Text → Bool
  | null, .null => true
  | bool a, .bool b => a = b
  | number a, .number b => a = b
  | string a, .string b => a = b
  | _, _ => false

/-- What `additionalProperties` says: nothing or `true`, `false`, or a schema. -/
inductive Additional (α : Type)
  | any
  | refused
  | schema (s : α)

/-- The keywords of a schema, as object schemas; `unknown` are the ones that are not supported. -/
structure Schema where
  unknown : List Text := []
  type : Option JsonType := none
  const : Option Scalar := none
  enum : Option (List Scalar) := none
  pattern : Option Text := none
  minLength : Option Nat := none
  minimum : Option Rat := none
  required : List Text := []
  properties : List (Text × Schema) := []
  additional : Additional Schema := .any
  items : Option Schema := none

/-- The schema of a property that the schema itself declares. -/
def Schema.declared (S : Schema) (name : Text) : Option Schema :=
  (S.properties.find? (·.1 = name)).map (·.2)

/-- The names every object inherits. -/
def inheritedNames : List Text :=
  ["constructor", "__defineGetter__", "__defineSetter__", "hasOwnProperty", "__lookupGetter__",
    "__lookupSetter__", "isPrototypeOf", "propertyIsEnumerable", "toString", "valueOf", "__proto__",
    "toLocaleString"].map ofString

def inherited (name : Text) : Bool := inheritedNames.contains name

/-- What an object inherits, as a schema: there is no keyword in it. -/
def inheritedSchema : Schema := {}

/-! ## `validate` -/

structure SchemaFault where
  code : String
  subject : Text
  problem : Text
  fix : Text
deriving DecidableEq

/-- mirrors validate.ts:30-35 -/
def typeOf : Value Text → JsonType
  | .null => .null
  | .array _ => .array
  | .number n => if n.den = 1 then .integer else .number
  | .bool _ => .boolean
  | .string _ => .string
  | .object _ => .object

/-- mirrors validate.ts:37-42 -/
def matchesType (v : Value Text) (want : JsonType) : Bool :=
  match want with
  | .number => typeOf v = .integer || typeOf v = .number
  | _ => typeOf v = want

section
variable (L : Language) (schemaName : Text) (S : Schema) (subject : Text) (v : Value Text)

/-- mirrors validate.ts:53-59 -/
def keywordFaults : List SchemaFault :=
  S.unknown.map fun key =>
    { code := "SCHEMA_KEYWORD_UNSUPPORTED", subject
      problem := schemaName ++ ofString " uses the JSON Schema keyword \"" ++ key ++
        ofString "\", which carbon's validator does not implement"
      fix := ofString
        "either express the rule with a supported keyword or add the keyword to lib/validate.mjs" }

/-- mirrors validate.ts:61-66 -/
def constFault : Option SchemaFault :=
  S.const.bind fun c =>
    if c.same v then none
    else some
      { code := "VALUE_NOT_CONST", subject
        problem := ofString "expected " ++ L.json c.value ++ ofString ", found " ++ L.json v
        fix := ofString "set " ++ subject ++ ofString " to " ++ L.json c.value }

/-- What `join` makes of a scalar. -/
def Scalar.joined : Scalar → Text
  | .null => []
  | .bool b => ofString (if b then "true" else "false")
  | .number n => L.number n
  | .string t => t

/-- mirrors validate.ts:68-73 -/
def enumFault : Option SchemaFault :=
  S.enum.bind fun cs =>
    if cs.any (·.same v) then none
    else some
      { code := "VALUE_NOT_IN_ENUM", subject
        problem := L.json v ++ ofString " is not one of " ++
          (ofString ", ").intercalate (cs.map fun c => L.json c.value)
        fix := ofString "set " ++ subject ++ ofString " to one of " ++
          (ofString ", ").intercalate (cs.map (Scalar.joined L)) }

/-- mirrors validate.ts:75-80 -/
def typeFault : Option SchemaFault :=
  S.type.bind fun want =>
    if matchesType v want then none
    else some
      { code := "TYPE_WRONG", subject
        problem := ofString "expected " ++ want.name ++ ofString ", found " ++ (typeOf v).name
        fix := ofString "make " ++ subject ++ ofString " a " ++ want.name }

/-- mirrors validate.ts:83-87; an empty pattern is none -/
def patternFaults (t : Text) : List SchemaFault :=
  match S.pattern.filter (· ≠ []) with
  | none => []
  | some pattern =>
    if L.test pattern t then []
    else
      [{ code := "PATTERN_UNMATCHED", subject
         problem := L.json (.string t) ++ ofString " does not match " ++ pattern
         fix := ofString "write " ++ subject ++ ofString " in the form " ++ pattern }]

/-- mirrors validate.ts:88-92 -/
def lengthFaults (t : Text) : List SchemaFault :=
  match S.minLength with
  | none => []
  | some n =>
    if t.length < n then
      [{ code := "STRING_TOO_SHORT", subject
         problem := ofString "needs at least " ++ L.number n ++ ofString " characters"
         fix := ofString "give " ++ subject ++ ofString " a value" }]
    else []

/-- mirrors validate.ts:82-93 -/
def stringFaults : List SchemaFault :=
  match v with
  | .string t => patternFaults L S subject t ++ lengthFaults L S subject t
  | _ => []

/-- mirrors validate.ts:95-99 -/
def minimumFaults : List SchemaFault :=
  match v, S.minimum with
  | .number n, some m =>
    if n < m then
      [{ code := "BELOW_MINIMUM", subject
         problem := L.number n ++ ofString " is below the minimum " ++ L.number m
         fix := ofString "raise " ++ subject ++ ofString " to at least " ++ L.number m }]
    else []
  | _, _ => []

def fieldOf (name : Text) : Text := subject ++ ofString "." ++ name

/-- mirrors validate.ts:110-116 -/
def missingFaults (fields : List (Text × Value Text)) : List SchemaFault :=
  (S.required.filter fun name => !((Value.own name fields).isSome || inherited name)).map fun name =>
    { code := "FIELD_MISSING", subject := fieldOf subject name
      problem := ofString "the schema requires this field and it is absent"
      fix := ofString "add " ++ name ++ ofString " to " ++ subject }

def unknownField (name : Text) : SchemaFault :=
  { code := "FIELD_UNKNOWN", subject := fieldOf subject name
    problem := ofString "the schema declares exact keys and does not name this one"
    fix := ofString "remove " ++ name ++ ofString ", or add it to " ++ schemaName ++
      ofString " if it belongs" }

/-- What is returned for a value, once the faults of its items and fields are there: a value that is
none of its constants, or not of its type, has that fault alone. -/
def levelFaults (below : List SchemaFault) : List SchemaFault :=
  keywordFaults schemaName S subject ++
    match (constFault L S subject v).or ((enumFault L S subject v).or (typeFault S subject v)) with
    | some fault => [fault]
    | none => stringFaults L S subject v ++ minimumFaults L S subject v ++ below

end

mutual

/-- mirrors validate.ts:50-131 -/
def validate (L : Language) (schemaName : Text) (S : Schema) (subject : Text) :
    Value Text → List SchemaFault
  | .array items =>
    levelFaults L schemaName S subject (.array items)
      (match S.items with
        | none => []
        | some T => validateItems L schemaName T subject 0 items)
  | .object fields =>
    levelFaults L schemaName S subject (.object fields)
      (missingFaults S subject fields ++ validateFields L schemaName S subject fields)
  | .null => levelFaults L schemaName S subject .null []
  | .bool b => levelFaults L schemaName S subject (.bool b) []
  | .number n => levelFaults L schemaName S subject (.number n) []
  | .string t => levelFaults L schemaName S subject (.string t) []

/-- mirrors validate.ts:101-106 -/
def validateItems (L : Language) (schemaName : Text) (T : Schema) (subject : Text) :
    Nat → List (Value Text) → List SchemaFault
  | _, [] => []
  | i, item :: items =>
    validate L schemaName T (subject ++ ofString "[" ++ ofString (toString i) ++ ofString "]") item ++
      validateItems L schemaName T subject (i + 1) items

/-- mirrors validate.ts:117-127 -/
def validateFields (L : Language) (schemaName : Text) (S : Schema) (subject : Text) :
    List (Text × Value Text) → List SchemaFault
  | [] => []
  | (name, child) :: fields =>
    (match S.declared name with
      | some T => validate L schemaName T (fieldOf subject name) child
      | none =>
        if inherited name then validate L schemaName inheritedSchema (fieldOf subject name) child
        else
          match S.additional with
          | .any => []
          | .refused => [unknownField schemaName subject name]
          | .schema T => validate L schemaName T (fieldOf subject name) child) ++
      validateFields L schemaName S subject fields

end

end CarbonRuntime.Schemas
