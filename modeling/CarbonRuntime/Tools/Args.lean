import CarbonRuntime.Adapters.Chunks
import CarbonRuntime.Stream.Validate

/-!
# The arguments of a tool (tools/lib/args.ts)

`checkSchema` goes over a schema when the server loads, `parseArguments` over what a caller passes. Whether a
name is declared, or passed, both ask with `in`, which an inherited name is too; what is read under such a
name is then a function, or the prototype itself.

How a value is written is taken from outside, and what an array has beside its elements.
-/

open CarbonRuntime.Core Utf16

namespace CarbonRuntime.Tools

open Schemas

structure Language where
  /-- `String(value)`, which a key is; `none` where it throws. -/
  text : Value Text → Option Text
  text_string : ∀ t, text (.string t) = some t
  /-- `JSON.stringify(value)` -/
  json : Value Text → Text
  /-- The length of an array and what it inherits. -/
  arrayNames : List Text
  arrayNames_inherited : ∀ name, inherited name = true → name ∈ arrayNames

def typeNames : List Text :=
  ["string", "number", "integer", "boolean", "object", "array", "null"].map ofString

/-! ## Objects -/

/-- `Object.entries(value)` -/
def entries : Value Text → List (Text × Value Text)
  | .object fields => fields
  | .array items => items.zipIdx.map fun (v, i) => (ofString (toString i), v)
  | _ => []

def lookup {α : Type} (name : Text) (l : List (Text × α)) : Option α := (l.find? (·.1 = name)).map (·.2)

/-- What reading a name finds. -/
inductive Read
  | value (v : Value Text)
  | function
  | prototype

/-- `record[name]`, `none` where it is undefined -/
def readOf (fields : List (Text × Value Text)) (name : Text) : Option Read :=
  match lookup name fields with
  | some v => some (.value v)
  | none =>
    if inherited name then some (if name = ofString "__proto__" then .prototype else .function) else none

/-- `out[name] = v`; what is given to `__proto__` is no field. -/
def assign (out : List (Text × Read)) (name : Text) (v : Read) : List (Text × Read) :=
  if name = ofString "__proto__" then out
  else if out.any (·.1 = name) then out.map fun f => if f.1 = name then (name, v) else f
  else out ++ [(name, v)]

/-- `===` of scalars; an object or an array is only itself. -/
def sameValue : Value Text → Value Text → Bool
  | .null, .null => true
  | .bool a, .bool b => a = b
  | .number a, .number b => a = b
  | .string a, .string b => a = b
  | _, _ => false

/-- `new Set(list)` -/
def distinct : List (Value Text) → List (Value Text)
  | [] => []
  | v :: l => v :: (distinct l).filter fun w => !sameValue v w

def truthy : Value Text → Bool
  | .null => false
  | .bool b => b
  | .number n => n ≠ 0
  | .string t => t ≠ []
  | _ => true

variable (L : Language)

/-- `name in value` -/
def isIn (name : Text) (v : Value Text) : Bool :=
  (entries v).any (·.1 = name) ||
    match v with
    | .array _ => L.arrayNames.contains name
    | _ => inherited name

/-! ## The schema -/

def propertiesOf (schema : Value Text) : Value Text :=
  match schema.field (ofString "properties") with
  | some (.object fields) => .object fields
  | some (.array items) => .array items
  | _ => .object []

def requiredOf (schema : Value Text) : List (Value Text) :=
  match schema.field (ofString "required") with
  | some (.array names) => names
  | _ => []

/-- The types a property declares; `none` is undefined. -/
def typesOf : Option (Value Text) → List (Option (Value Text))
  | some (.array types) => types.map some
  | type => [type]

def isTypeName : Option (Value Text) → Bool
  | some (.string t) => t ∈ typeNames
  | _ => false

/-- `typeof description === 'string' && description.trim() !== ''` -/
def described (property : Value Text) : Bool :=
  match property.field (ofString "description") with
  | some (.string t) => Cutting.trim Adapters.Chunks.isSpace t ≠ []
  | _ => false

variable (at_ : Text)

/-- mirrors args.ts:55-79 -/
def propertyFaults (name : Text) (property : Value Text) : List SchemaFault :=
  let subject := at_ ++ ofString ".properties." ++ name
  match property with
  | .object _ | .array _ =>
    (if property.hasOwn (ofString "default") then
      [{ code := "IMPLICIT_ARGUMENT", subject
         problem := name ++ ofString
          " carries a default, so a caller who says nothing gets a value it never chose and cannot see"
         fix := ofString
          "remove the default and require the argument, or split the two behaviours into two tools" }]
    else []) ++
    (let declared := typesOf (property.field (ofString "type"))
      if declared = [] ∨ ¬ declared.all isTypeName then
      [{ code := "SCHEMA_PROPERTY_TYPE_MISSING", subject := subject ++ ofString ".type"
         problem := ofString
          "a property declares a JSON type, or a list of them where a value is genuinely either"
         fix := ofString "use one of " ++ (ofString ", ").intercalate typeNames }]
    else []) ++
    (if described property then []
    else
      [{ code := "SCHEMA_PROPERTY_UNDESCRIBED", subject := subject ++ ofString ".description"
         problem := ofString
          "a caller reads the description to know what the value means and what shape it takes"
         fix := ofString "write one sentence saying what it is, with an example value" }])
  | _ =>
    [{ code := "SCHEMA_PROPERTY_NOT_AN_OBJECT", subject
       problem := ofString "each property is an object naming at least a type and a description"
       fix := ofString "write \x7b\"type\": \"string\", \"description\": \"...\"\x7d" }]

def requiresUndeclared (name : Text) : SchemaFault :=
  { code := "SCHEMA_REQUIRES_UNDECLARED", subject := at_ ++ ofString ".required"
    problem := name ++ ofString " is required and not declared in properties"
    fix := ofString "declare it, or drop it from required" }

/-- mirrors args.ts:29-90; `none` where it throws -/
def checkSchema (schema : Value Text) : Option (List SchemaFault) :=
  match schema with
  | .object fields => do
    let properties := propertiesOf (.object fields)
    let required ← (requiredOf (.object fields)).mapM L.text
    pure <|
      (match lookup (ofString "type") fields with
        | some (.string t) => if t = ofString "object" then [] else [notAnObjectType]
        | _ => [notAnObjectType]) ++
      (match lookup (ofString "additionalProperties") fields with
        | some (.bool false) => []
        | _ =>
          [{ code := "SCHEMA_ACCEPTS_UNDECLARED_ARGUMENTS", subject := at_ ++ ofString ".additionalProperties"
             problem := ofString "an argument nobody declared is an argument nobody checked"
             fix := ofString "set \"additionalProperties\": false" }]) ++
      (entries properties).flatMap (fun (name, property) => propertyFaults at_ name property) ++
      (required.filter fun name => !isIn L name properties).map (requiresUndeclared at_)
  | _ => some
    [{ code := "SCHEMA_NOT_AN_OBJECT", subject := at_
       problem := ofString "an argument schema is a JSON Schema object"
       fix := ofString <| "write \x7b\"type\": \"object\", \"properties\": \x7b...\x7d, \"required\": [...], " ++
        "\"additionalProperties\": false\x7d" }]
where
  notAnObjectType : SchemaFault :=
    { code := "SCHEMA_NOT_AN_OBJECT_TYPE", subject := at_ ++ ofString ".type"
      problem := ofString "the top level of a tool argument schema is an object"
      fix := ofString "set \"type\": \"object\"" }

/-! ## The arguments -/

def typeOf : Read → Text
  | .value .null => ofString "null"
  | .value (.array _) => ofString "array"
  | .value (.number n) => ofString (if n.den = 1 then "integer" else "number")
  | .value (.bool _) => ofString "boolean"
  | .value (.string _) => ofString "string"
  | .value (.object _) | .prototype => ofString "object"
  | .function => ofString "function"

def typeOk (declared : Option (Value Text)) (v : Read) : Bool :=
  (typesOf declared).any fun
    | some (.string t) =>
      if t = ofString "number" then typeOf v = ofString "number" ∨ typeOf v = ofString "integer"
      else if t = ofString "integer" then typeOf v = ofString "integer"
      else typeOf v = t
    | _ => false

/-- What `join` makes of an item; the types of a checked schema are texts. -/
def joined : Option (Value Text) → Text
  | none | some .null => []
  | some v => (L.text v).getD []

def typeWords (declared : Option (Value Text)) : Text :=
  (ofString " or ").intercalate ((typesOf declared).map (joined L))

/-- `JSON.stringify(v)` of what a property permits; the prototype has no field of its own. -/
def jsonOf : Read → Text
  | .value v => L.json v
  | .prototype => L.json (.object [])
  | .function => ofString "undefined"

/-- `list.includes(v)` -/
def includes (list : List (Value Text)) : Read → Bool
  | .value v => list.any (sameValue v)
  | _ => false

def nameOf (name : Text) : Text := at_ ++ ofString "." ++ name

def undeclared (properties : Value Text) (name : Text) : SchemaFault :=
  { code := "ARGUMENT_UNDECLARED", subject := nameOf at_ name
    problem := ofString "this tool has no argument named " ++ name
    fix :=
      let names := (ofString ", ").intercalate ((entries properties).map (·.1))
      ofString "pass one of " ++ if names = [] then ofString "no arguments at all" else names }

def missing (properties : Value Text) (name : Text) : SchemaFault :=
  { code := "ARGUMENT_MISSING", subject := nameOf at_ name
    problem := name ++ ofString " is required and nothing was passed; it is never guessed"
    fix := ofString "pass " ++ name ++
      match (lookup name (entries properties)).bind (·.field (ofString "description")) with
      | some d => if truthy d then ofString ": " ++ (L.text d).getD [] else []
      | none => [] }

/-- mirrors args.ts:143-158, of what is read under a declared name -/
def valueFaults (name : Text) (spec : Value Text) (v : Read) : List SchemaFault :=
  let type := spec.field (ofString "type")
  if !typeOk type v then
    [{ code := "ARGUMENT_WRONG_TYPE", subject := nameOf at_ name
       problem := name ++ ofString " is " ++ typeOf v ++ ofString " and this tool takes " ++ typeWords L type
       fix := ofString "pass " ++ name ++ ofString " as " ++ typeWords L type }]
  else
    match spec.field (ofString "enum") with
    | some (.array permitted) =>
      if includes permitted v then []
      else
        [{ code := "ARGUMENT_NOT_PERMITTED", subject := nameOf at_ name
           problem := jsonOf L v ++ ofString " is not one of the values " ++ name ++ ofString " takes"
           fix := ofString "pass one of " ++ (ofString ", ").intercalate (permitted.map L.json) }]
    | _ => []

inductive Refusal
  | faults (faults : List SchemaFault)
  /-- A `TypeError` of the language. -/
  | typeError

/-- The faults of an object that is passed; `none` where a required name is no key. -/
def argumentFaults (schema : Value Text) (given : List (Text × Value Text)) : Option (List SchemaFault) := do
  let properties := propertiesOf schema
  let required ← (distinct (requiredOf schema)).mapM L.text
  pure <|
    ((given.map (·.1)).filter fun name => !isIn L name properties).map (undeclared at_ properties) ++
    (required.filter fun name => (readOf given name).isNone).map (missing L at_ properties) ++
    (entries properties).flatMap fun (name, spec) =>
      match readOf given name with
      | none => []
      | some v => valueFaults L at_ name spec v

/-- What was declared and passed. -/
def taken (properties : Value Text) (given : List (Text × Value Text)) : List (Text × Read) :=
  (entries properties).foldl (fun out (name, _) =>
    match readOf given name with
    | some v => assign out name v
    | none => out) []

/-- mirrors args.ts:113-166; `given` is absent where it is undefined -/
def parseArguments (schema : Value Text) (given : Option (Value Text)) : Except Refusal (List (Text × Read)) :=
  match given.getD .null with
  | .null => parse []
  | .object fields => parse fields
  | _ => .error (.faults
    [{ code := "ARGUMENTS_NOT_AN_OBJECT", subject := at_
       problem := ofString "arguments are given as a JSON object of named values"
       fix := ofString "call the tool with \x7b\"<name>\": <value>, ...\x7d" }])
where
  parse (fields : List (Text × Value Text)) : Except Refusal (List (Text × Read)) :=
    match schema, argumentFaults L at_ schema fields with
    | .null, _ | _, none => .error .typeError
    | _, some [] => .ok (taken (propertiesOf schema) fields)
    | _, some faults => .error (.faults faults)

end CarbonRuntime.Tools
