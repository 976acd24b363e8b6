import CarbonRuntime.Core.Utf16

/-!
# The authentication state

`makeTransactionalAuthState` keeps the credentials and every signal key in a file of its own
(adapters/whatsapp/auth-state.ts:70-136). A key's file is named after its type and id (`keyFileName`); the
name is never refused, since it is never empty or of dots (`safeName_ne`).

A write is the rename at its end: the temporary file, the mode and the flushes are left out. What the library
passes in is a parameter.
-/

open CarbonRuntime.Core Utf16

namespace CarbonRuntime.Adapters.WhatsApp.AuthState

/-- `/[A-Za-z0-9_-]/` -/
def safeUnit (u : UInt16) : Bool :=
  0x41 ≤ u && u ≤ 0x5a || 0x61 ≤ u && u ≤ 0x7a || 0x30 ≤ u && u ≤ 0x39 || u = 0x5f || u = 0x2d

def safeName (type id : Text) : Text :=
  (type ++ 0x2d :: id).map fun u => if safeUnit u then u else 0x5f

def keyFileName (type id : Text) : Text := safeName type id ++ ofString ".json"

/-- What the library and the language do with values: of the values that are not null or undefined, which
are truthy, what `JSON.stringify` and `JSON.parse` with the library's replacer and reviver make of one, null being
none, and `AppStateSyncKeyData.fromObject`. -/
structure Operations (V S : Type) where
  truthy : V → Bool
  stringify : V → S
  parse : S → Option V
  fromObject : V → V

/-- The replacer and the reviver are inverse, and the rebuilt object is the object. -/
structure Operations.Faithful {V S : Type} (A : Operations V S) : Prop where
  parse_stringify : ∀ v, A.parse (A.stringify v) = some v
  fromObject : ∀ v, A.fromObject v = v

variable {V S : Type}

/-- The directory: what is in each file. -/
abbrev Files (S : Type) := Text → Option S

def Files.put (files : Files S) (name : Text) (content : Option S) : Files S :=
  fun n => if n = name then content else files n

variable (A : Operations V S)

def readData (files : Files S) (name : Text) : Option V := (files name).bind A.parse

def writeData (files : Files S) (name : Text) (data : V) : Files S := files.put name (some (A.stringify data))

def removeData (files : Files S) (name : Text) : Files S := files.put name none

inductive Call (V : Type)
  /-- The entries of `data`, in order; a value that is null or undefined is none. -/
  | set (data : List ((Text × Text) × Option V))
  | get (type : Text) (ids : List Text)
  | saveCreds (creds : V)

def setOne (files : Files S) (entry : (Text × Text) × Option V) : Files S :=
  let name := keyFileName entry.1.1 entry.1.2
  match entry.2 with
  | some value => if A.truthy value then writeData A files name value else removeData files name
  | none => removeData files name

def getOne (files : Files S) (type id : Text) : Option V :=
  let value := readData A files (keyFileName type id)
  if type = ofString "app-state-sync-key" then
    value.map fun v => if A.truthy v then A.fromObject v else v
  else value

/-- The directory after a call, and what it found. -/
def call (files : Files S) : Call V → Files S × List (Text × V)
  | .set data => (data.foldl (setOne A) files, [])
  | .get type ids => (files, ids.filterMap fun id => (getOne A files type id).map (id, ·))
  | .saveCreds creds => (writeData A files (ofString "creds.json") creds, [])

/-- What the calls find, from a directory on. -/
def play : Files S → List (Call V) → List (List (Text × V))
  | _, [] => []
  | files, c :: calls => (call A files c).2 :: play (call A files c).1 calls

theorem safeName_ne (type id : Text) : 0x2d ∈ safeName type id :=
  List.mem_map.2 ⟨0x2d, by simp, by decide⟩

end CarbonRuntime.Adapters.WhatsApp.AuthState
