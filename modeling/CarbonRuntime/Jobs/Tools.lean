import CarbonRuntime.Core.Check
import CarbonRuntime.Jobs.Sop
import Mathlib.Data.List.Sort

/-!
# Job tools

The records database as far as jobs go, and the tools over it (records/job-tools.ts): opening
a job, claiming an action, finishing or reconciling the claim, recording a step. A tool is one
transaction, or two for `action_finish`; a refusal writes nothing. What a transaction takes
from outside is an argument: the clock, a random id, the processes of the box, whether a
source verifies.

The tables of a SOP are named by its id with dashes as underscores; the rows of all of them
are kept together here, a job's by the SOP it is of. The uniqueness of the event rows is the
key of their table.

**Results.** Beside each tool, what it leaves of the database where it goes through
(`actionBegin_ok`, `actionReconcileAbsent_ok`, `finishReceipt_ok`, `recordObservation_ok`).
-/

open CarbonRuntime.Core CarbonRuntime.Stream

namespace CarbonRuntime.Jobs

open Records

/-! ## The database -/

inductive ClaimState
  | reserved | claimed
deriving DecidableEq

/-- An entry of `pending`. -/
structure PendingAction where
  step : String
  actionId : String
  sourceId : String
  state : ClaimState
  since : String
  owner : Option Owner := none
deriving DecidableEq

structure Job where
  id : String
  unit : String
  references : List String := []
  sop : String
  sopVersion : String
  positions : Entries String
  pending : Entries PendingAction := Table.empty
  since : Entries String
deriving DecidableEq

/-- `pending[track] = action` -/
def Job.take (row : Job) (track : String) (action : PendingAction) : Job :=
  { row with pending := row.pending.put (track, action) }

inductive EventKind
  | intent | observation | reconciledAbsent
deriving DecidableEq

structure EventRow where
  job : String
  event : String
  kind : EventKind
  sourceId : String
  readEvidenceId : Option String := none
  offModel : Bool := false
deriving DecidableEq

/-- `UNIQUE (job_id, source_id, event, kind)`, migrate.ts:196. -/
def EventRow.key (r : EventRow) : String × String × String × EventKind :=
  (r.job, r.sourceId, r.event, r.kind)

structure Receipt where
  actionId : String
  job : String
  sop : String
  step : String
  sourceId : String
deriving DecidableEq

structure Collected where
  sourceId : String
  channel : String
  unit : String
deriving DecidableEq

structure Definition where
  sop : String
  version : String
  sha256 : String
  definition : Sop
deriving DecidableEq

structure Db where
  /-- In the order they were installed. -/
  definitions : List Definition := []
  jobs : Table Job.id := Table.empty
  events : Table EventRow.key := Table.empty
  receipts : Table Receipt.actionId := Table.empty
  collected : List Collected := []
deriving DecidableEq

/-- The SOP's part of its tables' names. -/
def tableOf (sop : String) : String :=
  String.ofList (sop.toList.map fun c => if c = '-' then '_' else c)

/-- A lower-case name every plain object answers to without an entry. -/
def inherited (name : String) : Bool := name = "constructor"

/-- `entries[name]` taken as a condition. -/
def Entries.truthy {V : Type} (e : Entries V) (name : String) : Bool :=
  (e.get name).isSome || inherited name

/-- The order a `jsonb` object gives its entries in: shorter names first. -/
def jsonbOrder {V : Type} (a b : String × V) : Bool :=
  a.1.utf8ByteSize < b.1.utf8ByteSize ||
    a.1.utf8ByteSize = b.1.utf8ByteSize && decide (a.1 ≤ b.1)

/-- `Object.entries(row.pending)`, as it comes from the database. -/
def Job.actions (j : Job) : List (String × PendingAction) :=
  j.pending.rows.insertionSort fun a b => jsonbOrder a b = true

@[simp] theorem Job.mem_actions {j : Job} {x : String × PendingAction} :
    x ∈ j.actions ↔ x ∈ j.pending.rows := List.mem_insertionSort _

/-! ## Faults -/

def jobIdInvalid (job : String) : Fault :=
  ⟨"JOB_ID_INVALID", job, "job must be the UUID returned by job_open or job_find",
    "read the job id from the record"⟩

def jobNotFound (id : String) : Fault :=
  ⟨"JOB_NOT_FOUND", id, "no installed SOP table holds this job", "use job_find or open a job first"⟩

def sopNotInstalled (sop : String) : Fault :=
  ⟨"SOP_NOT_INSTALLED", sop, "this records service holds no installed version of that SOP",
    "use a SOP declared in records/sops/ and installed on this box"⟩

def versionNotInstalled (j : Job) : Fault :=
  ⟨"SOP_VERSION_NOT_INSTALLED", j.sop ++ "@" ++ j.sopVersion,
    "the job names a SOP version this database does not hold", "restore the matching SOP definition"⟩

def ownerInvalid (pid : Nat) : Fault :=
  ⟨"JOB_ACTION_OWNER_INVALID", toString pid,
    "the claiming tool process generation does not match the live process",
    "start the mapped tool from its supported service and retry before the external effect"⟩

def operationInvalid : Fault :=
  ⟨"JOB_OPERATION_INVALID", "operation", "the action tool must name its own operation",
    "pass the operation mapped in the installed SOP"⟩

def actionUnmapped (operation step : String) : Fault :=
  ⟨"JOB_ACTION_UNMAPPED", operation,
    "the installed SOP does not map " ++ operation ++ " to intent " ++ step,
    "use the mapped operation and step"⟩

/-- The problem a move is refused with; the two tools that refuse it differ in the fix. -/
def moveRefused (step fix : String) (why allowed : List String) : Fault :=
  ⟨"JOB_MOVE_REFUSED", step,
    "the SOP refuses this move: " ++ "; ".intercalate why ++ "; allowed now: " ++
      (if allowed = [] then "none" else ", ".intercalate allowed), fix⟩

def actionPending (step problem fix : String) : Fault := ⟨"JOB_ACTION_PENDING", step, problem, fix⟩

def actionIdInvalid (actionId : String) : Fault :=
  ⟨"JOB_ACTION_ID_INVALID", actionId, "action_id must be the claim returned by the records service",
    "pass the original action claim"⟩

def claimAbsent (step problem fix : String) : Fault :=
  ⟨"JOB_ACTION_CLAIM_ABSENT", step, problem, fix⟩

def ownerUnknown (step : String) : Fault :=
  ⟨"JOB_ACTION_OWNER_UNKNOWN", step, "the original writer generation is absent",
    "leave the claim pending for an operator decision"⟩

def ownerActive (step : String) : Fault :=
  ⟨"JOB_ACTION_OWNER_ACTIVE", step,
    "the original writer process generation can still make its external effect",
    "stop that exact writer through its supported service, read the client record again, then " ++
      "reconcile"⟩

def readAbsent (step : String) : Fault :=
  ⟨"JOB_ACTION_READ_ABSENT", step,
    "the mapped client tool supplied no client-system read showing this effect absent",
    "read the client record after the original writer stops and pass its read receipt"⟩

def stepNotIntent (step : String) : Fault :=
  ⟨"JOB_STEP_NOT_INTENT", step, "this SOP step is a collected observation, not an agent intent",
    "record its source as an observation"⟩

def receiptAbsent (step : String) : Fault :=
  ⟨"JOB_ACTION_RECEIPT_ABSENT", step,
    "the agent supplied an action observation without a matching trusted tool receipt",
    "read the pending action and reconcile the client system through its action tool"⟩

def sourceUnverified (cause : String) : Fault :=
  ⟨"JOB_SOURCE_UNVERIFIED", cause, "this source is not a collected event from the SOP channel",
    "collect the client fact through its declared channel, then record that event id"⟩

/-- What the unique key of the event rows is answered as. -/
def eventTaken : Fault :=
  databaseFault "23505" "duplicate key value violates unique constraint"

/-! ## Reading -/

/-- `JOB_ID`, job-tools.ts:14. -/
def isUuid (s : String) : Bool :=
  (s.toList.splitOn '-').map (·.length) = [8, 4, 4, 4, 12] &&
    s.toList.all fun c => c = '-' || ('0' ≤ c && c ≤ '9') || ('a' ≤ c && c ≤ 'f') ||
      ('A' ≤ c && c ≤ 'F')

/-- A text as the database reads it where a UUID is due. -/
def uuid (s : String) : String := String.ofList (s.toList.map Char.toLower)

/-- mirrors job-tools.ts:53-62; a job id is in one table only. -/
def Db.readJob (db : Db) (id : String) : Except (List Fault) Job :=
  present ((db.jobs.find (uuid id)).filter fun j => db.definitions.any (tableOf ·.sop = tableOf j.sop))
    [jobNotFound id]

/-- mirrors job-tools.ts:63-69 -/
def Db.definitionFor (db : Db) (j : Job) : Except (List Fault) Sop :=
  present ((db.definitions.find? fun d => d.sop = j.sop ∧ d.version = j.sopVersion).map
    (·.definition)) [versionNotInstalled j]

/-- mirrors job-tools.ts:45-52 -/
def Db.latestSop (db : Db) (sop : String) : Except (List Fault) Sop :=
  present ((db.definitions.reverse.find? (·.sop = sop)).map (·.definition)) [sopNotInstalled sop]

/-- mirrors job-tools.ts:79-83 -/
def mappedAction (e : Step) (operation : String) : Bool :=
  match e.action with
  | none => false
  | some (.operation name) => name = operation
  | some (.mapped tool op) => tool = some operation || op = some operation

/-- `moves[0]?.track ?? step`: what a claim of the step is kept under. -/
def Step.claimKey (e : Step) (step : String) : String := e.primary.getD step

def Db.putJob (db : Db) (j : Job) : Db := { db with jobs := db.jobs.put j }

/-- An event row, refused where its key is taken. -/
def Db.addEvent (db : Db) (r : EventRow) : Except (List Fault) Db :=
  check (db.events.find r.key).isNone [eventTaken] >>= fun _ =>
    .ok { db with events := db.events.put r }

/-- A job's row written, and an event row added. -/
def Db.wrote (db : Db) (row : Job) (r : EventRow) : Db :=
  { db with jobs := db.jobs.put row, events := db.events.put r }

theorem Db.addEvent_ok {db db' : Db} {r : EventRow} :
    db.addEvent r = .ok db' ↔
      db.events.find r.key = none ∧ db' = { db with events := db.events.put r } := by
  rw [Db.addEvent, ok_check_bind, Option.isNone_iff_eq_none]
  simp [eq_comm]

theorem Db.putJob_addEvent_ok {db db' : Db} {row : Job} {r : EventRow} :
    (db.putJob row).addEvent r = .ok db' ↔
      db.events.find r.key = none ∧ db' = db.wrote row r := Db.addEvent_ok

/-! ## The tools -/

/-- A random id, and the clock of the transaction. -/
structure Mint where
  id : String
  now : String

/-- mirrors job-tools.ts:108-137, without the view it answers -/
def jobOpen (db : Db) (current : Option TurnContext) (sop unit : String) (references : List String)
    (cause : String) (m : Mint) : Except (List Fault) Db := do
  check (isSourceId cause) [⟨"JOB_OPEN_CAUSE_INVALID", "source_message_id",
    "the cause id must be one nonempty printable identifier of at most 512 characters",
    "pass the current message id or stable timer event id exactly as the turn received it"⟩]
  check (!blank unit) [⟨"JOB_UNIT_INVALID", "unit",
    "a job needs the conversation or work unit it belongs to", "pass a nonempty unit id"⟩]
  check (current.any (·.sourceIds.contains cause)) [⟨"JOB_OPEN_CAUSE_MISMATCH", cause,
    "the job cause differs from the current message or timer event",
    "pass the current message or timer event id exactly as the turn received it"⟩]
  check (current.any (·.unit = unit)) [⟨"JOB_OPEN_UNIT_MISMATCH", unit,
    "the job unit differs from the runtime's current work unit",
    "pass the current work unit exactly as the turn received it"⟩]
  check (!references.any blank) [⟨"JOB_REFERENCES_INVALID", "references",
    "references must be a list of nonempty client reference strings",
    "pass [] or the known client references"⟩]
  let definition ← db.latestSop sop
  let positions := initialPositions definition
  let since := positions.rows.foldl (fun e p => e.put (p.1, m.now)) Table.empty
  return db.putJob
    { id := m.id, unit, references, sop, sopVersion := definition.version, positions, since }

/-- mirrors job-tools.ts:86-97 -/
def collect (db : Db) (cause channel unit : String) : Except (List Fault) Db := do
  actionCollect cause channel unit
  return if db.collected.contains ⟨cause, channel, unit⟩ then db
    else { db with collected := db.collected ++ [⟨cause, channel, unit⟩] }

/-- What `action_begin` answers of its claim. -/
structure Claimed where
  job : String
  step : String
  operation : String
  actionId : String
deriving DecidableEq

/-- mirrors job-tools.ts:164-201 -/
def actionBegin (ps : Processes) (db : Db) (job step cause operation : String) (owner : Owner)
    (m : Mint) : Except (List Fault) (Db × Claimed) := do
  check (isUuid job) [jobIdInvalid job]
  check (isSourceId cause) [sourceIdInvalid]
  let live ← liveTurnOwner ps owner
  check live [ownerInvalid owner.pid]
  check (!blank operation) [operationInvalid]
  let row ← db.readJob job
  let sop ← db.definitionFor row
  let event ← stepOf sop step
  check (event.kind = .intent && mappedAction event operation) [actionUnmapped operation step]
  check (legality event row.positions = []) [moveRefused step
    "read the job and choose a legal mapped action" (legality event row.positions)
    (allowedIntents sop row.positions)]
  let track := event.claimKey step
  check (!row.pending.truthy track) [actionPending step
    "a prior action is pending; its external effect must be read before another claim"
    "read the client record and reconcile the pending action"]
  let action : PendingAction :=
    ⟨step, m.id, cause, .claimed, m.now, some owner⟩
  let db' ← (db.putJob (row.take track action)).addEvent
    { job := row.id, event := step, kind := .intent, sourceId := cause }
  return (db', ⟨job, step, operation, m.id⟩)

/-- The jobs of a work unit and the steps of each the operation is mapped to,
job-tools.ts:207-221. -/
def Db.candidates (db : Db) (unit operation : String) :
    Except (List Fault) (List (String × String)) := do
  let bound := db.jobs.rows.filter fun j =>
    j.unit = unit && db.definitions.any (tableOf ·.sop = tableOf j.sop)
  let found ← bound.mapM fun j => do
    let sop ← db.definitionFor j
    return (sop.events.filter fun e => e.kind = .intent && !e.retired && mappedAction e operation).map
      fun e => (j.id, e.id)
  return found.flatten

def contextMismatch (operation problem fix : String) : Fault :=
  ⟨"JOB_ACTION_CONTEXT_MISMATCH", operation, problem, fix⟩

/-- mirrors job-tools.ts:202-236; no claim where the operation is no move of the unit's jobs -/
def actionBound (ps : Processes) (db : Db) (unit operation aboutJob aboutMove cause : String)
    (owner : Owner) (m : Mint) : Except (List Fault) (Db × Option Claimed) := do
  check (isSourceId cause) [sourceIdInvalid]
  check (!blank unit) [⟨"JOB_UNIT_INVALID", "unit",
    "a bound action needs the conversation unit it acts on", "pass the captured conversation id"⟩]
  let candidates ← db.candidates unit operation
  if candidates = [] then
    check (aboutMove = "other") [contextMismatch operation
      "this operation has no mapped SOP move for the conversation"
      "pass about_move other for an ordinary reply"]
    check (aboutJob = "" || db.jobs.rows.any fun j => j.id = aboutJob && j.unit = unit)
      [contextMismatch operation "the supplied job does not belong to this conversation"
        "pass a job bound to this conversation or an empty job for an ordinary reply"]
    return (db, none)
  else
    check ((candidates.filter (· = (aboutJob, aboutMove))).length = 1) [contextMismatch operation
      ("this operation maps to " ++ ", ".intercalate (candidates.map fun c => c.1 ++ ":" ++ c.2) ++
        "; about_move other cannot bypass it")
      "pass the job and move mapped by the installed SOP for this conversation"]
    let (db', claim) ← actionBegin ps db aboutJob aboutMove cause operation owner m
    return (db', some claim)

/-- The process that made the claim is gone, job-tools.ts:246-251 and 272-277. -/
def ownerGone (ps : Processes) (step : String) (a : PendingAction) : Except (List Fault) Unit := do
  let owner ← present a.owner [ownerUnknown step]
  let generation ← ps owner.pid
  check (generation ≠ some owner.generation) [ownerActive step]

/-- What a client read says of an effect. -/
structure ReadReceipt where
  effect : String
  evidenceId : String

/-- mirrors job-tools.ts:254-290 -/
def actionReconcileAbsent (ps : Processes) (db : Db) (job step cause actionId : String)
    (read : ReadReceipt) : Except (List Fault) Db := do
  check (isUuid job) [jobIdInvalid job]
  check (isSourceId cause) [sourceIdInvalid]
  check (isUuid actionId) [actionIdInvalid actionId]
  check (read.effect = "absent" && isSourceId read.evidenceId) [readAbsent step]
  let row ← db.readJob job
  let (track, action) ← present
    ((row.actions.find? (·.2.actionId = actionId)).filter (·.2.step = step))
    [claimAbsent step "this job has no matching pending action to reconcile"
      "read the job and its pending action"]
  ownerGone ps step action
  (db.putJob { row with pending := row.pending.erase track }).addEvent
    { job := row.id, event := step, kind := .reconciledAbsent, sourceId := cause,
      readEvidenceId := some read.evidenceId }

/-- `ON CONFLICT (action_id) DO NOTHING` -/
def Db.receipted (db : Db) (r : Receipt) : Db :=
  if (db.receipts.find r.actionId).isSome then db
  else { db with receipts := db.receipts.put r }

/-- The first transaction of `action_finish`, job-tools.ts:292-306. -/
def finishReceipt (db : Db) (job step cause actionId : String) : Except (List Fault) Db := do
  check (isUuid job) [jobIdInvalid job]
  check (isSourceId cause) [sourceIdInvalid]
  check (isUuid actionId) [actionIdInvalid actionId]
  let row ← db.readJob job
  match row.actions.find? (·.2.actionId = actionId) with
  | none =>
    check ((db.receipts.find (uuid actionId)).any fun r =>
      r.job = row.id && r.step = step && r.sourceId = cause) [claimAbsent step
        "this job has no matching claimed action" "read the job and reconcile its pending action"]
    return db
  | some (_, action) =>
    check (action.step = step && action.state = .claimed) [claimAbsent step
      "this job has no matching claimed action" "read the job and reconcile its pending action"]
    return db.receipted ⟨uuid actionId, row.id, row.sop, step, cause⟩

/-- What `job_record` answers. -/
inductive Recorded
  | already
  | pending (action : PendingAction)
  | recorded (offModel : Bool) (positions : Entries String)

/-- The tracks an observation changes the position of. -/
def Applied.changed (a : Applied) (old : Entries String) : List String :=
  (a.positions.rows.filter fun p => old.get p.1 ≠ some p.2).map (·.1)

/-- The checks on an observation's source, job-tools.ts:344-358; `verified` is what
`verifyObservation` answers. -/
def sourceKnown (db : Db) (row : Job) (event : Step) (step cause : String)
    (verified : Except (List Fault) Bool) : Except (List Fault) Unit :=
  if event.observedVia = "agent_action" then
    check ((row.actions.find? (·.2.step = step)).any fun p =>
      (db.receipts.find (uuid p.2.actionId)).any fun r =>
        r.job = row.id && r.sop = row.sop && r.step = step && r.sourceId = cause)
      [receiptAbsent step]
  else if db.collected.contains ⟨cause, event.observedVia, row.unit⟩ then .ok ()
  else do
    let verified ← verified
    check verified [sourceUnverified cause]

/-- What an observation leaves of the job: a track that moved has no action pending, and a new
date. -/
def Job.observed (row : Job) (event : Step) (now : String) : Job :=
  let applied := applyObservation event row.positions
  let changed := applied.changed row.positions
  { row with
    positions := applied.positions
    pending := changed.foldl Table.erase row.pending
    since := changed.foldl (fun e t => e.put (t, now)) row.since }

/-- What an observation writes, job-tools.ts:359-371. -/
def observe (db : Db) (row : Job) (event : Step) (cause now : String) :
    Except (List Fault) (Db × Recorded) := do
  let applied := applyObservation event row.positions
  let db' ← (db.putJob (row.observed event now)).addEvent
    { job := row.id, event := event.id, kind := .observation, sourceId := cause,
      offModel := applied.offModel }
  return (db', .recorded applied.offModel applied.positions)

/-- What an intent writes, job-tools.ts:324-343. -/
def reserve (db : Db) (row : Job) (sop : Sop) (event : Step) (cause : String) (m : Mint) :
    Except (List Fault) (Db × Recorded) := do
  check (event.kind = .intent) [stepNotIntent event.id]
  check (legality event row.positions = []) [moveRefused event.id
    "read the job and use an allowed step, or take the client staff escalation route"
    (legality event row.positions) (allowedIntents sop row.positions)]
  let track := event.claimKey event.id
  check (!row.pending.truthy track) [actionPending event.id
    "an action on this track is already pending; an earlier process may still act"
    "read the client system and reconcile the pending action before retrying"]
  let action : PendingAction := ⟨event.id, m.id, cause, .reserved, m.now, none⟩
  let db' ← (db.putJob (row.take track action)).addEvent
    { job := row.id, event := event.id, kind := .intent, sourceId := cause }
  return (db', .pending action)

/-- The kind of event row a step of the kind is recorded as. -/
def Kind.row : Kind → EventKind
  | .intent => .intent
  | .observation => .observation

/-- mirrors job-tools.ts:309-373 -/
def jobRecord (db : Db) (job step : String) (kind : Kind) (cause : String)
    (verified : Except (List Fault) Bool) (m : Mint) : Except (List Fault) (Db × Recorded) := do
  check (isUuid job) [jobIdInvalid job]
  check (isSourceId cause) [sourceIdInvalid]
  let row ← db.readJob job
  let sop ← db.definitionFor row
  let event ← stepOf sop step
  if (db.events.find (row.id, cause, step, kind.row)).isSome then return (db, .already)
  match kind with
  | .intent => reserve db row sop event cause m
  | .observation => do
    sourceKnown db row event step cause verified
    observe db row event cause m.now

/-! ## What a tool found and left, where it goes through -/

section Found

variable {db db' : Db} {job step cause operation actionId : String} {row : Job} {m : Mint}
  {ps : Processes} {owner : Owner} {verified : Except (List Fault) Bool}

theorem Db.readJob_ok (h : db.readJob job = .ok row) :
    db.jobs.find (uuid job) = some row ∧ row.id = uuid job := by
  rw [Db.readJob, ok_present, Option.filter_eq_some_iff] at h
  exact ⟨h.1, Table.find_key h.1⟩

theorem jobOpen_ok {current : Option TurnContext} {sop unit : String} {references : List String}
    (h : jobOpen db current sop unit references cause m = .ok db') :
    ∃ d row, db.latestSop sop = .ok d ∧ row.id = m.id ∧ row.sop = sop ∧
      row.sopVersion = d.version ∧ row.pending = Table.empty ∧ db' = db.putJob row := by
  simp only [jobOpen, ok_bind, ok_check] at h
  obtain ⟨-, -, -, -, -, -, -, -, -, -, d, hd, h⟩ := h
  cases h
  exact ⟨d, _, hd, rfl, rfl, rfl, rfl, rfl⟩

theorem actionBegin_ok {c : Claimed}
    (h : actionBegin ps db job step cause operation owner m = .ok (db', c)) :
    ∃ row sop event, isUuid job = true ∧ isSourceId cause = true ∧ db.readJob job = .ok row ∧
      db.definitionFor row = .ok sop ∧ stepOf sop step = .ok event ∧ event.kind = .intent ∧
      row.pending.truthy (event.claimKey step) = false ∧
      db.events.find (row.id, cause, step, .intent) = none ∧
      c = ⟨job, step, operation, m.id⟩ ∧
      db' = db.wrote
        (row.take (event.claimKey step) ⟨step, m.id, cause, .claimed, m.now, some owner⟩)
        { job := row.id, event := step, kind := .intent, sourceId := cause } := by
  simp only [actionBegin, ok_bind, ok_check, Db.putJob_addEvent_ok] at h
  obtain ⟨-, hjob, -, hcause, -, -, -, -, -, -, row, hrow, sop, hsop, event, hevent, -, hintent, -, -,
    -, hfree, db₁, ⟨hnone, rfl⟩, h⟩ := h
  cases h
  simp only [Bool.and_eq_true, decide_eq_true_eq, Bool.not_eq_true'] at hintent hfree
  exact ⟨row, sop, event, hjob, hcause, hrow, hsop, hevent, hintent.1, hfree, hnone, rfl, rfl⟩

/-- A bound action that claims does so through `action_begin`. -/
theorem actionBound_ok {unit aboutJob aboutMove : String} {c : Claimed}
    (h : actionBound ps db unit operation aboutJob aboutMove cause owner m = .ok (db', some c)) :
    actionBegin ps db aboutJob aboutMove cause operation owner m = .ok (db', c) := by
  simp only [actionBound, ok_bind, ok_check] at h
  obtain ⟨-, -, -, -, candidates, -, h⟩ := h
  split at h
  · simp only [ok_bind, ok_check] at h
    obtain ⟨-, -, -, -, h⟩ := h
    cases h
  · simp only [ok_bind, ok_check] at h
    obtain ⟨-, -, ⟨db₁, c₁⟩, hbegin, h⟩ := h
    cases h
    exact hbegin

theorem actionReconcileAbsent_ok {read : ReadReceipt}
    (h : actionReconcileAbsent ps db job step cause actionId read = .ok db') :
    ∃ row track action, db.readJob job = .ok row ∧
      row.actions.find? (·.2.actionId = actionId) = some (track, action) ∧ action.step = step ∧
      db' = db.wrote { row with pending := row.pending.erase track }
        { job := row.id, event := step, kind := .reconciledAbsent, sourceId := cause,
          readEvidenceId := some read.evidenceId } := by
  simp only [actionReconcileAbsent, ok_bind, ok_check, ok_present, Db.putJob_addEvent_ok] at h
  obtain ⟨-, -, -, -, -, -, -, -, row, hrow, ⟨track, action⟩, hfound, -, -, -, h⟩ := h
  rw [Option.filter_eq_some_iff] at hfound
  exact ⟨row, track, action, hrow, hfound.1, by simpa using hfound.2, h⟩

theorem finishReceipt_ok (h : finishReceipt db job step cause actionId = .ok db') :
    isUuid job = true ∧ isSourceId cause = true ∧ ∃ row, db.readJob job = .ok row ∧
      ((∃ r, db.receipts.find (uuid actionId) = some r ∧ r.job = row.id ∧ r.step = step ∧
          r.sourceId = cause ∧ db' = db) ∨
        ∃ track action, row.actions.find? (·.2.actionId = actionId) = some (track, action) ∧
          action.step = step ∧ action.state = .claimed ∧
          db' = db.receipted ⟨uuid actionId, row.id, row.sop, step, cause⟩) := by
  simp only [finishReceipt, ok_bind, ok_check] at h
  obtain ⟨-, hjob, -, hcause, -, -, row, hrow, h⟩ := h
  refine ⟨hjob, hcause, row, hrow, ?_⟩
  split at h
  · simp only [ok_bind, ok_check] at h
    obtain ⟨-, hprior, h⟩ := h
    cases h
    rw [Option.any_eq_true] at hprior
    obtain ⟨r, hr, hprior⟩ := hprior
    simp only [Bool.and_eq_true, decide_eq_true_eq] at hprior
    exact .inl ⟨r, hr, hprior.1.1, hprior.1.2, hprior.2, rfl⟩
  · rename_i track action hfound
    simp only [ok_bind, ok_check] at h
    obtain ⟨-, hclaim, h⟩ := h
    cases h
    simp only [Bool.and_eq_true, decide_eq_true_eq] at hclaim
    exact .inr ⟨track, action, hfound, hclaim.1, hclaim.2, rfl⟩

/-- What a recording found, whichever the kind. -/
theorem jobRecord_ok {kind : Kind} {r : Recorded}
    (h : jobRecord db job step kind cause verified m = .ok (db', r)) :
    ∃ row sop event, db.readJob job = .ok row ∧ db.definitionFor row = .ok sop ∧
      stepOf sop step = .ok event ∧
      ((db.events.find (row.id, cause, step, kind.row)).isSome ∧ db' = db ∨
        db.events.find (row.id, cause, step, kind.row) = none ∧
          match kind with
          | .intent => reserve db row sop event cause m = .ok (db', r)
          | .observation => sourceKnown db row event step cause verified = .ok () ∧
              observe db row event cause m.now = .ok (db', r)) := by
  simp only [jobRecord, ok_bind, ok_check] at h
  obtain ⟨-, -, -, -, row, hrow, sop, hsop, event, hevent, h⟩ := h
  refine ⟨row, sop, event, hrow, hsop, hevent, ?_⟩
  split at h
  · rename_i hdup
    cases h
    exact .inl ⟨hdup, rfl⟩
  · rename_i hdup
    refine .inr ⟨Option.not_isSome_iff_eq_none.1 hdup, ?_⟩
    cases kind with
    | intent => exact h
    | observation =>
      obtain ⟨_, hknown, h⟩ := ok_bind.1 h
      exact ⟨hknown, h⟩

theorem observe_ok {event : Step} {now : String} {r : Recorded} :
    observe db row event cause now = .ok (db', r) ↔
      db.events.find (row.id, cause, event.id, .observation) = none ∧
        r = .recorded (applyObservation event row.positions).offModel
          (applyObservation event row.positions).positions ∧
        db' = db.wrote (row.observed event now)
          { job := row.id, event := event.id, kind := .observation, sourceId := cause,
            offModel := (applyObservation event row.positions).offModel } := by
  simp only [observe, ok_bind, Db.putJob_addEvent_ok]
  constructor
  · rintro ⟨_, ⟨hnone, rfl⟩, h⟩
    cases h
    exact ⟨hnone, rfl, rfl⟩
  · rintro ⟨hnone, rfl, rfl⟩
    exact ⟨_, ⟨hnone, rfl⟩, rfl⟩

theorem reserve_ok {sop : Sop} {event : Step} {r : Recorded}
    (h : reserve db row sop event cause m = .ok (db', r)) :
    row.pending.truthy (event.claimKey event.id) = false ∧
      db.events.find (row.id, cause, event.id, .intent) = none ∧
      db' = db.wrote
        (row.take (event.claimKey event.id) ⟨event.id, m.id, cause, .reserved, m.now, none⟩)
        { job := row.id, event := event.id, kind := .intent, sourceId := cause } := by
  simp only [reserve, ok_bind, ok_check, Db.putJob_addEvent_ok] at h
  obtain ⟨-, -, -, -, -, hfree, db₁, ⟨hnone, rfl⟩, h⟩ := h
  cases h
  exact ⟨by simpa using hfree, hnone, rfl⟩

end Found

end CarbonRuntime.Jobs
