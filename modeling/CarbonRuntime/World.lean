import CarbonRuntime.Core.Service
import CarbonRuntime.Stream.Record

/-!
# The world the runtime's programs run in

`Disk` is what a process that dies leaves: the record files, the reply fences,
the teachings, the index, the ordinal, the cursors, the thread records, the
poll state and the latches of one store directory. `Mem` is what it loses: the
fields of a release loop (runtime/loop.ts:596-644) and of the servers beside
it. `World` is the two, the last reading of the clock and the history.

Every file write is one `Act`, so a death falls between any two of them. What
the process asks of the outside is an `Ask`: the clock, the order in which a
directory is listed, the adapter, the harness, the records action service. An
answer the process awaits carries the `Call`s that reach the process while it
waits; they run on the same thread, before the answer is looked at.

The history logs the program points that statements speak of, each with the
disk as it was; it is never read by a program.
-/
open CarbonRuntime.Core CarbonRuntime.Stream

namespace CarbonRuntime

/-- What is thrown: a `StreamFault`, a `RuntimeFault` with its exit code, a
`ToolFault`, a `ProgramFault`, or anything else. -/
inductive Err
  | stream (faults : List Fault)
  | runtime (faults : List Fault) (exitCode : Nat)
  | tool (faults : List Fault)
  | program (fault : Fault)
  | thrown (problem : String)
deriving DecidableEq

namespace Exit

/-- runtime/faults.ts:13-30. -/
def fault : Nat := 1
def harnessExited : Nat := 70
def lockHeld : Nat := 75
def latched : Nat := 78

end Exit

/-! ## The declaration -/

/-- What kind of room a conversation is, runtime/channel.ts:75-90. -/
inductive RoomKind
  | customer | ops | management
deriving DecidableEq

inductive ReleasePolicy
  | quiet (ms : Nat)
  | mention (text : String)
  | other (text : String)
deriving DecidableEq

structure Channel where
  kind : String
  account : String
  release : ReleasePolicy := .quiet 0
  conversations : List (String × Option RoomKind) := []
  defaultConversationKind : Option RoomKind := none
  pollFailuresBeforeHold : Option Nat := none
  inbound : Option String := none
deriving DecidableEq

inductive UnitOfWork
  | conversation
  | clientRecord (idFrom : String)
  | other (kind : String)
deriving DecidableEq

structure TeachingBlock where
  maxActive : Nat
  maxChars : Nat
deriving DecidableEq

structure ToolServer where
  name : String
  url : Option String := none
deriving DecidableEq

structure Declaration where
  channels : List Channel
  unitOfWork : UnitOfWork := .conversation
  /-- `harness.kind` is `program`. -/
  program : Bool := false
  /-- The teaching block, where `enabled` is true. -/
  teaching : Option TeachingBlock := none
  /-- `records.enabled`. -/
  records : Bool := false
  apiKeyVia : Option String := none
  toolServers : List ToolServer := []
deriving DecidableEq

/-! ## The disk -/

structure IndexEntry where
  seq : Nat
  id : Identity
deriving DecidableEq

inductive CursorKind
  | message | revision
deriving DecidableEq

structure Cursors where
  conversationId : String
  message : Option String := none
  revision : Option String := none
deriving DecidableEq

/-- One entry of a thread record's `turns`. -/
structure TurnEntry where
  releaseId : String
  status : String
  completedAt : String
  agentMessage : Option String
deriving DecidableEq

structure ThreadRecord where
  unitId : String
  threadId : Option String := none
  completedTurns : Nat := 0
  turns : List TurnEntry := []
deriving DecidableEq

/-- The poll block of a channel's state, runtime/poll.ts:66-108. -/
structure PollState where
  kind : String
  account : String
  consecutiveFailures : Nat := 0
  holding : Bool := false
  inboundTransport : Option String := none
deriving DecidableEq

structure Latch where
  kind : String
  account : String
  cause : Fault
deriving DecidableEq

structure Disk where
  records : Table MessageRecord.id := Table.empty
  requests : Table ReplyRequest.requestId := Table.empty
  teachings : Table Teaching.id := Table.empty
  index : List IndexEntry := []
  /-- The payloads kept beside the records, in the order they were appended. -/
  raws : List (Identity × String) := []
  seq : Nat := 0
  cursors : Table Cursors.conversationId := Table.empty
  threads : Table ThreadRecord.unitId := Table.empty
  polls : Table (fun p : PollState => (p.kind, p.account)) := Table.empty
  latches : Table (fun l : Latch => (l.kind, l.account)) := Table.empty

/-! ## The process -/

/-- `browserActive`, loop.ts:12. -/
structure BrowserActive where
  conversationId : String
  releaseId : String
  threadId : String
  turnId : Option String := none
  ended : Bool := false
deriving DecidableEq

structure Mem where
  /-- `recovering`: the release ids `recover()` answered to re-issue. -/
  recovering : Option (List String) := none
  threads : List (String × String) := []
  toolStatusRead : Bool := false
  toolStatusStale : Bool := true
  holdFaults : List Fault := []
  proxyFaults : List Fault := []
  recordsFaults : List Fault := []
  collectedSynced : Bool := false
  /-- The release the teaching server was last told of. -/
  teachRelease : Option String := none
  /-- `store.activeBrowserReply`: the conversation and the release. -/
  activeBrowserReply : Option (String × String) := none
  browserActive : Option BrowserActive := none
  browserPending : List MessageRecord := []
  /-- The input whose steering request is outstanding. -/
  steering : Option MessageRecord := none
  /-- `group.records` of the release group being released. -/
  group : List MessageRecord := []
deriving DecidableEq

/-- How a turn ended, harness `status`. -/
inductive TurnStatus
  | completed | failed | interrupted
deriving DecidableEq

def TurnStatus.text : TurnStatus → String
  | .completed => "completed"
  | .failed => "failed"
  | .interrupted => "interrupted"

/-- What the history logs: program points, and what an act or a death did. -/
inductive Event
  /-- A start begins. -/
  | started
  /-- The process is gone; `replying` is the reply it had captured and not fenced. -/
  | died (replying : Option Identity)
  /-- A record file that was not there is written. -/
  | created (record : MessageRecord)
  /-- A record that was not parked is. -/
  | parked (record : MessageRecord)
  /-- A pass takes up the release ids a start answered to re-issue. -/
  | reissuing (releaseIds : List String)
  /-- The groups of a pass are made. -/
  | grouped (groups : List (List MessageRecord))
  /-- A group is handed to releaseOne. -/
  | handed (records : List MessageRecord) (releaseId : String) (reissue : Bool)
  /-- The release of one record begins: it is written, or it is re-issued. -/
  | begun (record : MessageRecord) (releaseId : String) (reissue : Bool)
  /-- turn/start is called. -/
  | turn (releaseId clientUserMessageId : String)
  /-- The turn has ended. -/
  | turned (releaseId clientUserMessageId : String) (status : TurnStatus) (said : Option String)
  /-- Store.releaseHeldReply lets a reply go. -/
  | letGo (releaseId : String)
  /-- The teach check parks the reply it holds. -/
  | unrecorded (releaseId : String)
  /-- Something holds what was to be done. -/
  | holds
  /-- A stop ends the pass. -/
  | stops
  /-- A fault parks the group. -/
  | faulted
  /-- The records a delivery goes through. -/
  | delivering (records : List MessageRecord)
  /-- adapter.send is called. -/
  | send (record : MessageRecord)
  /-- The outcome of the send is written. -/
  | settled (record : MessageRecord)
deriving DecidableEq

structure Entry where
  event : Event
  disk : Disk
  clock : Int

/-- The group being released. -/
structure Handed where
  conversationId : String
  releaseId : String
  ids : List Identity
  /-- The teach check has parked the reply it held. -/
  checked : Bool := false
deriving DecidableEq

/-- Where the process stands, for statements only. -/
structure Ghost where
  /-- A start has begun, and no group was handed over yet. -/
  started : Bool := false
  /-- The reply that is captured and not fenced yet. -/
  replying : Option Identity := none
  /-- The records of the delivery under way that were not sent yet. -/
  delivering : List MessageRecord := []
  /-- The record whose send is between call and settlement. -/
  sending : Option Identity := none
  /-- The release ids this pass re-issues, until its groups are made or nothing
  is to be released. -/
  reissuing : List String := []
  /-- The groups of this pass that were not handed over yet. -/
  waiting : List (List MessageRecord) := []
  handed : Option Handed := none
deriving DecidableEq

structure World where
  disk : Disk := {}
  mem : Mem := {}
  clock : Int := 0
  ghost : Ghost := {}
  /-- Newest first. -/
  hist : List Entry := []

inductive Act
  | seq (n : Nat)
  /-- A payload is appended to the raw file of a record. -/
  | raw (i : Identity) (payload : String)
  | index (e : IndexEntry)
  | record (r : MessageRecord)
  | request (q : ReplyRequest)
  | teaching (t : Teaching)
  | cursor (c : Cursors)
  | thread (t : ThreadRecord)
  | poll (p : PollState)
  | latch (l : Latch)
  | mem (m : Mem)
  | mark (e : Event)
  /-- A pass takes up what a start answered to re-issue: it is no longer kept,
  and no group is in hand. -/
  | take (releaseIds : List String)
  /-- A group is handed over: it is the array the pass and the turn share. -/
  | hand (records : List MessageRecord) (releaseId : String) (reissue : Bool)

def Ghost.mark (g : Ghost) : Event → Ghost
  | .started => { g with started := true }
  | .delivering records => { g with reissuing := [], delivering := records }
  | .send r => { g with
      sending := some r.id, delivering := g.delivering.filter (·.id ≠ r.id) }
  | .settled _ => { g with sending := none }
  | .grouped groups => { g with reissuing := [], waiting := groups }
  | .unrecorded _ => { g with handed := g.handed.map ({ · with checked := true }) }
  | _ => g

/-- The groups that share no record with the one handed over wait on. -/
def Ghost.hand (g : Ghost) (records : List MessageRecord) (releaseId : String) : Ghost :=
  { g with
    started := false
    waiting := g.waiting.filter fun w => w.all fun r => r.id ∉ records.map (·.id)
    handed := some
      { conversationId := (records.head?.map (·.conversationId)).getD "", releaseId
        ids := records.map (·.id) } }

def World.log (w : World) (e : Event) : World := { w with hist := ⟨e, w.disk, w.clock⟩ :: w.hist }

/-- The last delivery: the records it goes through, and those it sent, in order. -/
def underway : List Entry → Option (List MessageRecord × List MessageRecord)
  | [] => none
  | t :: hist =>
    match t.event with
    | .delivering records => some (records, [])
    | .send r => (underway hist).map fun (records, sent) => (records, sent ++ [r])
    | _ => underway hist

/-- What is logged of the write of a record file where `old` was. -/
def writeEvents (old : Option MessageRecord) (r : MessageRecord) : Option Event :=
  match old with
  | none => some (.created r)
  | some old =>
    if r.disposition = .parked && old.disposition != .parked then some (.parked r) else none

/-- A new record with a live delivery is a reply that is not fenced yet. -/
def Ghost.put (g : Ghost) (old : Option MessageRecord) (r : MessageRecord) : Ghost :=
  if old.isNone && r.status.any Status.live then { g with replying := some r.id } else g

/-- Write a record file. -/
def World.putRecord (w : World) (r : MessageRecord) : World :=
  let old := w.disk.records.find r.id
  let w' := { w with
    disk := { w.disk with records := w.disk.records.put r }, ghost := w.ghost.put old r }
  match writeEvents old r with
  | some e => w'.log e
  | none => w'

section putRecord
variable (w : World) (r : MessageRecord)

@[simp] theorem World.putRecord_disk :
    (w.putRecord r).disk = { w.disk with records := w.disk.records.put r } := by
  unfold World.putRecord
  dsimp only
  split <;> rfl

@[simp] theorem World.putRecord_mem : (w.putRecord r).mem = w.mem := by
  unfold World.putRecord
  dsimp only
  split <;> rfl

@[simp] theorem World.putRecord_clock : (w.putRecord r).clock = w.clock := by
  unfold World.putRecord
  dsimp only
  split <;> rfl

@[simp] theorem World.putRecord_ghost :
    (w.putRecord r).ghost = w.ghost.put (w.disk.records.find r.id) r := by
  unfold World.putRecord
  dsimp only
  split <;> rfl

/-- The write logs at most one entry, of the disk after it. -/
theorem World.putRecord_hist :
    (w.putRecord r).hist = ((writeEvents (w.disk.records.find r.id) r).map fun e =>
      ⟨e, (w.putRecord r).disk, w.clock⟩).toList ++ w.hist := by
  rw [World.putRecord_disk]
  unfold World.putRecord
  dsimp only
  split
  · rename_i e he
    rw [he]
    rfl
  · rename_i he
    rw [he]
    rfl

theorem Ghost.put_eq (g : Ghost) (old : Option MessageRecord) :
    g.put old r = { g with replying := (g.put old r).replying } := by
  unfold Ghost.put
  split <;> rfl

theorem Ghost.put_old (g : Ghost) (old : MessageRecord) : g.put (some old) r = g := by
  simp [Ghost.put]

theorem writeEvents_underway {old : Option MessageRecord} {e : Event} (h : writeEvents old r = some e)
    (d : Disk) (t : Int) (hist : List Entry) : underway (⟨e, d, t⟩ :: hist) = underway hist := by
  unfold writeEvents at h
  split at h
  · cases h
    rfl
  · split at h
    · cases h
      rfl
    · cases h

theorem World.putRecord_underway : underway (w.putRecord r).hist = underway w.hist := by
  rw [World.putRecord_hist]
  cases h : writeEvents (w.disk.records.find r.id) r with
  | none => rfl
  | some e => exact writeEvents_underway r h _ _ _

end putRecord

def Act.apply : Act → World → World
  | .seq n, w => { w with disk := { w.disk with seq := n } }
  | .raw i payload, w => { w with disk := { w.disk with raws := w.disk.raws ++ [(i, payload)] } }
  | .index e, w => { w with disk := { w.disk with index := w.disk.index ++ [e] } }
  | .record r, w => w.putRecord r
  | .request q, w =>
    { w with
      disk := { w.disk with requests := w.disk.requests.put q }
      ghost := { w.ghost with replying := none } }
  | .teaching t, w => { w with disk := { w.disk with teachings := w.disk.teachings.put t } }
  | .cursor c, w => { w with disk := { w.disk with cursors := w.disk.cursors.put c } }
  | .thread t, w => { w with disk := { w.disk with threads := w.disk.threads.put t } }
  | .poll p, w => { w with disk := { w.disk with polls := w.disk.polls.put p } }
  | .latch l, w => { w with disk := { w.disk with latches := w.disk.latches.put l } }
  | .mem m, w => { w with mem := m }
  | .mark e, w => { w.log e with ghost := w.ghost.mark e }
  | .take releaseIds, w =>
    { w.log (.reissuing releaseIds) with
      ghost := { w.ghost with reissuing := releaseIds, waiting := [], handed := none }
      mem := { w.mem with recovering := none, group := [] } }
  | .hand records releaseId reissue, w =>
    { w.log (.handed records releaseId reissue) with
      ghost := w.ghost.hand records releaseId
      mem := { w.mem with group := records } }

end CarbonRuntime
