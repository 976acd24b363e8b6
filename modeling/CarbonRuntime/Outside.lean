import CarbonRuntime.World

/-!
# What the runtime asks of the outside

Everything a release loop gets from elsewhere is the answer to an `Ask`:
the clock, the order a directory is listed in, the adapter's operations
(poll, payload, send), the harness's (threads, tool servers, turns), the
records action service and the browser's ticket reader.

An awaited answer (`Awaited`) carries the calls that arrive while the process
waits: the model's tool calls, a browser input captured by the bridge, a tool
server's status change, what becomes of a steering request.

`Loop` is one release loop as it is built (runtime/loop.ts:646-712): the
declaration, its channel, and `outside`, which answers the outside may give.
Nothing is assumed of `outside` unless a theorem says so. `sig L` is the
signature its programs run over; in it a listing is always a permutation of
the record files, and a record an adapter hands over carries no release, no
delivery and no disposition but the three an adapter writes.
-/

open CarbonRuntime.Core CarbonRuntime.Stream

namespace CarbonRuntime

/-! ## Calls -/

/-- The arguments of the reply tool, runtime/reply-tool.ts:6. -/
structure ReplyArgs where
  conversationId : String
  requestId : String
  text : String
  /-- The files named, as read and put in the store, or why they could not be. -/
  attachments : Except (List Fault) (List Attachment) := .ok []
  /-- `about_job` and `about_move`, where both are strings. -/
  about : Option (String × String) := none
  /-- What the bound browser validator answers. -/
  validation : List Fault := []
deriving DecidableEq

/-- The arguments of `remember` and `raise_change`. -/
structure TeachArgs where
  text : String
  conversationId : String
  sourceMessageId : String
  failedQuestion : String := ""
deriving DecidableEq

structure ForgetArgs where
  id : String
  conversationId : String
  sourceMessageId : String
deriving DecidableEq

/-- How far a browser input is dispatched: the harness cannot steer, its files
could not be bound, or the steering request is out. -/
inductive Steering
  | unsupported | unprepared | requested
deriving DecidableEq

/-- What an adapter hands the store: a record, where its cursor goes, the
schema faults of declared fields that are not of their declared type, the payload
it was read from, and whether bytes of attachments come with it. -/
structure Candidate where
  record : MessageRecord
  cursor : Option (CursorKind × String) := none
  typeFaults : List Fault := []
  raw : Option String := none
  bytes : Bool := false
deriving DecidableEq

/-- The message id of the reply under a request id, runtime/reply-tool.ts:265. -/
def replyMessageId (conversationId requestId : String) : String :=
  conversationId ++ ":reply-" ++ requestId

/-- What an adapter writes: no release, no delivery, none of the dispositions
the runtime writes; the browser's adapter and no other writes browser records.
What it captures of the agent's own sends is under the channel's id of them: a
bracketed Message-ID, a number, an evidence change. -/
def Candidate.fits (browser : Bool) (c : Candidate) : Prop :=
  c.record.release = none ∧ c.record.delivery = none ∧
    (c.record.disposition = .captured ∨ c.record.disposition = .policyDrop ∨
      c.record.disposition = .parked) ∧
    (c.record.source = "browser" ↔ browser = true) ∧
    (c.record.direction = .outbound →
      (c.record.conversationId ++ ":reply-").toList.isPrefixOf c.record.messageId.toList = false)

instance (browser : Bool) (c : Candidate) : Decidable (c.fits browser) := by
  unfold Candidate.fits; infer_instance

inductive Call
  /-- The reply tool, with the records service's answer to the claim. -/
  | reply (args : ReplyArgs) (claim : Except Err (Option Claim))
  | remember (args : TeachArgs)
  | raiseChange (args : TeachArgs)
  | forget (args : ForgetArgs)
  /-- A record captured beside the loop: a browser input, a browser evidence change. -/
  | submit (c : Candidate)
  | toolStatusChanged
  /-- The turn was accepted by the harness (`onStarted`). -/
  | started (turnId : String)
  /-- The next pending browser input is dispatched as far as its steering request. -/
  | steer (how : Steering)
  /-- The steering request is answered, or has failed; `notDelivered` is the
  harness's verdict on a failure. -/
  | steered (acknowledged notDelivered : Bool)
deriving DecidableEq

def Call.fits (browser : Bool) : Call → Prop
  | .submit c => c.fits browser
  | _ => True

instance (browser : Bool) (c : Call) : Decidable (c.fits browser) := by
  cases c <;> unfold Call.fits <;> infer_instance

structure Awaited (α : Type) where
  calls : List Call := []
  result : Except Err α

/-! ## Answers -/

/-- A time as a harness reports it, read by `when` (loop.ts:213). -/
inductive Stamp
  | seconds (n : Int)
  | text (s : String)
  | absent
deriving DecidableEq

/-- `disposition` of a carbon.program-result.v1 document. -/
inductive ProgramDisposition
  | reply | noReply | missingCase | other
deriving DecidableEq

structure ProgramResult where
  disposition : ProgramDisposition
  reply : Option ReplyArgs := none
  /-- What the records service answers to the claim of that reply. -/
  claim : Except Err (Option Claim) := .ok none
deriving DecidableEq

structure TurnResult where
  status : TurnStatus
  completedAt : Stamp := .absent
  /-- `agent_message`, where it is a string. -/
  agentMessage : Option String := none
  error : Option String := none
  program : Option ProgramResult := none
deriving DecidableEq

inductive SendStatus
  | sent | unknown | other
deriving DecidableEq

structure SendOutcome where
  status : SendStatus
  chunkIds : List String := []
deriving DecidableEq

/-- What one pass's `listPending`, `payload` and `consume` come to. -/
structure Batch where
  entries : List Candidate := []
  parked : List (Candidate × String) := []
  consume : List (String × CursorKind × String) := []
deriving DecidableEq

/-- The servers a harness lists, and the faults its `holdsRelease` finds. -/
structure ToolStatus where
  names : List String
  holds : List Fault := []
deriving DecidableEq

inductive Ask
  | now
  | listing
  | stopping
  | sandbox
  | payload
  | render
  | afterTurn
  | poll
  | thread (unitId : String) (resume : Option String)
  | toolStatus
  | probe (url : String)
  | collect (sourceId channel unit : String)
  | beginTurn (releaseId unit : String) (sourceIds : List String)
  | endTurn (releaseId : String)
  | join (messageIds : List String)
  | prepare (releaseId : String)
  | readThread (threadId : String)
  | turn (releaseId clientUserMessageId : String)
  | send (record : MessageRecord)
  | finish (claim : Claim)
  | settle
deriving DecidableEq

/-- `poll` answers `none` where the adapter exports no poll, else how many
items it read; `settle` is the wait for the steering chain. -/
@[reducible] def Ask.Answer : Ask → Type
  | .now => Int
  | .listing => List MessageRecord
  | .stopping => Bool
  | .sandbox | .render | .afterTurn => Except Err Unit
  | .payload => Except Err Batch
  | .poll => Awaited (Option Nat)
  | .thread _ _ => Awaited String
  | .toolStatus => Awaited ToolStatus
  | .probe _ => Awaited Bool
  | .turn _ _ => Awaited TurnResult
  | .send _ => Awaited (Option SendOutcome)
  | .collect _ _ _ | .beginTurn _ _ _ | .endTurn _ | .join _ | .prepare _ | .readThread _
  | .finish _ | .settle => Awaited Unit

def Awaited.fits {α : Type} (browser : Bool) (a : Awaited α) : Prop :=
  ∀ c ∈ a.calls, c.fits browser

instance {α : Type} (browser : Bool) (a : Awaited α) : Decidable (a.fits browser) := by
  unfold Awaited.fits; infer_instance

def Batch.fits (browser : Bool) (b : Batch) : Prop :=
  (∀ c ∈ b.entries, c.fits browser) ∧ ∀ c ∈ b.parked, c.1.fits browser

instance (browser : Bool) (b : Batch) : Decidable (b.fits browser) := by
  unfold Batch.fits; infer_instance

/-- The records action service answers with its own faults, never the store's. -/
def isStream : Err → Bool
  | .stream _ => true
  | _ => false

/-- A listing is of the files that are there; what adapters hand over is as
adapters write it. -/
def Ask.fits (browser : Bool) : (q : Ask) → q.Answer → World → Prop
  | .listing, l, w => l.Perm w.disk.records.rows
  | .payload, .ok b, _ => b.fits browser
  | .poll, a, _ => a.fits browser
  | .thread _ _, a, _ => a.fits browser
  | .toolStatus, a, _ => a.fits browser
  | .probe _, a, _ => a.fits browser
  | .turn _ _, a, _ => a.fits browser
  | .send _, a, _ => a.fits browser
  | .collect _ _ _, a, _ => a.fits browser
  | .beginTurn _ _ _, a, _ => a.fits browser
  | .endTurn _, a, _ => a.fits browser
  | .join _, a, _ => a.fits browser
  | .prepare _, a, _ => a.fits browser
  | .readThread _, a, _ => a.fits browser
  | .finish _, a, _ =>
    a.fits browser ∧ ∀ e, a.result = .error e → isStream e = false
  | .settle, a, _ => a.fits browser
  | _, _, _ => True

instance (a : Awaited Unit) : Decidable (∀ e, a.result = .error e → isStream e = false) :=
  match h : a.result with
  | .ok _ => .isTrue (by intro e he; cases he)
  | .error e => decidable_of_iff (isStream e = false)
      ⟨fun he e' h' => by cases h'; exact he, fun hall => hall e rfl⟩

instance (browser : Bool) (q : Ask) (a : q.Answer) (w : World) :
    Decidable (q.fits browser a w) := by
  cases q <;> try (unfold Ask.fits; infer_instance)
  case payload => cases a <;> unfold Ask.fits <;> infer_instance

/-- Whether the process gives up its thread until the answer is there. -/
def Ask.awaits : Ask → Bool
  | .now | .listing | .stopping | .sandbox | .payload | .render | .afterTurn => false
  | _ => true

def Ask.after : (q : Ask) → q.Answer → World → World
  | .now, t, w => { w with clock := t }
  | _, _, w => w

/-! ## The loop -/

structure Loop where
  js : Js
  declaration : Declaration
  channel : Channel
  agent : String
  /-- The answers this loop's outside may give. -/
  outside : (q : Ask) → q.Answer → World → Prop := fun _ _ _ => True

def Loop.browser (L : Loop) : Bool := L.channel.kind == "browser"

@[reducible] def sig (L : Loop) : Sig where
  S := World
  W := Act
  apply := Act.apply
  Q := Ask
  A := Ask.Answer
  valid q a w := q.fits L.browser a w ∧ L.outside q a w
  after := Ask.after
  E := Err

/-- A program of the loop `L`. -/
abbrev Program (L : Loop) (α : Type) := Prog (sig L) α

instance (L : Loop) [∀ q a w, Decidable (L.outside q a w)] (q : Ask) (a : q.Answer) (w : World) :
    Decidable ((sig L).valid q a w) := 
  inferInstanceAs (Decidable (q.fits L.browser a w ∧ L.outside q a w))

end CarbonRuntime
