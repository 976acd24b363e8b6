import CarbonRuntime.Outside

/-!
# The store, stream/store.ts

Each function of the store as a program: what it refuses, what it reads and the
file writes it makes, in the order it makes them. A read and the checks on it
happen at one point; a death may fall between any two writes.

`rewrite` is what the five functions share that put something on a record that
is already there (parkFailed, annotate, setDisposition, release,
completeRelease): read the file, take the next ordinal where the record is the
browser's, write the file.
-/

open CarbonRuntime.Core CarbonRuntime.Stream

namespace CarbonRuntime.Store

variable (L : Loop)

/-! ## The effects, by name -/

def fetch : Program L World := Prog.get

def write (a : Act) : Program L Unit := Prog.perform (𝔖 := sig L) a

def mark (e : Event) : Program L Unit := write L (.mark e)

def ask (q : Ask) : Program L q.Answer := Prog.ask (𝔖 := sig L) q

def raise {α : Type} (e : Err) : Program L α := .throw e

/-- `if (faults.length > 0) throw new StreamFault(faults)`. -/
def refuse (faults : List Fault) : Program L Unit :=
  if faults = [] then pure () else raise L (.stream faults)

/-- `new Date()` and `Date.now()`. -/
def now : Program L Int := ask L .now

/-- `new Date(now).toISOString()`. -/
def isoNow : Program L String := do
  let t ← now L
  pure (L.js.iso t)

/-! ## Ordinals and reads -/

/-- mirrors store.ts:257-264 -/
def nextSeq : Program L Nat := do
  let w ← fetch L
  write L (.seq (w.disk.seq + 1))
  pure (w.disk.seq + 1)

/-- mirrors store.ts:470-475 -/
def read (i : Identity) : Program L (Option MessageRecord) := do
  refuse L (pathFaults L.js i)
  let w ← fetch L
  pure (w.disk.records.find i)

/-- mirrors store.ts:485-497 -/
def rebuild : Program L (List MessageRecord) := ask L .listing

/-- mirrors store.ts:499-507 -/
def recordsIn (conversationId : String) : Program L (List MessageRecord) := do
  refuse L (componentFaults L.js "conversation_id" conversationId)
  let records ← ask L .listing
  pure (records.filter (·.conversationId = conversationId))

/-! ## Writing on a record that is there -/

/-- `...(on_disk.source === 'browser' ? { browser_event_seq: this.nextSeq() } : {})` -/
def stamp (record : MessageRecord) : Program L MessageRecord :=
  if record.source = "browser" then do
    let n ← nextSeq L
    pure { record with adapterFields := { record.adapterFields with browserEventSeq := some n } }
  else pure record

/-- Read the file at `i`, change it by `f`, write it. -/
def rewrite (i : Identity) (f : MessageRecord → MessageRecord) : Program L MessageRecord := do
  refuse L (pathFaults L.js i)
  let w ← fetch L
  match w.disk.records.find i with
  | none => raise L (.thrown "ENOENT: no such file or directory")
  | some onDisk => do
    let written ← stamp L (f onDisk)
    write L (.record written)
    pure written

def parkReason (faults : List Fault) : String :=
  "; ".intercalate (faults.map fun f => f.code ++ " " ++ f.subject ++ ": " ++ f.problem)

def parked (faults : List Fault) (reason : Option String) (r : MessageRecord) : MessageRecord :=
  { r with
    disposition := .parked
    adapterFields := { r.adapterFields with
      parkReason := some (reason.getD (parkReason faults))
      parkFaults := some faults } }

/-- mirrors store.ts:346-363 -/
def parkFailed (i : Identity) (faults : List Fault) (reason : Option String := none) :
    Program L MessageRecord := rewrite L i (parked faults reason)

def annotated (fields : AdapterFields → AdapterFields) (r : MessageRecord) : MessageRecord :=
  { r with adapterFields := fields r.adapterFields }

/-- mirrors store.ts:368-377 -/
def annotate (i : Identity) (fields : AdapterFields → AdapterFields) : Program L MessageRecord :=
  rewrite L i (annotated fields)

def disposed (d : Disposition) (r : MessageRecord) : MessageRecord := { r with disposition := d }

/-- mirrors store.ts:379-387 -/
def setDisposition (i : Identity) (d : Disposition) : Program L MessageRecord :=
  rewrite L i (disposed d)

/-! ## Cursors and capture -/

/-- mirrors store.ts:522-547 -/
def advanceCursor (conversationId : String) (kind : CursorKind) (position : String) :
    Program L Unit := do
  refuse L (componentFaults L.js "conversation_id" conversationId)
  let w ← fetch L
  let current := (w.disk.cursors.find conversationId).getD { conversationId }
  match kind with
  | .message =>
    if current.message.any fun held => decide (position ≤ held) then pure ()
    else write L (.cursor { current with message := some position })
  | .revision =>
    if current.revision.any fun held => decide (position ≤ held) then pure ()
    else write L (.cursor { current with revision := some position })

/-- An import's source merges into what another adapter wrote, store.ts:117-121. -/
def merges (source : String) : Bool := "import:".toList.isPrefixOf source.toList

/-- The union by sha256, the ones already there first. -/
def unionAttachments : List Attachment → List Attachment → List Attachment
  | have_, [] => have_
  | have_, a :: more =>
    if have_.any fun b => b.sha256 = a.sha256 then unionAttachments have_ more
    else unionAttachments (have_ ++ [a]) more

/-- mirrors store.ts:802-816 -/
def mergeRecords (existing incoming : MessageRecord) : MessageRecord :=
  { existing with attachments := unionAttachments existing.attachments incoming.attachments }

def messageIdClaimed (record existing : MessageRecord) : Fault :=
  ⟨"MESSAGE_ID_CLAIMED", record.messageId,
    "this message_id is already written by the adapter whose source is " ++ existing.source,
    "two live adapters cannot write one message_id; give the record its own " ++
      "conversation-scoped id"⟩

/-- `publishBrowserChange(record, 'capture')` as far as the loops hear it: a
browser input of this loop's account waits to be steered, loop.ts:735-742. -/
def acceptBrowserInput (record : MessageRecord) : Program L Unit := do
  if L.browser && record.source == "browser" && record.account == L.channel.account &&
      record.direction == .inbound && record.adapterFields.inputKind == some "message" &&
      record.release.isNone then
    let w ← fetch L
    write L (.mem { w.mem with
      browserPending := w.mem.browserPending.filter (·.messageId ≠ record.messageId) ++ [record] })
  else pure ()

/-- The write of a capture: the file as it stands after it, and whether it was
there before. -/
def captureWrite (record : MessageRecord) (seq : Nat) : Program L (MessageRecord × Bool) := do
  let w ← fetch L
  match w.disk.records.find record.id with
  | some existing =>
    if existing.source ≠ record.source && !merges record.source then
      raise L (.stream [messageIdClaimed record existing])
    else do
      let written := mergeRecords existing record
      if written ≠ existing then write L (.record written)
      pure (written, true)
  | none => do
    write L (.record record)
    write L (.index ⟨seq, record.id⟩)
    pure (record, false)

/-- The payload a record was read from is appended and synced first. -/
def appendRaw (i : Identity) (raw : Option String) : Program L Unit :=
  match raw with
  | some payload => write L (.raw i payload)
  | none => pure ()

/-- mirrors store.ts:293-328 -/
def capture (record : MessageRecord) (cursor : Option (CursorKind × String) := none)
    (typeFaults : List Fault := []) (disposition : Option Disposition := none)
    (raw : Option String := none) : Program L MessageRecord := do
  refuse L (typeFaults ++ validate L.js record)
  refuse L (pathFaults L.js record.id)
  let seq ← nextSeq L
  Prog.andFinally (𝔖 := sig L) (do
    appendRaw L record.id raw
    let (written, merged) ← captureWrite L record seq
    let written ← match disposition with
      | some d => if d ≠ written.disposition then setDisposition L written.id d else pure written
      | none => pure written
    if !merged then acceptBrowserInput L written
    pure written)
    (match cursor with
      | some (kind, position) => advanceCursor L record.conversationId kind position
      | none => pure ())

/-- mirrors store.ts:333-340 -/
def park (record : MessageRecord) (reason : String) (cursor : Option (CursorKind × String))
    (typeFaults : List Fault) (raw : Option String := none) : Program L MessageRecord :=
  capture L { record with
    disposition := .parked
    adapterFields := { record.adapterFields with parkReason := some reason } } cursor typeFaults
    none raw

/-! ## Holds and release -/

/-- `heldUntil`'s answer where a hold is there: `Infinity`, or a time. -/
inductive Until
  | forever
  | time (t : Int)
deriving DecidableEq

/-- The loop of `heldUntil` over a conversation's records, store.ts:553-563. -/
def heldUntil : Option Int → List MessageRecord → Option Until
  | acc, [] => acc.map .time
  | acc, r :: more =>
    match r.hold with
    | none => heldUntil acc more
    | some hold =>
      match L.js.parse hold.setAt with
      | none => heldUntil acc more
      | some setAt =>
        match hold.releaseAfterMs with
        | none => some .forever
        | some ms => heldUntil (some (max (acc.getD 0) (setAt + ms))) more

def Until.after (t : Int) : Until → Bool
  | .forever => true
  | .time u => decide (t < u)

/-- `isHeld` of a conversation's records, store.ts:565-568. -/
def isHeld (records : List MessageRecord) (t : Int) : Bool :=
  (heldUntil L none records).any (Until.after t)

def conversationHeld (conversationId : String) : Fault :=
  ⟨"CONVERSATION_HELD", conversationId, "an operator message holds this conversation",
    "release after the hold expires, per the declaration"⟩

def releaseFaults (record : MessageRecord) (held onDisk : Bool) : List Fault :=
  (if record.historical then
    [⟨"HISTORICAL_NEVER_RELEASES", record.messageId,
      "a historical record is the client's own past and releases no turn",
      "import history with historical true and release nothing from it"⟩] else []) ++
  (if record.disposition = .parked then
    [⟨"PARKED_NEVER_RELEASES", record.messageId,
      "a parked record was never understood and is not delivered",
      "fix the adapter and capture the payload again; the parked record stays where it is"⟩]
    else []) ++
  (if held then [conversationHeld record.conversationId] else []) ++
  (if onDisk then [] else
    [⟨"CAPTURE_BEFORE_RELEASE", record.messageId,
      "the capture is not on disk, so there is nothing to release",
      "capture the record before deciding to release it"⟩])

def withRelease (rel : Release) (r : MessageRecord) : MessageRecord := { r with release := some rel }

/-- mirrors store.ts:574-614; `at_` is the reading of the clock it is handed. -/
def release (record : MessageRecord) (rel : Release) (at_ : Int) (holdApplies : Bool) :
    Program L MessageRecord := do
  let held ← if holdApplies then do
      let records ← recordsIn L record.conversationId
      pure (isHeld L records at_)
    else pure false
  refuse L (pathFaults L.js record.id)
  let w ← fetch L
  refuse L (releaseFaults record held (w.disk.records.find record.id).isSome)
  rewrite L record.id (withRelease rel)

/-- `{ ...on_disk.release, completed_at }`; an absent release spreads to nothing. -/
def completedRelease (at_ : String) (rel : Option Release) : Release :=
  { rel.getD ⟨"", "", "", none⟩ with completedAt := some at_ }

def completed (at_ : String) (r : MessageRecord) : MessageRecord :=
  { r with
    release := some (completedRelease at_ r.release)
    adapterFields := if r.source = "browser" then
        { r.adapterFields with modelEffect := some .completed }
      else r.adapterFields }

/-- mirrors store.ts:616-624 -/
def completeRelease (i : Identity) (at_ : String) : Program L MessageRecord :=
  rewrite L i (completed at_)

/-! ## Outbound -/

/-- mirrors store.ts:628-640 -/
def readRequest (requestId : String) : Program L (Option ReplyRequest) := do
  refuse L (componentFaults L.js "request_id" requestId)
  let w ← fetch L
  pure (w.disk.requests.find requestId)

inductive ReplyOutcome
  /-- `fenced: 'sent'` -/
  | sent (chunkIds : List String) (messageId : String)
  /-- `fenced: null` -/
  | written (record : MessageRecord)
deriving DecidableEq

def replyFaults (record : MessageRecord) (owned : List MessageRecord) : List Fault :=
  (if record.direction = .outbound then [] else
    [⟨"REPLY_NOT_OUTBOUND", record.messageId, "a reply is an outbound record",
      "set direction to outbound"⟩]) ++
  (if record.delivery.all (·.requestId = "") then
    [⟨"REPLY_WITHOUT_REQUEST_ID", record.messageId,
      "a reply carries a delivery with a request_id, which is the fence against sending twice",
      "give the reply a request_id"⟩] else []) ++
  (match owned with
  | [] => [⟨"CONVERSATION_NOT_OWNED", record.conversationId,
      "this agent has captured nothing on this conversation, so it does not answer on it",
      "reply on a conversation this agent owns"⟩]
  | first :: _ =>
    if owned.any (·.account = record.account) then [] else
      [⟨"REPLY_ACCOUNT_MISMATCH", record.account,
        "the conversation arrived on " ++ first.account ++ " and the reply goes out on " ++
          record.account,
        "answer on the account the inbound arrived on"⟩])

def requestAlreadyPending (requestId : String) (status : Status) : Fault :=
  ⟨"REQUEST_ALREADY_PENDING", requestId,
    if status = .pendingTeachCheck then
      "a reply with this request_id is already written and is held until this turn completes"
    else "a reply with this request_id is already written and not yet sent",
    "wait for the send to finish; do not write a second reply under one request id"⟩

def deliveryUnknown (requestId : String) : Fault :=
  ⟨"DELIVERY_UNKNOWN_NEVER_RETRIED", requestId,
    "this reply's acceptance is unknown, and an uncertain send is never retried blindly",
    "a person decides what happened to this send"⟩

/-- The record of a reply as it is captured. -/
def replyRecord (record : MessageRecord) (delivery : Delivery) (status : Status) : MessageRecord :=
  { record with delivery := some { delivery with status } }

def replyRequest (record : MessageRecord) (delivery : Delivery) (status : Status) : ReplyRequest :=
  { requestId := delivery.requestId
    status
    conversationId := record.conversationId
    messageId := record.messageId
    revision := record.revision }

/-- Capture the reply, then write its fence. -/
def replyWrite (record : MessageRecord) (delivery : Delivery) (status : Status) :
    Program L MessageRecord := do
  let written ← capture L (replyRecord record delivery status)
  write L (.request (replyRequest record delivery status))
  pure written

/-- mirrors store.ts:660-717; `status` is `pending` or `pendingTeachCheck`. -/
def reply (record : MessageRecord) (status : Status := .pending) : Program L ReplyOutcome := do
  let records ← recordsIn L record.conversationId
  let unwritable : List Fault := if status.live then [] else
    [⟨"REPLY_STATUS_UNWRITABLE", status.text,
      "a reply is written pending, or pending-teach-check when it is held until its turn " ++
        "completes, and never at any other status",
      "write the reply at pending, or at pending-teach-check to hold it; a sent, unknown or " ++
        "failed status is settled later and never written here"⟩]
  refuse L (unwritable ++ replyFaults record (records.filter (·.direction = .inbound)))
  match record.delivery with
  | none => raise L (.thrown "Cannot read properties of undefined (reading 'request_id')")
  | some delivery => do
    let existing ← readRequest L delivery.requestId
    match existing with
    | some q =>
      match q.status with
      | .sent => pure (.sent q.chunkIds q.messageId)
      | .pending | .pendingTeachCheck =>
        raise L (.stream [requestAlreadyPending delivery.requestId q.status])
      | .unknown => raise L (.stream [deliveryUnknown delivery.requestId])
      | .failed => do
        let written ← replyWrite L record delivery status
        pure (.written written)
    | none => do
      let written ← replyWrite L record delivery status
      pure (.written written)

def requestUnknown (requestId : String) : Fault :=
  ⟨"REQUEST_UNKNOWN", requestId, "no reply was written under this request id",
    "write the reply before settling its delivery"⟩

/-- `{ ...record.delivery, status, ...extra }`; an absent delivery spreads to nothing. -/
def settledDelivery (delivery : Option Delivery) (status : Status) (chunkIds : Option (List String))
    (completedAt : Option String) : Delivery :=
  let delivery := delivery.getD ⟨"", status, "", none, none, none⟩
  { delivery with
    status
    chunkIds := chunkIds <|> delivery.chunkIds
    completedAt := completedAt <|> delivery.completedAt }

def settled (status : Status) (chunkIds : Option (List String)) (completedAt : Option String)
    (r : MessageRecord) : MessageRecord :=
  { r with delivery := some (settledDelivery r.delivery status chunkIds completedAt) }

/-- mirrors store.ts:719-738 -/
def settleDelivery (requestId : String) (status : Status) (chunkIds : Option (List String) := none)
    (completedAt : Option String := none) : Program L MessageRecord := do
  let request ← readRequest L requestId
  match request with
  | none => raise L (.stream [requestUnknown requestId])
  | some request => do
    let record ← read L request.names
    match record with
    | none => raise L (.thrown "Cannot read properties of null (reading 'delivery')")
    | some record => do
      let written ← stamp L (settled status chunkIds completedAt record)
      write L (.record written)
      write L (.request { request with status, chunkIds := chunkIds.getD request.chunkIds })
      pure written

def replyNotHeld (requestId : String) (request : Option ReplyRequest) : Fault :=
  ⟨"REPLY_NOT_HELD", requestId,
    match request with
    | some q => "the reply under this request id is " ++ q.status.text ++
        " and only a reply held at pending-teach-check is let go"
    | none => "no reply was written under this request id, so there is nothing held",
    "let go only a reply this runtime held for the teach check"⟩

/-- mirrors store.ts:743-753 -/
def releaseHeldReply (requestId : String) : Program L MessageRecord := do
  let request ← readRequest L requestId
  if request.any (·.status = .pendingTeachCheck) then do
    mark L (.letGo requestId)
    settleDelivery L requestId .pending
  else raise L (.stream [replyNotHeld requestId request])

/-- mirrors store.ts:757-767: markSent, markUnknown and markFailed. -/
def markSent (requestId : String) (chunkIds : List String) : Program L MessageRecord := do
  let at_ ← isoNow L
  settleDelivery L requestId .sent (some chunkIds) (some at_)

def markUnknown (requestId : String) : Program L MessageRecord := do
  let at_ ← isoNow L
  settleDelivery L requestId .unknown none (some at_)

def markFailed (requestId : String) : Program L MessageRecord := do
  let at_ ← isoNow L
  settleDelivery L requestId .failed none (some at_)

/-! ## Threads -/

/-- mirrors store.ts:777-779 -/
def writeThread (data : ThreadRecord) : Program L Unit := do
  refuse L (componentFaults L.js "unit_id" data.unitId)
  write L (.thread data)

/-- mirrors store.ts:781-787 -/
def readThread (unitId : String) : Program L (Option ThreadRecord) := do
  refuse L (componentFaults L.js "unit_id" unitId)
  let w ← fetch L
  pure (w.disk.threads.find unitId)

end CarbonRuntime.Store
