import CarbonRuntime.Adapters.Contract
import CarbonRuntime.Adapters.Email.Read

/-!
# The email adapter

`listPending`, `consume` and `payload` of adapters/email/index.ts. Which record an item is
read as depends on what of its conversation is on disk at that moment: the three read the item
anew, `consume` after the batch it came in was captured.
-/

open CarbonRuntime.Core CarbonRuntime.Stream

namespace CarbonRuntime.Adapters.Email

open Store

variable (M : Mail) (J : Js)

/-- The item is past the cursor of what it is read as; what the store would refuse is pending. -/
def isPending (d : Disk) (x : Item) : Bool :=
  let read := readItem M J d x
  componentFaults J "conversation_id" read.conversationId ≠ [] ||
    past x.position ((d.cursorsOf read.conversationId).at' read.cursorKind)

/-- mirrors index.ts:420-431 -/
def listPending (d : Disk) (items : List Item) : List Item := items.filter (isPending M J d)

/-- mirrors index.ts:436-442 -/
def consume (d : Disk) (x : Item) : List (String × CursorKind × String) :=
  let read := readItem M J d x
  [(read.conversationId, read.cursorKind, x.position),
    (pollWatermarkConversation M (x.mailbox.getD M.channel.mailbox), .message,
      x.mailboxPosition.getD x.position)]

/-! ## Payload, index.ts:445-531 -/

/-- The chunks of what the agent sent in a conversation, index.ts:409-419. -/
def ownSentIds (d : Disk) (conversationId : String) : List String :=
  (recordsOf J d conversationId).flatMap fun r => (r.delivery.bind (·.chunkIds)).getD []

def senderOf (headers : List Header) : String :=
  ((addressesIn M ((headerRaw headers "from").getD "")).head?).getD "unknown"

def recipientsOf (headers : List Header) : List String :=
  addressesIn M ((headerRaw headers "to").getD "") ++
    addressesIn M ((headerRaw headers "cc").getD "") ++
    (headersAll headers "delivered-to").flatMap (addressesIn M) ++
    (headersAll headers "x-delivered-to").flatMap (addressesIn M) ++
    (headersAll headers "envelope-to").flatMap (addressesIn M) ++
    (headersAll headers "x-original-to").flatMap (addressesIn M)

def sentStamp : String := "x-carbon-origin"

/-- The agent's own mail: from a declared address, and stamped or one of its chunks. -/
def isOwn (d : Disk) (read : ReadResult) : Bool :=
  (declaredAddresses M).contains (senderOf M read.headers) &&
    (M.lower ((header read.headers sentStamp).getD "") == "agent" ||
      (ownSentIds J d read.conversationId).contains read.platformMessageId)

def roleOf (d : Disk) (read : ReadResult) : Role :=
  if isOwn M J d read then .agent
  else if (declaredAddresses M).contains (senderOf M read.headers) then .operator
  else .contact

/-- The Date header: as it is where it is no date. -/
def sentAt (headers : List Header) : Option String :=
  (header headers "date").map fun date =>
    match J.parse date with
    | none => date
    | some t => J.iso t

def holdOf (sent : Option String) (receivedAt : String) : Hold :=
  { reason := "a person wrote from the agent's own mailbox"
    setAt := sent.getD receivedAt
    releaseAfterMs := M.channel.releaseAfterMs }

def startsWith (text start : String) : Bool := start.toList.isPrefixOf text.toList

/-- mirrors index.ts:557-568 -/
def adapterFields (headers : List Header) : AdapterFields :=
  let own := headers.filter fun h => startsWith h.name "x-" && !startsWith h.name "x-carbon-"
  { other := (own.map (·.name)).eraseDups.flatMap fun name =>
      match headersAll own name with
      | [value] => [([name], value)]
      | values => values.zipIdx.map fun (value, n) => ([name, toString n], value) }

/-- The record of a message that was read. -/
def recordOf (d : Disk) (receivedAt : String) (read : ReadResult) (message : Message) :
    MessageRecord :=
  let role := roleOf M J d read
  { agent := M.agent, source := "email", account := M.account
    conversationId := read.conversationId, conversationKind := "thread"
    messageId := read.messageId, platformMessageId := read.platformMessageId
    revision := read.revision
    direction := if isOwn M J d read then .outbound else .inbound
    role, senderId := senderOf M read.headers
    senderName := displayName M ((headerRaw read.headers "from").getD "")
    receivedAt, sentAt := sentAt J read.headers, body := message.body
    attachments := message.attachments
    disposition :=
      if (declaredAddresses M).any (recipientsOf M read.headers).contains then .captured
      else .policyDrop
    hold := if role = .operator then some (holdOf M (sentAt J read.headers) receivedAt) else none
    adapterFields := adapterFields read.headers
    replyTo := (idsIn ((headerRaw read.headers "in-reply-to").getD "")).head? }

/-- mirrors index.ts:534-552 -/
def smallestRecord (receivedAt : String) (read : ReadResult) : MessageRecord :=
  { agent := M.agent, source := "email", account := M.account
    conversationId := read.conversationId, conversationKind := "thread"
    messageId := read.messageId, platformMessageId := read.platformMessageId
    direction := .inbound, role := .contact, senderId := senderOf M read.headers, receivedAt
    body := "", disposition := .parked }

/-- What an item comes to: an entry, or what is parked and why. -/
def candidateOf (d : Disk) (receivedAt : String) (x : Item) : Candidate × Option String :=
  let read := readItem M J d x
  let cursor := some (read.cursorKind, x.position)
  match read.content with
  | .error reason =>
    ({ record := smallestRecord M receivedAt read, cursor, raw := some x.raw }, some reason)
  | .ok message =>
    ({ record := recordOf M J d receivedAt read message, cursor, raw := some x.raw
       bytes := message.attachments.any fun a => !a.downloadFailed }, none)

section
variable {M J} {d : Disk} {receivedAt : String} {x : Item}

theorem candidateOf_ok {message : Message} (h : (readItem M J d x).content = .ok message) :
    candidateOf M J d receivedAt x =
      ({ record := recordOf M J d receivedAt (readItem M J d x) message
         cursor := some ((readItem M J d x).cursorKind, x.position), raw := some x.raw
         bytes := message.attachments.any fun a => !a.downloadFailed }, none) := by
  simp only [candidateOf, h]

theorem candidateOf_error {reason : String} (h : (readItem M J d x).content = .error reason) :
    candidateOf M J d receivedAt x =
      ({ record := smallestRecord M receivedAt (readItem M J d x)
         cursor := some ((readItem M J d x).cursorKind, x.position), raw := some x.raw },
        some reason) := by
  simp only [candidateOf, h]

/-- A readable item is an entry: the text it is read as, at its own place. -/
theorem candidate_entry (h : Readable x) (receivedAt : String) :
    (candidateOf M J d receivedAt x).2 = none ∧
      (candidateOf M J d receivedAt x).1.record.id = (readItem M J d x).id ∧
      (candidateOf M J d receivedAt x).1.record.body = bodyOf x ∧
      (candidateOf M J d receivedAt x).1.cursor =
        some ((readItem M J d x).cursorKind, x.position) ∧
      (candidateOf M J d receivedAt x).1.typeFaults = [] := by
  obtain ⟨message, hm, hc⟩ := readItem_content (M := M) (J := J) (d := d) h
  rw [candidateOf_ok hc]
  refine ⟨rfl, rfl, ?_, rfl, rfl⟩
  simp only [bodyOf, hm]
  rfl

end

def payloadOf (d : Disk) (receivedAt : String) (items : List Item) : Payload :=
  let all := items.map (candidateOf M J d receivedAt)
  { entries := (all.filter (·.2.isNone)).map (·.1)
    parked := all.filterMap fun (c, reason) => reason.map (c, ·) }

/-- The adapter as the loop calls it. -/
def adapter : Adapter Item where
  listPending d _ items := .ok (listPending M J d items)
  payload d at_ items := .ok (payloadOf M J d (J.iso at_) items)
  consume := consume M J

end CarbonRuntime.Adapters.Email
