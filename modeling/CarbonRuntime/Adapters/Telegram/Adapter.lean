import CarbonRuntime.Adapters.Contract
import CarbonRuntime.Adapters.Telegram.Read

/-!
# The Telegram adapter

`listPending`, `consume` and `payload` of adapters/telegram/index.ts. An edit is numbered after
the records of its message on disk, and after the edits of the batch that were numbered before
it: `revisions` counts those, under the message's id in its chat and not under the chat.
-/

open CarbonRuntime.Core CarbonRuntime.Stream

namespace CarbonRuntime.Adapters.Telegram

open Store

variable (B : Bot) (J : Js)

def recordsIn (d : Disk) (conversationId : String) : List MessageRecord :=
  d.records.rows.filter (·.conversationId = conversationId)

/-- mirrors index.ts:158-189 -/
def pastCursors (d : Disk) (x : Item) : Bool :=
  match conversationIdOf B x with
  | none => true
  | some conversation =>
    if componentFaults J "conversation_id" conversation ≠ [] then true
    else if past x.place ((d.cursorsOf conversation).at' (kindOf x)) then true
    else if kindOf x ≠ .revision then false
    else !(recordsIn d conversation).any fun r => recordedEditDate r = editDateOf x

def listPending (d : Disk) (items : List Item) : List Item := items.filter (pastCursors B J d)

/-- mirrors index.ts:197-210 -/
def consume (x : Item) : List (String × CursorKind × String) :=
  (match conversationIdOf B x with
  | some conversation => [(conversation, kindOf x, x.place)]
  | none => []) ++
  match x.update.updateId with
  | some updateId => [(updatesConversation B, .message, offsetPositionOf updateId)]
  | none => []

/-! ## Payload, index.ts:214-350 -/

def source : String := "telegram"

def answersIn (chatId : Int) : Bool :=
  match B.channel.allowedChatIds with
  | none => true
  | some allowed => allowed.contains (toString chatId)

def isOperator (senderId : String) : Bool := B.channel.operatorSenderIds.contains senderId

/-- The bot's own message. -/
def isOwn (sender : Sender) : Bool := sender.isBot && B.channel.botId == some sender.id

def conversationKind (chat : Chat) : String := if chat.isPrivate then "direct" else "group"

def readable (m : Message) : Bool := m.body ≠ "" || m.media.isSome

/-- index.ts:353-360 -/
def countRevisions (d : Disk) (conversationId platformMessageId : String) : Nat :=
  if componentFaults J "conversation_id" conversationId = [] then
    ((recordsIn d conversationId).filter (·.platformMessageId = platformMessageId)).length
  else 0

/-- What the item carries, or that the media was not fetched. -/
def attachmentsFor (x : Item) (media : Option Media) : List Attachment :=
  match x.attachments, media with
  | some attachments, _ => attachments
  | none, none => []
  | none, some media =>
    [{ file := "unavailable/" ++ media.fileId, filename := media.fileName, mime := media.mime
       bytes := media.bytes
       sha256 := "0000000000000000000000000000000000000000000000000000000000000000"
       downloadFailed := true }]

def chatAbsent (x : Item) : Fault :=
  ⟨"CHAT_ABSENT", (x.update.updateId.map toString).getD "an update",
    "the update names no chat, so there is no conversation to write it under",
    "ask the server only for the update types this adapter reads; anything else is dropped at the poll"⟩

/-- mirrors index.ts:335-351 -/
def smallestRecord (receivedAt conversationId messageId platformMessageId : String) :
    MessageRecord :=
  { agent := B.agent, source, account := B.account, conversationId, conversationKind := "direct"
    messageId, platformMessageId, direction := .inbound, role := .contact, senderId := "unknown"
    receivedAt, body := "", disposition := .parked }

def adapterFields (m : Message) (edited channelPost : Bool) : AdapterFields :=
  { other :=
      ((m.album.map fun id => (["media_group_id"], id)).toList ++
        (if edited then (m.editDate.map fun at_ => (["edit_date"], toString at_)).toList else []) ++
        (if channelPost then [(["channel_post"], "true")] else []) ++
        (m.threadId.map fun id => (["message_thread_id"], toString id)).toList ++
        ((m.media.bind (·.fileName)).map fun name => (["file_name"], name)).toList ++
        if m.forwarded then [(["forwarded"], "true")] else []) }

/-- The record of a message, as the revision it is numbered. -/
def recordOf (receivedAt : String) (x : Item) (m : Message) (chat : Chat)
    (edited channelPost : Bool) (revision : Nat) : MessageRecord :=
  let conversationId := B.account ++ ":" ++ toString chat.id
  let operator := !isOwn B m.sender && isOperator B m.sender.id
  let sentAt := m.date.map fun date => J.iso (date * 1000)
  { agent := B.agent, source, account := B.account, conversationId
    conversationKind := conversationKind chat
    messageId := conversationId ++ ":" ++ toString m.messageId
    platformMessageId := toString m.messageId, revision
    direction := if isOwn B m.sender then .outbound else .inbound
    role := if isOwn B m.sender then .agent else if operator then .operator else .contact
    senderId := m.sender.id, senderName := m.sender.name, receivedAt, sentAt, body := m.body
    attachments := attachmentsFor x m.media
    disposition := if answersIn B chat.id then .captured else .policyDrop
    replyTo := m.replyTo.map toString
    hold :=
      if operator then
        some
          { reason := "an operator this channel names wrote in this chat"
            setAt := sentAt.getD receivedAt
            releaseAfterMs := some B.channel.releaseAfterMs }
      else none
    adapterFields := adapterFields m edited channelPost }

/-- `revisions` -/
abbrev Numbered := List (String × Nat)

/-- The number of a message or an edit, and what is numbered after it. -/
def numberOf (d : Disk) (revisions : Numbered) (m : Message) (chat : Chat) (edited : Bool) :
    Nat × Numbered :=
  if edited then
    let counted := (revisions.lookup (toString m.messageId)).getD
      (countRevisions J d (B.account ++ ":" ++ toString chat.id) (toString m.messageId))
    (counted, (toString m.messageId, counted + 1) :: revisions)
  else (0, revisions)

/-- What a message comes to, with why it is parked where it is. -/
def candidateOf (receivedAt : String) (x : Item) (m : Message) (chat : Chat)
    (edited channelPost : Bool) (revision : Nat) : Candidate × Option String :=
  let cursor := some (kindOf x, x.place)
  let record := recordOf B J receivedAt x m chat edited channelPost revision
  if readable m then
    ({ record, cursor, raw := some x.update.json
       bytes := record.attachments.any fun a => !a.downloadFailed }, none)
  else
    ({ record := { record with body := "", attachments := [], disposition := .parked }
       cursor, raw := some x.update.json },
      some ("the message carries " ++ m.serviceKind ++ ", which this adapter does not read"))

/-- An update without a message is parked. -/
def unreadOf (receivedAt kind : String) (x : Item) : Candidate × Option String :=
  let id := (x.update.updateId.map toString).getD "unknown"
  ({ record := smallestRecord B receivedAt (B.account ++ ":unreadable")
       (B.account ++ ":unreadable:update-" ++ id) id
     cursor := some (kindOf x, x.place), raw := some x.update.json },
    some ("the update is a " ++ kind ++ " this adapter does not read"))

/-- What an item comes to. -/
def readItem (d : Disk) (now : String) (revisions : Numbered) (x : Item) :
    Except Err ((Candidate × Option String) × Numbered) :=
  match x.update.content with
  | .unknown kind => .ok (unreadOf B (x.receivedAt.getD now) kind x, revisions)
  | .message m edited channelPost =>
    match m.chat with
    | none => .error (.stream [chatAbsent x])
    | some chat =>
      let number := numberOf B J d revisions m chat edited
      .ok (candidateOf B J (x.receivedAt.getD now) x m chat edited channelPost number.1, number.2)

def readAll (d : Disk) (now : String) : Numbered → List Item →
    Except Err (List (Candidate × Option String))
  | _, [] => .ok []
  | revisions, x :: items => do
    let (c, revisions) ← readItem B J d now revisions x
    let more ← readAll d now revisions items
    .ok (c :: more)

def payloadOf (d : Disk) (now : String) (items : List Item) : Except Err Payload := do
  let all ← readAll B J d now [] items
  .ok
    { entries := (all.filter (·.2.isNone)).map (·.1)
      parked := all.filterMap fun (c, reason) => reason.map (c, ·) }

/-- The adapter as the loop calls it. -/
def adapter : Adapter Item where
  listPending d _ items := .ok (listPending B J d items)
  payload d at_ items := payloadOf B J d (J.iso at_) items
  consume _ := consume B

end CarbonRuntime.Adapters.Telegram
