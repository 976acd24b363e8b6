import CarbonRuntime.Adapters.Contract
import CarbonRuntime.Adapters.WhatsApp.Read

/-!
# The WhatsApp adapter

`listPending`, `consume` and `payload` of adapters/whatsapp/index.ts. A picture of an album is
held back until the album is quiet. An edit is numbered after the records of its message on disk,
and after the edits of the batch that were numbered before it: `revisions` counts those, under
the message's id and not under the chat.
-/

open CarbonRuntime.Core CarbonRuntime.Stream

namespace CarbonRuntime.Adapters.WhatsApp

open Store

variable (W : Account) (J : Js)

/-! ## Listing, index.ts:118-162 -/

def chatKeyAbsent (x : Item) : Fault :=
  ⟨"CHAT_KEY_ABSENT", x.position,
    "the event names no chat, so there is no conversation to write it under",
    "drop the event at the socket, or record the chat the server sent it for"⟩

def recordsIn (d : Disk) (conversationId : String) : List MessageRecord :=
  d.records.rows.filter (·.conversationId = conversationId)

def pastCursors (d : Disk) (x : Item) : Except Err Bool :=
  match conversationIdOf W x with
  | none => .error (.stream [chatKeyAbsent x])
  | some conversation =>
    if componentFaults J "conversation_id" conversation ≠ [] then
      .error (.stream (componentFaults J "conversation_id" conversation))
    else if past x.position ((d.cursorsOf conversation).at' (kindOf x)) then .ok true
    else if kindOf x ≠ .revision then .ok false
    else .ok (!(recordsIn d conversation).any fun r => recordedEditKey r = some x.event.id)

/-- The last arrival of an album. -/
def lastOfAlbum (items : List Item) (album : String) : Int :=
  items.foldl (fun last x =>
    if x.event.album.map (·.1) = some album then max last (arrivalMs J x) else last) 0

/-- The album of the item has not been quiet long enough. -/
def waitsForAlbum (now : Int) (items : List Item) (x : Item) : Bool :=
  x.event.album.any fun album => decide (now - lastOfAlbum J items album.1 < W.channel.albumQuietMs)

/-- `items.filter(...)`, in order. -/
def listFrom (d : Disk) (now : Int) (items : List Item) : List Item → Except Err (List Item)
  | [] => .ok []
  | x :: more => do
    let isPast ← pastCursors W J d x
    let rest ← listFrom d now items more
    .ok (if isPast && !waitsForAlbum W J now items x then x :: rest else rest)

def listPending (d : Disk) (now : Int) (items : List Item) : Except Err (List Item) :=
  listFrom W J d now items items

/-- mirrors index.ts:166-170 -/
def consume (x : Item) : List (String × CursorKind × String) :=
  match conversationIdOf W x with
  | some conversation => [(conversation, kindOf x, x.position)]
  | none => []

/-! ## Payload, index.ts:174-328 -/

def source : String := "whatsapp"

def senderOf (x : Item) (chat : String) : String :=
  if x.event.fromMe then W.account else x.event.participant.getD chat

/-- `isGroup`, jid.ts:50-52: what is behind the last `@`. -/
def conversationKind (chat : String) : String :=
  if chat.toList.contains '@' && decide ((chat.toList.reverse.takeWhile (· ≠ '@')).reverse = "g.us".toList)
  then "group" else "direct"

def countRevisions (d : Disk) (conversationId platformMessageId : String) : Nat :=
  if componentFaults J "conversation_id" conversationId = [] then
    ((recordsIn d conversationId).filter (·.platformMessageId = platformMessageId)).length
  else 0

/-- The agent's own send, coming back as a message from this device. -/
def isOwnSend (d : Disk) (conversationId : String) (x : Item) : Bool :=
  let sends :=
    if componentFaults J "conversation_id" conversationId = [] then
      ((recordsIn d conversationId).filter fun r => r.direction = .outbound).filterMap (·.delivery)
    else []
  (sends.any fun delivery => (delivery.chunkIds.getD []).contains x.event.id) ||
    sends.any fun delivery =>
      delivery.textSha256 ≠ "" && delivery.textSha256 = J.sha256 x.event.content.text

def attachmentsFor (x : Item) : List Attachment :=
  match x.attachments, (contentOf x).media with
  | some attachments, _ => attachments
  | none, none => []
  | none, some media =>
    [{ file := "unavailable/" ++ x.event.id, mime := media.mime, bytes := media.bytes
       sha256 := "0000000000000000000000000000000000000000000000000000000000000000"
       downloadFailed := true }]

def adapterFields (x : Item) : AdapterFields :=
  { other :=
      (if x.event.edit.isSome then [(["edit_key_id"], x.event.id)] else []) ++
        (x.event.revoke.map fun id => (["revoked_message_id"], id)).toList ++
        (match x.event.album with
          | some (id, index) => [(["album_id"], id), (["album_index"], index.getD "null")]
          | none => []) ++
        ((contentOf x).reactionTo.map fun id => (["reaction_to"], id)).toList ++
        (if x.event.hdVariant then [(["hd_variant_skipped"], "true")] else []) ++
        (((contentOf x).media.bind (·.fileName)).map fun name => (["file_name"], name)).toList }

/-- The record of an event, as the revision it is numbered. -/
def recordOf (receivedAt : String) (x : Item) (chat : String) (revision : Nat) : MessageRecord :=
  let conversationId := W.account ++ ":" ++ chat
  { agent := W.agent, source, account := W.account, conversationId
    conversationKind := conversationKind chat
    messageId := conversationId ++ ":" ++ platformMessageIdOf x
    platformMessageId := platformMessageIdOf x, revision, direction := .inbound
    role := if x.event.fromMe then .operator else .contact
    senderId := senderOf W x chat, senderName := x.event.pushName, receivedAt, sentAt := sentAt J x
    body := (contentOf x).text, attachments := []
    hold :=
      if x.event.fromMe then
        some
          { reason := "the operator answered in this chat from their own device"
            setAt := (sentAt J x).getD receivedAt
            releaseAfterMs := some W.channel.releaseAfterMs }
      else none
    adapterFields := adapterFields x }

/-- `revisions` -/
abbrev Numbered := List (String × Nat)

/-- The number of a message or an edit, and what is numbered after it. -/
def numberOf (d : Disk) (revisions : Numbered) (x : Item) (conversationId : String) :
    Nat × Numbered :=
  if x.event.edit.isSome then
    let counted := (revisions.lookup (platformMessageIdOf x)).getD
      (countRevisions J d conversationId (platformMessageIdOf x))
    (counted, (platformMessageIdOf x, counted + 1) :: revisions)
  else (0, revisions)

/-- What an event comes to, with why it is parked where it is. -/
def candidateOf (receivedAt : String) (x : Item) (chat : String) (revision : Nat) :
    Candidate × Option String :=
  let cursor := some (kindOf x, x.position)
  let record := recordOf W J receivedAt x chat revision
  if (contentOf x).kind.isSome then
    ({ record := { record with attachments := attachmentsFor x }, cursor, raw := some x.event.json
       bytes := (attachmentsFor x).any fun a => !a.downloadFailed }, none)
  else
    ({ record := { record with body := "" }, cursor, raw := some x.event.json },
      some ("the message is a " ++ (contentOf x).unknown.getD "kind" ++ " this adapter does not read"))

/-- The second upload of a picture and the agent's own sends are left out: recording them would
put them in the store twice. -/
def readAll (d : Disk) (now : String) : Numbered → List Item →
    Except Err (List (Candidate × Option String))
  | _, [] => .ok []
  | revisions, x :: items =>
    if x.event.isHdChild then readAll d now revisions items
    else
      match x.event.chat with
      | none => .error (.stream [chatKeyAbsent x])
      | some chat =>
        if x.event.fromMe && isOwnSend J d (W.account ++ ":" ++ chat) x then
          readAll d now revisions items
        else do
          let number := numberOf J d revisions x (W.account ++ ":" ++ chat)
          let more ← readAll d now number.2 items
          .ok (candidateOf W J (x.receivedAt.getD now) x chat number.1 :: more)

def payloadOf (d : Disk) (now : String) (items : List Item) : Except Err Payload := do
  let all ← readAll W J d now [] items
  .ok
    { entries := (all.filter (·.2.isNone)).map (·.1)
      parked := all.filterMap fun (c, reason) => reason.map (c, ·) }

/-- The adapter as the loop calls it. -/
def adapter : Adapter Item where
  listPending d now items := listPending W J d now items
  payload d at_ items := payloadOf W J d (J.iso at_) items
  consume _ := consume W

end CarbonRuntime.Adapters.WhatsApp
