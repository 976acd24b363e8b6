import CarbonRuntime.Core.Padded
import CarbonRuntime.Stream.Capture

/-!
# Telegram updates

What the Telegram adapter reads of an update (adapters/telegram/content.ts) and the two
positions the channel counts in (adapters/telegram/cursors.ts): a chat's message ids order the
chat, and the update ids order the account's stream of updates. The cursor over the stream is
the watermark, one below the offset the next `getUpdates` asks for.

A message carries what content.ts reads of it; `Bot` is the context of one account: the agent,
the account and the declared block with its defaults.
-/

open CarbonRuntime.Core CarbonRuntime.Stream

namespace CarbonRuntime.Adapters.Telegram

open Store

/-- `senderOf`, content.ts:191-207. -/
structure Sender where
  id : String
  name : Option String := none
  isBot : Bool := false
deriving DecidableEq

structure Chat where
  id : Int
  /-- `chat.type === 'private'` -/
  isPrivate : Bool := true
deriving DecidableEq

/-- `mediaOf`, content.ts:81-110. -/
structure Media where
  fileId : String
  bytes : Nat := 0
  mime : String
  fileName : Option String := none
deriving DecidableEq

structure Message where
  messageId : Nat
  /-- Absent where it has no id. -/
  chat : Option Chat
  date : Option Int := none
  editDate : Option Int := none
  sender : Sender := { id := "unknown" }
  /-- `bodyOf`: the text or the caption. -/
  body : String := ""
  media : Option Media := none
  /-- `albumOf` -/
  album : Option String := none
  replyTo : Option Nat := none
  threadId : Option Nat := none
  forwarded : Bool := false
  /-- `serviceKindOf` -/
  serviceKind : String := ""
deriving DecidableEq

/-- `messageOf`: the message under the update, and how it came, or what the update is. -/
inductive Content
  | message (m : Message) (edited channelPost : Bool)
  | unknown (kind : String)
deriving DecidableEq

structure Update where
  updateId : Option Nat
  content : Content
  /-- `JSON.stringify(update)` -/
  json : String := ""
deriving DecidableEq

/-- What a poll hands over; the position is absent where the update has no message. -/
structure Item where
  position : Option String
  receivedAt : Option String := none
  update : Update
  /-- The media, fetched. -/
  attachments : Option (List Attachment) := none
deriving DecidableEq

/-- The declared block under `DEFAULTS`, index.ts:87-96. -/
structure TelegramChannel where
  /-- Absent where any chat is answered. -/
  allowedChatIds : Option (List String) := none
  operatorSenderIds : List String := []
  botId : Option String := none
  releaseAfterMs : Nat := 86400000
deriving DecidableEq

structure Bot where
  agent : String
  account : String
  channel : TelegramChannel := {}
deriving DecidableEq

/-! ## Positions, cursors.ts -/

def positionOf (messageId : Nat) : String := Padded.pad 12 messageId

def offsetPositionOf (updateId : Nat) : String := Padded.pad 16 updateId

variable (B : Bot)

def updatesConversation : String := B.account ++ ":updates"

/-- The offset the next call asks for. -/
def nextOffset (d : Disk) : Option Nat :=
  ((d.cursorsOf (updatesConversation B)).message.bind Padded.number).map (· + 1)

/-- `String(item.position)` -/
def Item.place (x : Item) : String := x.position.getD "null"

/-! ## Items, index.ts:133-156 -/

def Content.edited : Content → Bool
  | .message _ edited _ => edited
  | .unknown _ => false

/-- The conversation of an item; absent where it would raise. -/
def conversationIdOf (x : Item) : Option String :=
  match x.update.content with
  | .message m _ _ => m.chat.map fun chat => B.account ++ ":" ++ toString chat.id
  | .unknown _ => none

def kindOf (x : Item) : CursorKind := if x.update.content.edited then .revision else .message

/-- The moment of the edit, as it stands in a record. -/
def editDateOf (x : Item) : Option String :=
  match x.update.content with
  | .message m _ _ => m.editDate.map toString
  | .unknown _ => none

def recordedEditDate (r : MessageRecord) : Option String :=
  (r.adapterFields.other.find? (·.1 = ["edit_date"])).map (·.2)

end CarbonRuntime.Adapters.Telegram
