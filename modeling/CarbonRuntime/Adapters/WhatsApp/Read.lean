import CarbonRuntime.Core.Padded
import CarbonRuntime.Stream.Capture

/-!
# WhatsApp events

What the WhatsApp adapter reads of an event (adapters/whatsapp/content.ts and jid.ts), and the
position the socket puts on it (adapters/whatsapp/socket.ts:70-88): the second the server stamped
it with, and behind it the ordinal of the event on its connection.

An event carries what content.ts and jid.ts read of it; `Account` is the context of one account:
the agent, the account and the declared block with its defaults.
-/

open CarbonRuntime.Core CarbonRuntime.Stream

namespace CarbonRuntime.Adapters.WhatsApp

open Store

structure Media where
  mime : String := "application/octet-stream"
  bytes : Nat := 0
  fileName : Option String := none
deriving DecidableEq

/-- `read`, content.ts:127-189. -/
structure Content where
  /-- Absent where the kind is not known. -/
  kind : Option String
  text : String := ""
  media : Option Media := none
  reactionTo : Option String := none
  /-- The name of a kind that is not known. -/
  unknown : Option String := none
deriving DecidableEq

structure Event where
  /-- `canonicalChatKey` -/
  chat : Option String
  /-- `canonicalParticipant` -/
  participant : Option String := none
  /-- `key.id` -/
  id : String
  fromMe : Bool := false
  /-- `messageTimestamp`, in seconds, where it is a number above zero. -/
  timestamp : Option Nat := none
  pushName : Option String := none
  /-- `read` of the message. -/
  content : Content
  /-- `editOf`: the message that is replaced, and `read` of what replaces it. -/
  edit : Option (String × Content) := none
  /-- `revokeOf` -/
  revoke : Option String := none
  /-- `albumOf`: the album and the place in it. -/
  album : Option (String × Option String) := none
  isHdChild : Bool := false
  /-- It carries an `associatedChildMessage`. -/
  hdVariant : Bool := false
  /-- `JSON.stringify(event)` -/
  json : String := ""
deriving DecidableEq

structure Item where
  position : String
  receivedAt : Option String := none
  event : Event
  /-- The media, fetched. -/
  attachments : Option (List Attachment) := none
deriving DecidableEq

/-- The declared block under its defaults, index.ts:36-47. -/
structure WhatsAppChannel where
  albumQuietMs : Nat := 2000
  releaseAfterMs : Nat := 86400000
deriving DecidableEq

structure Account where
  agent : String
  account : String
  channel : WhatsAppChannel := {}
deriving DecidableEq

/-! ## Positions, socket.ts:70-88 -/

def position (ordinal seconds : Nat) : String :=
  Padded.pad 12 seconds ++ "-" ++ Padded.pad 6 ordinal

/-- The second the server put on the event, or the one it is read in. -/
def stampOf (event : Event) (now : Nat) : Nat := event.timestamp.getD (now / 1000)

/-! ## Items, index.ts:64-110 -/

variable (W : Account)

/-- The conversation of an item; absent where it would raise. -/
def conversationIdOf (x : Item) : Option String := x.event.chat.map fun chat => W.account ++ ":" ++ chat

def kindOf (x : Item) : CursorKind := if x.event.edit.isSome then .revision else .message

/-- What the item is to the store: the message itself, or the one it replaces. -/
def platformMessageIdOf (x : Item) : String := (x.event.edit.map (·.1)).getD x.event.id

/-- What is read of the message, or of what replaces it. -/
def contentOf (x : Item) : Content := (x.event.edit.map (·.2)).getD x.event.content

def arrivalMs (J : Js) (x : Item) : Int :=
  match x.receivedAt.bind J.parse with
  | some at_ => at_
  | none => (x.event.timestamp.map fun seconds => (seconds * 1000 : Int)).getD 0

def sentAt (J : Js) (x : Item) : Option String :=
  if arrivalMs J x > 0 then some (J.iso (arrivalMs J x)) else none

def recordedEditKey (r : MessageRecord) : Option String :=
  (r.adapterFields.other.find? (·.1 = ["edit_key_id"])).map (·.2)

end CarbonRuntime.Adapters.WhatsApp
