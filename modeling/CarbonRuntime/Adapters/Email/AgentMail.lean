import CarbonRuntime.Adapters.Email.Adapter

/-!
# The AgentMail inbound

The other way mail comes in (adapters/email/agentmail-api.ts): the provider lists the messages
of an inbox at or after a moment, in pages, and each becomes an item whose position in its
conversation and in the mailbox is the moment the provider gives it, to the millisecond. A
message carries what mime.ts reads of the lines `itemFor` puts together.
-/

open CarbonRuntime.Core CarbonRuntime.Stream

namespace CarbonRuntime.Adapters.Email

/-- `ProviderMessage`, with the attachments already fetched. -/
structure Provided where
  messageId : String
  timestamp : String
  raw : String := ""
  message : Except String Message
  attachments : List Attachment := []
deriving DecidableEq

/-- mirrors agentmail-api.ts:316-338; a timestamp that is no date raises. -/
def itemFor (J : Js) (mailbox : String) (m : Provided) : Option Item :=
  (J.parse m.timestamp).map fun t =>
    { mailbox := some mailbox, mailboxPosition := some (J.iso t), position := J.iso t
      raw := m.raw, message := m.message, agentmailAttachments := some m.attachments }

/-- The pages of a list call, in order, agentmail-api.ts:215-239. -/
def listMessages (pages : List (List Provided)) : List Provided := pages.flatten

/-- mirrors agentmail-api.ts:340-368; one message that cannot be placed fails the poll. -/
def pollAgentMail (J : Js) (mailbox : String) (pages : List (List Provided)) : Option (List Item) :=
  (listMessages pages).mapM (itemFor J mailbox)

end CarbonRuntime.Adapters.Email
