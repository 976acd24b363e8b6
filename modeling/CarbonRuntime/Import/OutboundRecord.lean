import CarbonRuntime.Adapters.WhatsApp.Adapter
import CarbonRuntime.Import.Outbound
import CarbonRuntime.Import.Write

/-!
# One record for each joined send

What the outbound importer writes of a send (import/carbon-ledger-outbound.ts:70-170), and the whole import
of a list of located marks. A record is named by the send's own mark: the platform's id where a capture is
there, and else the id that the row of the turn or the audit carries.
-/

open CarbonRuntime.Core CarbonRuntime.Stream

namespace CarbonRuntime.Import.Outbound

structure Parts where
  event : Option OutboundItem
  turn : Option OutboundItem
  audit : Option OutboundItem

def partsOf (send : Send) : Parts where
  event := if send.item.kind = .event then some send.item else none
  turn := send.attached.turn.or (if send.item.kind = .turn then some send.item else none)
  audit := send.attached.audit.or (if send.item.kind = .audit then some send.item else none)

structure Body where
  body : String
  source : String

/-- What went out: the text the channel carried, or else the one the model produced. -/
def bodyOf (parts : Parts) : Body :=
  match parts.event.filter (·.text ≠ ""), parts.turn.filter (·.text ≠ "") with
  | some event, _ => ⟨event.text, "the capture"⟩
  | none, some turn => ⟨turn.text, "the turn"⟩
  | none, none => ⟨"", "nothing: no source recorded the text of this send"⟩

structure Answers where
  refs : List String
  ids : List String
  link : String

/-- The messages it answered: the quote of the capture, and what the turn row names beside it. -/
def answersOf (send : Send) (parts : Parts) : Answers :=
  let quoted := (parts.event.bind (·.replyTo)).filter (· ≠ "")
  let refs := ((parts.turn.map (·.answersRefs)).getD []).foldl
    (fun refs ref => if ref ∈ refs then refs else refs ++ [ref]) quoted.toList
  if refs = [] then ⟨[], [], "none: no source named a message this answered"⟩
  else ⟨refs, refs.map fun ref => send.item.conversationId ++ ":" ++ ref,
    if quoted.isSome then "the quoted message id the capture carries"
    else "the message ids the turn row carries"⟩

/-- `roles` of the mapping. -/
structure RoleMapping where
  agentSenders : List String := []
  operatorSenders : List String := []
  fromMe : Option Role := none

/-- mirrors ledger-mapping.ts:291-298, of a mark that the account sent -/
def roleFor (mapping : RoleMapping) (item : OutboundItem) : Role :=
  if item.senderJid.any (· ∈ mapping.agentSenders) then .agent
  else if item.senderJid.any (· ∈ mapping.operatorSenders) then .operator
  else mapping.fromMe.getD .agent

structure OutboundContext where
  agent : String
  account : String
  roles : RoleMapping := {}
  toleranceMs : Option Rat := none
  /-- `JSON.stringify` of the mark and of what was attached to it. -/
  raw : Send → String := fun _ => "{}"

def identifiedBy (item : OutboundItem) : String :=
  match item.kind with
  | .event => "the platform message id the capture carries"
  | .turn => "the id the turn row carries, because no capture of this send was found"
  | .audit => "the id the audit row carries, because no capture of this send was found"

/-- `fieldsFor`, as far as it is texts of the importer itself. -/
def fieldsFor (send : Send) (body : Body) (answers : Answers) : AdapterFields :=
  { other := [(["identified_by"], identifiedBy send.item), (["body_read_from"], body.source),
      (["answers_link"], answers.link)] }

/-- mirrors `recordFor`, carbon-ledger-outbound.ts:155-190 -/
def entryFor (context : OutboundContext) (send : Send) : Entry :=
  let parts := partsOf send
  let body := bodyOf parts
  let answers := answersOf send parts
  { source := .ledgerOutbound, agent := context.agent, account := context.account
    conversationId := send.item.conversationId
    conversationKind := Adapters.WhatsApp.conversationKind send.item.chatKey
    platformMessageId := send.item.messageId, direction := .outbound
    role := roleFor context.roles send.item
    senderId := send.item.senderJid.getD context.account
    senderName := send.item.senderName.filter (· ≠ "")
    receivedAt := send.item.timestamp.getD "", body := body.body
    replyTo := match answers.ids with
      | [id] => some id
      | _ => none
    adapterFields := fieldsFor send body answers, raw := context.raw send }

/-- The joined sends of located marks. -/
def sendsOf (J : Js) (context : OutboundContext) (items : List OutboundItem) : List Send :=
  (joinOutbound J items (context.toleranceMs.getD 180000)).pool

def payload (J : Js) (context : OutboundContext) (items : List OutboundItem) : List Entry :=
  (sendsOf J context items).map (entryFor context)

/-- `writeBatch` of this importer. -/
def writeOutbound (L : Loop) (context : OutboundContext) (items : List OutboundItem) : Program L Unit :=
  writeBatch L (payload L.js context items)

end CarbonRuntime.Import.Outbound
