import CarbonRuntime.Runtime.Policy
import CarbonRuntime.Stream.Teachings

/-!
# The reply tool and the teaching tools

The handlers the model's calls reach (runtime/reply-tool.ts, runtime/teach-tool.ts).
The reply tool is the one door out of a turn: it builds the outbound record,
fences it on the request id the model was given and writes it `pending`, or
held where the conversation is the one the agent is taught in.
-/

open CarbonRuntime.Core CarbonRuntime.Stream

namespace CarbonRuntime.Tools

open Store Policy Teachings

variable (L : Loop)

/-! ## The reply tool -/

/-- Oldest first by `received_at`, in a stable order. -/
def byReceived (records : List MessageRecord) : List MessageRecord :=
  sortBy (fun a b => L.js.localeCompare a.receivedAt b.receivedAt == .lt) records

/-- mirrors reply-tool.ts:93-98 -/
def openReleaseIn (records : List MessageRecord) : Option MessageRecord :=
  (byReceived L (records.filter fun r =>
    r.direction == .inbound && r.openRelease.isSome)).getLast?

def conversationNotOwned (conversationId : String) : Fault :=
  ⟨"CONVERSATION_NOT_OWNED", conversationId,
    "this agent has captured nothing on this conversation, so it does not answer on it",
    "reply on a conversation this agent owns"⟩

/-- The highest revision at a message id, plus one; 0 where there is none. -/
def nextRevision (records : List MessageRecord) (messageId : String) : Nat :=
  match records.filter (·.messageId = messageId) with
  | [] => 0
  | previous => (previous.map (·.revision)).foldl max 0 + 1

/-- What the reply record of a browser conversation carries besides. -/
def browserReply (args : ReplyArgs) (inbound previous : List MessageRecord) (r : MessageRecord) :
    MessageRecord :=
  let associated := inbound.filter fun one => one.release.any (·.turnId = args.requestId)
  { r with
    adapterFields := { submissionIds := some (associated.map (·.platformMessageId)) }
    replyTo := associated.getLast?.map (·.messageId)
    revision := nextRevision previous r.messageId }

/-- mirrors reply-tool.ts:246-303 -/
def outboundRecord (args : ReplyArgs) (at_ : String) : Program L MessageRecord := do
  let records ← recordsIn L args.conversationId
  let inbound := byReceived L (records.filter (·.direction = .inbound))
  match inbound.getLast? with
  | none => raise L (.stream [conversationNotOwned args.conversationId])
  | some newest => do
    let held ← recordsIn L args.conversationId
    let record : MessageRecord :=
      { agent := L.agent, source := newest.source, account := newest.account
        conversationId := args.conversationId, conversationKind := newest.conversationKind
        messageId := replyMessageId args.conversationId args.requestId
        platformMessageId := "reply-" ++ args.requestId
        direction := .outbound, role := .agent, senderId := L.agent
        sentAt := some at_, receivedAt := at_, body := args.text
        delivery := some { requestId := args.requestId, status := .pending
                           textSha256 := L.js.sha256 args.text }
        replyTo := (openReleaseIn L held).map (·.messageId) }
    let record ← if newest.source = "browser" then do
        let previous ← recordsIn L args.conversationId
        pure (browserReply args inbound previous record)
      else pure record
    match args.attachments with
    | .error faults => raise L (.stream faults)
    | .ok attachments => pure { record with attachments }

def browserReplyScopeRefused (requestId : String) : Fault :=
  ⟨"BROWSER_REPLY_SCOPE_REFUSED", requestId,
    "a browser reply must match the active authenticated ticket release; other tickets and " ++
      "stale releases are refused",
    "use the conversation and release identity supplied to this turn"⟩

/-- mirrors reply-tool.ts:319-332: a reply its validator refuses is kept, parked
and failed. -/
def validateBrowserReplyRecord (record : MessageRecord) (args : ReplyArgs) : Program L Unit := do
  let records ← recordsIn L record.conversationId
  if !(records.any fun r =>
      r.direction == .inbound && r.release.any (·.turnId = args.requestId)) then
    raise L (.thrown "Cannot read properties of undefined (reading 'platform_message_id')")
  else if args.validation = [] then pure ()
  else do
    let _ ← capture L { record with
      disposition := .parked
      delivery := record.delivery.map fun d => { d with status := .failed }
      adapterFields := { record.adapterFields with
        replyValidationFaults := some args.validation } }
    raise L (.stream args.validation)

def withClaim (claim : Option Claim) (r : MessageRecord) : MessageRecord :=
  match claim with
  | none => r
  | some c => { r with delivery := r.delivery.map fun d => { d with actionClaim := some c } }

/-- The status a reply on this conversation is written at. -/
def replyStatus (conversationId : String) : Status :=
  if teachCheckConversation L.declaration = some conversationId then .pendingTeachCheck
  else .pending

/-- mirrors reply-tool.ts:334-376 -/
def replyWriter (args : ReplyArgs) (claim : Option Claim) : Program L ReplyOutcome := do
  let at_ ← isoNow L
  let records ← recordsIn L args.conversationId
  let incoming := records.find? (·.direction = .inbound)
  let browser := incoming.any (·.source = "browser")
  let w ← fetch L
  if browser && w.mem.activeBrowserReply ≠ some (args.conversationId, args.requestId) then
    raise L (.stream [browserReplyScopeRefused args.requestId])
  else do
    let record ← outboundRecord L args at_
    let existing ← readRequest L args.requestId
    if browser && existing.all (·.status = .failed) then validateBrowserReplyRecord L record args
    reply L (withClaim claim record) (replyStatus L args.conversationId)

def jobActionContextRequired (requestId : String) : Fault :=
  ⟨"JOB_ACTION_CONTEXT_REQUIRED", requestId,
    "records-enabled replies must say which job and move this send is about",
    "pass about_job and about_move, using an empty job and other for an ordinary reply"⟩

/-- mirrors reply-tool.ts:383-413; `claim` is what the records service answers. -/
def recordsReplyHandler (args : ReplyArgs) (claim : Except Err (Option Claim)) :
    Program L ReplyOutcome := do
  let records ← recordsIn L args.conversationId
  match (byReceived L (records.filter (·.direction = .inbound))).getLast? with
  | none => raise L (.stream [conversationNotOwned args.conversationId])
  | some inbound => do
    match args.attachments with
    | .error faults => raise L (.stream faults)
    | .ok _ => do
      let existing ← readRequest L args.requestId
      if existing.any (·.status ≠ .failed) then replyWriter L args none
      else if args.about.isNone then
        raise L (.stream [jobActionContextRequired args.requestId])
      else
        match unitIdFor L.js L.declaration inbound with
        | .error e => raise L e
        | .ok _ =>
          match claim with
          | .error e => raise L e
          | .ok claim => replyWriter L args claim

/-- The handler the server is made with, reply-tool.ts:431-440. -/
def replyTool (args : ReplyArgs) (claim : Except Err (Option Claim)) : Program L ReplyOutcome :=
  if L.declaration.records then recordsReplyHandler L args claim else replyWriter L args none

/-! ## The teaching tools -/

/-- mirrors teach-tool.ts:96-104 -/
def managementFaults (management : Option String) (conversationId : String) : List Fault :=
  if management = some conversationId then [] else
    [⟨"TEACHING_NOT_IN_MANAGEMENT_CONVERSATION", conversationId,
      if management.isNone then
        "this agent's declaration names no management conversation, so there is nowhere it may " ++
          "be taught"
      else "this conversation is not this agent's management conversation, and a standing " ++
        "instruction is taught there and nowhere else",
      "nothing was written. Do not tell the client you have remembered anything. Answer here as " ++
        "you would any other message, and if this is meant to stand, it is said in the " ++
        "management conversation"⟩]

def asToolFault : Err → Err
  | .stream faults => .tool faults
  | e => e

/-- The room check, then the operation with its refusals in the tool's shape. -/
def inManagement {α : Type} (conversationId : String) (p : Program L α) : Program L α :=
  match managementFaults (managementConversationOf L.declaration) conversationId with
  | [] => p.handle (𝔖 := sig L) fun e => raise L (asToolFault e)
  | faults => raise L (.tool faults)

def taught (args : TeachArgs) (releaseId : Option String) (at_ : Int) : Taught :=
  { agent := L.agent, text := args.text, conversationId := args.conversationId
    sourceMessageId := args.sourceMessageId, releaseId, now := at_ }

/-- mirrors teach-tool.ts:122-151 -/
def rememberHandler (block : TeachingBlock) (args : TeachArgs) : Program L Outcome :=
  inManagement L args.conversationId do
    let at_ ← now L
    let w ← fetch L
    remember L block (taught L args w.mem.teachRelease at_)

/-- mirrors teach-tool.ts:153-180 -/
def raiseChangeHandler (block : TeachingBlock) (args : TeachArgs) : Program L Outcome :=
  inManagement L args.conversationId do
    let at_ ← now L
    let w ← fetch L
    raiseChange L block (taught L args w.mem.teachRelease at_) args.failedQuestion

/-- mirrors teach-tool.ts:186-207 -/
def forgetHandler (args : ForgetArgs) : Program L Outcome :=
  inManagement L args.conversationId do
    let at_ ← now L
    forget L args.id args.conversationId args.sourceMessageId at_

end CarbonRuntime.Tools
