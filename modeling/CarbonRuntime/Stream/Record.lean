import CarbonRuntime.Core.Table
import Mathlib.Algebra.GroupWithZero.Nat

/-!
# Records

The data of the store: the message record (schema/carbon.message.v1.json,
stream/store.ts:37-107), the reply fence, and the fault shape every refusal
reports (stream/faults.ts).

A record is keyed by its identity, which is what its path is derived from:
conversation, message and revision. `adapter_fields` is open in the source; the
keys this library itself reads or writes are fields here and every other string
leaf is carried in `other` under its path.

`Js` is what the code takes from the language: `Date.parse`, `toISOString`,
`localeCompare`, sha256 and `JSON.stringify` of a string. Nothing is assumed
of these unless a theorem says so.
-/
namespace CarbonRuntime.Stream

structure Js where
  /-- `Date.parse`; `none` is `NaN`. -/
  parse : String → Option Int
  iso : Int → String
  localeCompare : String → String → Ordering
  sha256 : String → String
  stringify : String → String

structure Fault where
  code : String
  subject : String
  problem : String
  fix : String
deriving DecidableEq

inductive Direction
  | inbound | outbound
deriving DecidableEq

inductive Role
  | contact | operator | agent | system
deriving DecidableEq

inductive Disposition
  | captured | held | parked | policyDrop | unsupported | permanentError
deriving DecidableEq

/-- The statuses of a delivery. -/
inductive Status
  | pending | pendingTeachCheck | sent | unknown | failed
deriving DecidableEq

def Status.text : Status → String
  | .pending => "pending"
  | .pendingTeachCheck => "pending-teach-check"
  | .sent => "sent"
  | .unknown => "unknown"
  | .failed => "failed"

/-- Written and not settled: waiting for the transport or for the check. -/
def Status.live : Status → Bool
  | .pending | .pendingTeachCheck => true
  | _ => false

structure Hold where
  reason : String
  setAt : String
  releaseAfterMs : Option Nat := none
deriving DecidableEq

structure Release where
  releasedAt : String
  threadId : String
  turnId : String
  completedAt : Option String := none
deriving DecidableEq

/-- `delivery.action_claim`, always of kind `claimed`. -/
structure Claim where
  job : String
  step : String
  actionId : String
deriving DecidableEq

structure Delivery where
  requestId : String
  status : Status
  textSha256 : String := ""
  chunkIds : Option (List String) := none
  actionClaim : Option Claim := none
  completedAt : Option String := none
deriving DecidableEq

structure Attachment where
  file : String
  mime : String
  bytes : Nat
  sha256 : String
  downloadFailed : Bool := false
  filename : Option String := none
  attachmentId : Option String := none
deriving DecidableEq

/-- `adapter_fields.model_effect`. -/
inductive Effect
  | notStarted | potentiallyStarted | uncertain | completed
deriving DecidableEq

/-- `adapter_fields.browser_delivery.phase`. -/
inductive DeliveryPhase
  | dispatching | delivered | uncertain | nextTurn | completed | failed
deriving DecidableEq

structure AdapterFields where
  parkReason : Option String := none
  parkFaults : Option (List Fault) := none
  replyOutcome : Option String := none
  actionReconcileRequired : Bool := false
  actionRecordedAt : Option String := none
  modelEffect : Option Effect := none
  browserDelivery : Option DeliveryPhase := none
  browserEventSeq : Option Nat := none
  inputKind : Option String := none
  submissionIds : Option (List String) := none
  replyValidationFaults : Option (List Fault) := none
  other : List (List String × String) := []
deriving DecidableEq

/-- What a record's path is derived from. -/
structure Identity where
  conversationId : String
  messageId : String
  revision : Nat
deriving DecidableEq

structure MessageRecord where
  schema : String := "carbon.message.v1"
  agent : String
  source : String
  account : String
  conversationId : String
  conversationKind : String
  messageId : String
  platformMessageId : String
  revision : Nat := 0
  direction : Direction
  role : Role
  senderId : String
  senderName : Option String := none
  receivedAt : String
  sentAt : Option String := none
  body : String
  attachments : List Attachment := []
  historical : Bool := false
  disposition : Disposition := .captured
  hold : Option Hold := none
  release : Option Release := none
  delivery : Option Delivery := none
  adapterFields : AdapterFields := {}
  raw : Option String := none
  replyTo : Option String := none
deriving DecidableEq

/-- One file of `outbound/requests`. -/
structure ReplyRequest where
  requestId : String
  status : Status
  conversationId : String
  messageId : String
  revision : Nat := 0
  chunkIds : List String := []
deriving DecidableEq

/-! ## Teachings, schema/carbon.teaching.v1.json -/

inductive TeachingKind
  | instruction | changeRequest
deriving DecidableEq

/-- `active` or `forgotten` for an instruction, `open` or `closed` for a change
request. -/
inductive TeachingStatus
  | active | forgotten | opened | closed
deriving DecidableEq

structure TaughtBy where
  senderId : String
  role : Role
  senderName : Option String := none
deriving DecidableEq

structure Forgotten where
  at' : String
  sourceMessageId : String
deriving DecidableEq

structure Teaching where
  id : String
  kind : TeachingKind
  agent : String
  text : String
  conversationId : String
  sourceMessageId : String
  taughtBy : TaughtBy
  taughtAt : String
  releaseId : Option String := none
  status : TeachingStatus
  failedQuestion : Option String := none
  forgotten : Option Forgotten := none
deriving DecidableEq

/-! ## What records say -/

def MessageRecord.id (r : MessageRecord) : Identity :=
  ⟨r.conversationId, r.messageId, r.revision⟩

/-- The record a fence names. -/
def ReplyRequest.names (q : ReplyRequest) : Identity := ⟨q.conversationId, q.messageId, q.revision⟩

/-- `record.delivery?.status`. -/
def MessageRecord.status (r : MessageRecord) : Option Status := r.delivery.map (·.status)

/-- `record.delivery?.request_id`. -/
def MessageRecord.requestId (r : MessageRecord) : Option String := r.delivery.map (·.requestId)

/-- An open release: written and not completed. -/
def MessageRecord.openRelease (r : MessageRecord) : Option String :=
  match r.release with
  | some rel => if rel.completedAt.isSome then none else some rel.turnId
  | none => none

def MessageRecord.uncertain (r : MessageRecord) : Bool :=
  r.adapterFields.browserDelivery == some .uncertain

/-! ## Validation: the strings of schema/carbon.message.v1.json

A value of the record type has every declared field of its declared type; what
is left of the schema for stream/validate.ts to refuse is the constant, the two
enumerations of strings, the minimum lengths and the digest patterns. -/

def sources : List String :=
  ["email", "whatsapp", "telegram", "browser", "import:carbon-capture", "import:ledger-sqlite",
    "import:ledger-outbound"]

def conversationKinds : List String := ["direct", "group", "thread"]

variable (J : Js)

def notInEnum (subject value : String) (allowed : List String) : List Fault :=
  if value ∈ allowed then [] else
    [⟨"VALUE_NOT_IN_ENUM", subject,
      J.stringify value ++ " is not one of " ++ ", ".intercalate (allowed.map J.stringify),
      "set " ++ subject ++ " to one of " ++ ", ".intercalate allowed⟩]

def tooShort (subject value : String) : List Fault :=
  if value = "" then
    [⟨"STRING_TOO_SHORT", subject, "needs at least 1 characters", "give " ++ subject ++ " a value"⟩]
  else []

def isDigest (value : String) : Bool :=
  value.length == 64 && value.toList.all fun c => c.isDigit || ('a' ≤ c && c ≤ 'f')

def patternUnmatched (subject value : String) : List Fault :=
  if isDigest value then [] else
    [⟨"PATTERN_UNMATCHED", subject, J.stringify value ++ " does not match ^[0-9a-f]\x7b64\x7d$",
      "write " ++ subject ++ " in the form ^[0-9a-f]\x7b64\x7d$"⟩]

def Hold.faults (h : Hold) : List Fault :=
  tooShort "$.hold.reason" h.reason ++ tooShort "$.hold.set_at" h.setAt

def Release.faults (r : Release) : List Fault :=
  tooShort "$.release.released_at" r.releasedAt ++ tooShort "$.release.thread_id" r.threadId ++
    tooShort "$.release.turn_id" r.turnId ++
    (r.completedAt.map (tooShort "$.release.completed_at")).getD []

def Claim.faults (c : Claim) : List Fault :=
  tooShort "$.delivery.action_claim.job" c.job ++ tooShort "$.delivery.action_claim.step" c.step ++
    tooShort "$.delivery.action_claim.action_id" c.actionId

def Delivery.faults (d : Delivery) : List Fault :=
  tooShort "$.delivery.request_id" d.requestId ++
    patternUnmatched J "$.delivery.text_sha256" d.textSha256 ++
    (d.actionClaim.map Claim.faults).getD [] ++
    (d.completedAt.map (tooShort "$.delivery.completed_at")).getD []

def Attachment.faults (subject : String) (a : Attachment) : List Fault :=
  tooShort (subject ++ ".file") a.file ++ tooShort (subject ++ ".mime") a.mime ++
    patternUnmatched J (subject ++ ".sha256") a.sha256 ++
    (a.filename.map (tooShort (subject ++ ".filename"))).getD []

def attachmentFaults : Nat → List Attachment → List Fault
  | _, [] => []
  | n, a :: l =>
    a.faults J ("$.attachments[" ++ toString n ++ "]") ++ attachmentFaults (n + 1) l

/-- `validate(SCHEMA, record, '$', 'carbon.message.v1')`, stream/validate.ts:50-118. -/
def validate (r : MessageRecord) : List Fault :=
  (if r.schema = "carbon.message.v1" then [] else
    [⟨"VALUE_NOT_CONST", "$.schema",
      "expected " ++ J.stringify "carbon.message.v1" ++ ", found " ++ J.stringify r.schema,
      "set $.schema to " ++ J.stringify "carbon.message.v1"⟩]) ++
    tooShort "$.agent" r.agent ++ notInEnum J "$.source" r.source sources ++
    tooShort "$.account" r.account ++ tooShort "$.conversation_id" r.conversationId ++
    notInEnum J "$.conversation_kind" r.conversationKind conversationKinds ++
    tooShort "$.message_id" r.messageId ++ tooShort "$.platform_message_id" r.platformMessageId ++
    tooShort "$.sender_id" r.senderId ++ tooShort "$.received_at" r.receivedAt ++
    (r.sentAt.map (tooShort "$.sent_at")).getD [] ++ attachmentFaults J 0 r.attachments ++
    (r.hold.map Hold.faults).getD [] ++ (r.release.map Release.faults).getD [] ++
    (r.delivery.map (Delivery.faults J)).getD []

/-! ## Path components, stream/encode.ts:50-86 -/

def occurs (part : List Char) : List Char → Bool
  | [] => part.isEmpty
  | c :: l => part.isPrefixOf (c :: l) || occurs part l

/-- `raw.includes(part)`. -/
def includes (raw part : String) : Bool := occurs part.toList raw.toList

/-- `raw.length`, in UTF-16 code units. -/
def utf16Length (raw : String) : Nat :=
  (raw.toList.map fun c => if c.toNat > 0xffff then 2 else 1).sum

def isControl (c : Char) : Bool := c.toNat < 0x20 || c.toNat == 0x7f

/-- Every reason an identifier may not become a path component. -/
def componentFaults (subject raw : String) : List Fault :=
  if raw = "" then
    [⟨"IDENTIFIER_EMPTY", subject,
      "an identifier used as a path component must be a non-empty string",
      "give " ++ subject ++ " a value"⟩]
  else
    (if includes raw "/" || includes raw "\\" then
      [⟨"IDENTIFIER_HAS_SEPARATOR", subject, J.stringify raw ++ " carries a path separator",
        "strip the separator at the adapter, or key the record on an identifier that has none"⟩]
    else []) ++
    (if raw = "." || includes raw ".." then
      [⟨"IDENTIFIER_HAS_DOT_SEGMENT", subject, J.stringify raw ++ " carries a dot segment",
        "key the record on an identifier that names something; a dot segment is shaped like an " ++
        "escape, so it is reported rather than quietly encoded"⟩]
    else []) ++
    (match raw.toList.find? isControl with
    | some c =>
      [⟨"IDENTIFIER_HAS_CONTROL_BYTE", subject,
        J.stringify raw ++ " carries the control byte 0x" ++
          (if c.toNat < 16 then "0" else "") ++ String.ofList (Nat.toDigits 16 c.toNat),
        "strip control bytes at the adapter before the record is built"⟩]
    | none => []) ++
    (if utf16Length raw > 1024 then
      [⟨"IDENTIFIER_TOO_LONG", subject,
        toString (utf16Length raw) ++ " characters is beyond the 1024 an identifier may have",
        "key the record on the channel identifier, not on its content"⟩]
    else [])

/-- What `Store.paths` refuses, stream/store.ts:268-283. -/
def pathFaults (i : Identity) : List Fault :=
  componentFaults J "conversation_id" i.conversationId ++
    componentFaults J "message_id" i.messageId

end CarbonRuntime.Stream
