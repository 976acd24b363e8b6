import CarbonRuntime.Stream.Store

/-!
# What the declaration decides

The kind of room a conversation is and whether an operator's hold governs it
(runtime/channel.ts:75-104, runtime/loop.ts:159-162), the unit of work a record
belongs to (runtime/unit.ts), which faults end the process (loop.ts:566-590)
and the release decision (loop.ts:164-205).
-/

open CarbonRuntime.Core CarbonRuntime.Stream

namespace CarbonRuntime.Policy

open Store

/-! ## Rooms -/

/-- mirrors channel.ts:87-95 -/
def conversationKindOf (c : Channel) (conversationId : String) : Option RoomKind :=
  match c.conversations.find? (·.1 = conversationId) with
  | some (_, some kind) => some kind
  | _ => c.defaultConversationKind

/-- mirrors loop.ts:159-162 -/
def holdApplies (c : Channel) (conversationId : String) : Bool :=
  conversationKindOf c conversationId != some .ops &&
    conversationKindOf c conversationId != some .management

/-- mirrors channel.ts:100-105 -/
def managementConversationOf (d : Declaration) : Option String :=
  match (d.channels.flatMap (·.conversations)).filter (·.2 = some .management) with
  | [c] => some c.1
  | _ => none

/-- mirrors reply-tool.ts:309-312 -/
def teachCheckConversation (d : Declaration) : Option String :=
  if d.teaching.isSome then managementConversationOf d else none

/-! ## Units -/

def splitDots : List Char → List Char → List String
  | acc, [] => [String.ofList acc.reverse]
  | acc, c :: cs =>
    if c = '.' then String.ofList acc.reverse :: splitDots [] cs else splitDots (c :: acc) cs

def fieldPath (idFrom : String) : List String := (splitDots [] idFrom.toList).filter (· ≠ "")

def unitIdAbsent (J : Js) (idFrom messageId : String) : Fault :=
  ⟨"UNIT_ID_ABSENT", messageId,
    "unit_of_work.id_from names " ++ J.stringify idFrom ++
      " and this record's adapter_fields carry no such value",
    "have the adapter put the client record's id on the record, or declare unit_of_work.kind as " ++
      "conversation"⟩

def unitOfWorkUnknown (kind : String) : Fault :=
  ⟨"UNIT_OF_WORK_UNKNOWN", kind, "unit_of_work.kind is conversation or client_record",
    "correct unit_of_work.kind in the declaration"⟩

/-- mirrors unit.ts:5-21 -/
def unitIdFor (J : Js) (d : Declaration) (r : MessageRecord) : Except Err String :=
  match d.unitOfWork with
  | .conversation => .ok r.conversationId
  | .clientRecord idFrom =>
    match (r.adapterFields.other.find? (·.1 = fieldPath idFrom)).map (·.2) with
    | some id => if id = "" then .error (.runtime [unitIdAbsent J idFrom r.messageId] Exit.fault)
        else .ok id
    | none => .error (.runtime [unitIdAbsent J idFrom r.messageId] Exit.fault)
  | .other kind => .error (.runtime [unitOfWorkUnknown kind] Exit.fault)

/-! ## Faults -/

def endingCodes : List String :=
  ["SANDBOX_DENY_NOT_PLACED", "BROWSER_WORKSPACE_NOT_ISOLATED", "HARNESS_CHILD_EXITED_MID_TURN",
    "TOOL_SERVER_UNDECLARED", "TOOL_SERVER_NOT_LISTED"]

/-- mirrors loop.ts:574-578 -/
def endsTheProcess : Err → Bool
  | .runtime faults exitCode =>
    exitCode != Exit.fault || faults.any fun f => f.code ∈ endingCodes
  | _ => true

def isProgramCode (code : String) : Bool := "PROGRAM_".toList.isPrefixOf code.toList

/-- mirrors loop.ts:582-588 -/
def parkableProgramFault : Err → Err
  | .program f => if isProgramCode f.code then .runtime [f] Exit.fault else .program f
  | e => e

/-! ## The release decision -/

inductive Reason
  | outbound | historical | parked | alreadyReleased | operatorMessage | held | quiet | notYetQuiet
  | mention | noMention
deriving DecidableEq

structure Decision where
  release : Bool
  reason : Reason
deriving DecidableEq

def releasePolicyUnknown (policy : String) : Fault :=
  ⟨"RELEASE_POLICY_UNKNOWN", policy,
    "a channel releases quiet or mention; immediate is quiet with quiet_ms 0",
    "write release: quiet and quiet_ms: 0"⟩

/-- The newest arrival of the inbound among `records`, from 0. -/
def newestArrival (J : Js) (records : List MessageRecord) : Int :=
  ((records.filter (·.direction = .inbound)).filterMap (J.parse ·.receivedAt)).foldl max 0

variable (L : Loop)

/-- The release policy's part of the decision. -/
def policyDecision (record : MessageRecord) (now : Int) : Program L Decision :=
  match L.channel.release with
  | .quiet 0 => pure ⟨true, .quiet⟩
  | .quiet ms => do
    let records ← recordsIn L record.conversationId
    if now - newestArrival L.js records ≥ ms then pure ⟨true, .quiet⟩
    else pure ⟨false, .notYetQuiet⟩
  | .mention text =>
    if includes record.body text then pure ⟨true, .mention⟩ else pure ⟨false, .noMention⟩
  | .other policy => raise L (.runtime [releasePolicyUnknown policy] Exit.fault)

/-- mirrors loop.ts:164-205 -/
def releaseDecision (record : MessageRecord) (now : Int) : Program L Decision := do
  if record.direction ≠ .inbound then pure ⟨false, .outbound⟩
  else if record.historical then pure ⟨false, .historical⟩
  else if record.disposition = .parked then pure ⟨false, .parked⟩
  else if record.release.isSome then pure ⟨false, .alreadyReleased⟩
  else if holdApplies L.channel record.conversationId then
    if record.role = .operator then pure ⟨false, .operatorMessage⟩
    else do
      let records ← recordsIn L record.conversationId
      if isHeld L records now then pure ⟨false, .held⟩
      else policyDecision L record now
  else policyDecision L record now

end CarbonRuntime.Policy
