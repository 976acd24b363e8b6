import CarbonRuntime.Core.Grouping
import CarbonRuntime.Stream.Store

/-!
# Teachings, stream/teachings.ts

What a client taught the agent: one file a teaching, under its own id. The
three operations are `remember`, `raiseChange` and `forget`; what they decide
is a function of the teachings on disk and of the cited capture
(`rememberOn`, `raiseChangeOn`, `forgetOn`), and the programs read, decide and
write. A teaching a call finds already standing is answered as it stands and
nothing is written, so it keeps the release id it was first written under.
-/

open CarbonRuntime.Core CarbonRuntime.Stream

namespace CarbonRuntime.Teachings

open Store

/-! ## Reading -/

variable (L : Loop)

/-- `readdirSync(dir).sort()`, then by time and id, teachings.ts:118-167. -/
def listed (d : Disk) : List Teaching :=
  sortBy (fun a b => match L.js.localeCompare a.taughtAt b.taughtAt with
      | .lt => true
      | .gt => false
      | .eq => L.js.localeCompare a.id b.id == .lt)
    (sortBy (fun a b => decide (a.id < b.id)) d.teachings.rows)

/-- The active instructions, oldest first. -/
def active (d : Disk) : List Teaching :=
  (listed L d).filter fun t => t.kind == .instruction && t.status == .active

/-- The open change requests, oldest first. -/
def openChanges (d : Disk) : List Teaching :=
  (listed L d).filter fun t => t.kind == .changeRequest && t.status == .opened

/-- mirrors teachings.ts:294-297 -/
def teachingsUnderRelease (d : Disk) (releaseId : String) : List Teaching :=
  if releaseId = "" then [] else (listed L d).filter (·.releaseId = some releaseId)

/-! ## Ids -/

/-- `.replace(/[-:]/g, '').replace(/\.\d+Z$/, 'Z')` of an ISO time. -/
def compact (iso : String) : String :=
  let kept := iso.toList.filter fun c => c != '-' && c != ':'
  match kept.reverse with
  | 'Z' :: rest =>
    match (rest.dropWhile (·.isDigit)) with
    | '.' :: front => String.ofList (front.reverse ++ ['Z'])
    | _ => String.ofList kept
  | _ => String.ofList kept

/-- mirrors teachings.ts:85-89 -/
def teachingId (sourceMessageId : String) (at_ : Int) : String :=
  "teach-" ++ compact (L.js.iso at_) ++ "-" ++
    String.ofList ((L.js.sha256 sourceMessageId).toList.take 8)

/-- The next free second, at most `tries` of them, teachings.ts:255-266. -/
def freeIdFrom (d : Disk) (sourceMessageId : String) : Nat → Int → Option String
  | 0, _ => none
  | tries + 1, t =>
    let id := teachingId L sourceMessageId t
    if (d.teachings.find id).isNone then some id
    else freeIdFrom d sourceMessageId tries (t + 1000)

/-! ## What a call is refused for -/

/-- `\s` of a regular expression, which is what `trim` strips. -/
def isSpace (c : Char) : Bool :=
  (0x9 ≤ c.toNat && c.toNat ≤ 0xd) || (0x2000 ≤ c.toNat && c.toNat ≤ 0x200a) ||
    c.toNat ∈ [0x20, 0xa0, 0x1680, 0x2028, 0x2029, 0x202f, 0x205f, 0x3000, 0xfeff]

/-- `text.trim()`. -/
def trim (text : String) : String :=
  String.ofList ((text.toList.dropWhile isSpace).reverse.dropWhile isSpace).reverse

/-- mirrors teachings.ts:207-226 -/
def textFaults (text : String) (maxChars : Nat) : List Fault :=
  (if maxChars < 1 then
    [⟨"TEACHING_MAX_CHARS_UNGIVEN", "max_chars",
      "the length cap is the declaration's teaching.max_chars and is never guessed here",
      "pass max_chars from the agent's declaration"⟩] else []) ++
  (if trim text = "" then
    [⟨"TEACHING_TEXT_EMPTY", "text",
      "a teaching record with no text says nothing about what the agent will now do",
      "pass the instruction in plain words"⟩]
  else if utf16Length text > maxChars then
    [⟨"TEACHING_TEXT_TOO_LONG", "text",
      "this text is " ++ toString (utf16Length text) ++ " characters and the cap this agent's " ++
        "declaration sets is " ++ toString maxChars,
      "say it in " ++ toString maxChars ++ " characters or fewer; an instruction that does not " ++
        "fit is raised as a change request rather than remembered, and the cap itself moves " ++
        "only by a change to this agent's declaration"⟩]
  else [])

/-- mirrors teachings.ts:310-324 -/
def agentFaults (agent : String) (capture : Option MessageRecord) : List Fault :=
  if agent = "" then
    [⟨"TEACHING_AGENT_UNGIVEN", "agent",
      "a teaching record says which agent was taught, as the declaration names it",
      "pass the agent id"⟩]
  else match capture with
    | some c => if c.agent ≠ agent then
        [⟨"TEACHING_AGENT_MISMATCH", agent,
          "the cited capture belongs to " ++ L.js.stringify c.agent ++ " and this record says " ++
            L.js.stringify agent, "teach the agent whose store this is"⟩] else []
    | none => []

/-- The inbound capture a call cites, of the lowest revision, teachings.ts:171-203. -/
def captureIn (records : List MessageRecord) (sourceMessageId : String) : Option MessageRecord :=
  (sortBy (fun a b => decide (a.revision < b.revision))
    (records.filter fun r => r.messageId = sourceMessageId && r.direction == .inbound)).head?

def notACapture (conversationId sourceMessageId : String) : Fault :=
  ⟨"TEACHING_SOURCE_NOT_A_CAPTURE", sourceMessageId,
    "no inbound capture in this agent's own store on conversation " ++
      L.js.stringify conversationId ++ " has this message_id, so there is no message that " ++
      "taught this and nothing to copy the teacher from",
    "cite the message_id of the inbound record the client taught this in; a teaching whose " ++
      "source is not in the store is not written"⟩

def citedCapture (conversationId sourceMessageId : String) :
    Program L (List Fault × Option MessageRecord) := do
  let faults := componentFaults L.js "conversation_id" conversationId ++
    componentFaults L.js "source_message_id" sourceMessageId
  if faults ≠ [] then pure (faults, none)
  else do
    let held ← recordsIn L conversationId
    match captureIn held sourceMessageId with
    | some capture => pure ([], some capture)
    | none => pure ([notACapture L conversationId sourceMessageId], none)

/-! ## Writing -/

def isHex8 (cs : List Char) : Bool :=
  cs.length == 8 && cs.all fun c => c.isDigit || ('a' ≤ c && c ≤ 'f')

/-- `^teach-[0-9]{8}T[0-9]{6}Z-[0-9a-f]{8}$` -/
def isTeachingId (id : String) : Bool :=
  let cs := id.toList
  cs.length == 31 && "teach-".toList.isPrefixOf cs && ((cs.drop 6).take 8).all (·.isDigit) &&
    cs[14]? == some 'T' && ((cs.drop 15).take 6).all (·.isDigit) &&
    (cs.drop 21).take 2 == ['Z', '-'] && isHex8 (cs.drop 23)

/-- `validate(SCHEMA, record, '$', 'carbon.teaching.v1')` of a record of the type. -/
def validateTeaching (t : Teaching) : List Fault :=
  (if isTeachingId t.id then [] else
    [⟨"PATTERN_UNMATCHED", "$.id",
      L.js.stringify t.id ++
        " does not match ^teach-[0-9]\x7b8\x7dT[0-9]\x7b6\x7dZ-[0-9a-f]\x7b8\x7d$",
      "write $.id in the form ^teach-[0-9]\x7b8\x7dT[0-9]\x7b6\x7dZ-[0-9a-f]\x7b8\x7d$"⟩]) ++
    tooShort "$.agent" t.agent ++ tooShort "$.text" t.text ++
    tooShort "$.conversation_id" t.conversationId ++
    tooShort "$.source_message_id" t.sourceMessageId ++
    tooShort "$.taught_by.sender_id" t.taughtBy.senderId ++ tooShort "$.taught_at" t.taughtAt ++
    (t.releaseId.map (tooShort "$.release_id")).getD [] ++
    (t.forgotten.map fun f => tooShort "$.forgotten.at" f.at' ++
      tooShort "$.forgotten.source_message_id" f.sourceMessageId).getD []

def taughtBy (capture : MessageRecord) : TaughtBy :=
  { senderId := capture.senderId, role := capture.role
    senderName := capture.senderName.filter (· ≠ "") }

def idUnavailable (sourceMessageId : String) : Fault :=
  ⟨"TEACHING_ID_UNAVAILABLE", sourceMessageId,
    "every id this message derives in the next two minutes is already a record on disk",
    "read the teachings directory; something is writing records in a loop"⟩

/-- What a call is made with, besides what the model says. -/
structure Taught where
  agent : String
  text : String
  conversationId : String
  sourceMessageId : String
  releaseId : Option String
  now : Int

/-- mirrors teachings.ts:268-287, the fields every new record has. -/
def base (d : Disk) (a : Taught) (capture : MessageRecord) : Except Err Teaching :=
  match L.js.parse (L.js.iso a.now) with
  | none => .error (.thrown "Invalid time value")
  | some t =>
    match freeIdFrom L d a.sourceMessageId 120 t with
    | none => .error (.stream [idUnavailable a.sourceMessageId])
    | some id => .ok
      { id, kind := .instruction, agent := a.agent, text := a.text
        conversationId := a.conversationId, sourceMessageId := a.sourceMessageId
        taughtBy := taughtBy capture, taughtAt := L.js.iso a.now
        releaseId := a.releaseId.filter (· ≠ ""), status := .active }

/-- `writeTeaching`'s validation, teachings.ts:215-233. -/
def writable (t : Teaching) : Except Err Teaching :=
  if validateTeaching L t = [] then .ok t else .error (.stream (validateTeaching L t))

/-- What a teaching call comes to: the record, and whether it was already there. -/
structure Outcome where
  record : Teaching
  already : Bool
deriving DecidableEq

def sameTaught (a : Taught) (t : Teaching) : Bool :=
  t.sourceMessageId == a.sourceMessageId && t.text == a.text

def atCap (held maxActive : Nat) : Fault :=
  ⟨"TEACHING_AT_CAP", toString maxActive,
    "this agent already holds " ++ toString held ++ " active instructions and its declaration's " ++
      "cap is " ++ toString maxActive,
    "forget one of the instructions it is already following, or raise this as a change request: " ++
      "a full list is a sign a workflow has been taught one sentence at a time, and the cap " ++
      "moves only by a change to this agent's declaration"⟩

/-- mirrors teachings.ts:332-361 -/
def rememberOn (block : TeachingBlock) (d : Disk) (a : Taught)
    (cited : List Fault × Option MessageRecord) : Except Err Outcome :=
  let faults := cited.1 ++ textFaults a.text block.maxChars ++ agentFaults L a.agent cited.2 ++
    (if block.maxActive < 1 then
      [⟨"TEACHING_MAX_ACTIVE_UNGIVEN", "max_active",
        "the count cap is the declaration's teaching.max_active and is never guessed here",
        "pass max_active from the agent's declaration"⟩] else [])
  let same := (active L d).find? (sameTaught a)
  match same, faults with
  | some t, [] => .ok ⟨t, true⟩
  | _, _ =>
    let faults := faults ++
      (if same.isNone && (active L d).length ≥ block.maxActive then
        [atCap (active L d).length block.maxActive] else [])
    match faults, cited.2 with
    | [], some capture => do
      let t ← base L d a capture
      let t ← writable L t
      .ok ⟨t, false⟩
    | _, _ => .error (.stream faults)

def questions : List String := ["1", "2", "3", "4", "size"]

/-- mirrors teachings.ts:366-392 -/
def raiseChangeOn (block : TeachingBlock) (d : Disk) (a : Taught) (failedQuestion : String)
    (cited : List Fault × Option MessageRecord) : Except Err Outcome :=
  let faults := cited.1 ++ textFaults a.text block.maxChars ++ agentFaults L a.agent cited.2 ++
    (if failedQuestion ∈ questions then [] else
      [⟨"TEACHING_QUESTION_UNKNOWN", failedQuestion,
        "a change request names which boundary question was answered yes, one of " ++
          ", ".intercalate questions ++ ", and this names " ++ L.js.stringify failedQuestion,
        "pass 1 for a tool the agent does not have, 2 for a system, channel or person it does " ++
          "not reach, 3 for a permission it was not given, 4 for a change to what was agreed to " ++
          "be done for this client, or size for an instruction that does not fit"⟩])
  match (openChanges L d).find? (sameTaught a), faults with
  | some t, [] => .ok ⟨t, true⟩
  | _, _ =>
    match faults, cited.2 with
    | [], some capture => do
      let t ← base L d a capture
      let t ← writable L
        { t with kind := .changeRequest, status := .opened, failedQuestion := some failedQuestion }
      .ok ⟨t, false⟩
    | _, _ => .error (.stream faults)

def notActive (d : Disk) (id : String) : Fault :=
  ⟨"TEACHING_NOT_ACTIVE", id,
    match (listed L d).find? (·.id = id) with
    | some t =>
      "this agent holds that record as " ++
        (match t.kind with
          | .instruction => "instruction"
          | .changeRequest => "change-request") ++ " " ++
        (match t.status with
          | .active => "active"
          | .forgotten => "forgotten"
          | .opened => "open"
          | .closed => "closed") ++ ", and only an active instruction is forgotten"
    | none => "this agent holds no record with that id, so there is no instruction to stop following",
    "read the active list and name one of its ids"⟩

/-- mirrors teachings.ts:398-422 -/
def forgetOn (d : Disk) (id sourceMessageId : String) (now : Int)
    (cited : List Fault × Option MessageRecord) : Except Err Outcome :=
  match (active L d).find? (·.id = id), cited.1 with
  | some held, [] => do
    let t ← writable L
      { held with status := .forgotten, forgotten := some ⟨L.js.iso now, sourceMessageId⟩ }
    .ok ⟨t, false⟩
  | some _, faults => .error (.stream faults)
  | none, faults => .error (.stream (faults ++ [notActive L d id]))

/-- Write what was decided, unless it is already there. -/
def enact (decided : Except Err Outcome) : Program L Outcome :=
  match decided with
  | .error e => raise L e
  | .ok o => do
    if !o.already then write L (.teaching o.record)
    pure o

def remember (block : TeachingBlock) (a : Taught) : Program L Outcome := do
  let cited ← citedCapture L a.conversationId a.sourceMessageId
  let w ← fetch L
  enact L (rememberOn L block w.disk a cited)

def raiseChange (block : TeachingBlock) (a : Taught) (failedQuestion : String) :
    Program L Outcome := do
  let cited ← citedCapture L a.conversationId a.sourceMessageId
  let w ← fetch L
  enact L (raiseChangeOn L block w.disk a failedQuestion cited)

def forget (id conversationId sourceMessageId : String) (now : Int) : Program L Outcome := do
  let cited ← citedCapture L conversationId sourceMessageId
  let w ← fetch L
  enact L (forgetOn L w.disk id sourceMessageId now cited)

end CarbonRuntime.Teachings
