import CarbonRuntime.Runtime.Calls

/-!
# A turn and what follows it

`takeTurn` (runtime/loop.ts:1585-1688) tells the teaching server which release
is being taken, calls turn/start, and writes the thread record. `ensureReply`
(loop.ts:1795-1858) asks once for a reply that was not written, and
`ensureTeachCheck` (loop.ts:1875-1942) holds a reply of the management
conversation until something was recorded or the model says nothing was
taught. A program harness takes no follow-up (runtime/program-release.ts).
-/

open CarbonRuntime.Core CarbonRuntime.Stream

namespace CarbonRuntime.Turn

open Store Policy Teachings Tools Calls

variable (L : Loop)

/-- Change the fields of the loop. -/
def setMem (f : Mem → Mem) : Program L Unit := do
  let w ← fetch L
  write L (.mem (f w.mem))

def discard {α : Type} (p : Program L α) : Program L Unit := p.bind fun _ => pure ()

/-! ## Taking a turn -/

/-- mirrors loop.ts:213-217 -/
def when' (J : Js) : Stamp → Option String
  | .seconds n => some (J.iso (n * 1000))
  | .text s => if s = "" then none else some s
  | .absent => none

/-- The browser's part before a turn: what is released under this id goes back
unanswered where the ticket cannot be read, loop.ts:1589-1603. -/
def openBrowserTurn (unitId threadId releaseId : String) : Program L Unit := do
  setMem L fun m => { m with
    browserActive := some { conversationId := unitId, releaseId, threadId } }
  let records ← recordsIn L unitId
  let records := records.filter (releasedUnder releaseId)
  let prepared : Program L Unit := do
    let a ← ask L (.prepare releaseId)
    outcome L a
  prepared.handle (𝔖 := sig L) fun e => do
    setMem L fun m => { m with browserActive := none }
    Prog.each (𝔖 := sig L) (fun r => do
      let _ ← annotate L r.id fun f => { f with modelEffect := some .notStarted }
      let at_ ← isoNow L
      let _ ← completeRelease L r.id at_) records
    raise L e

def endBrowserTurn : Program L Unit := do
  setMem L fun m => { m with browserActive := m.browserActive.map ({ · with ended := true }) }
  let a ← ask L .settle
  outcome L a

/-- mirrors loop.ts:1779-1793 -/
def turnOf (releaseId clientUserMessageId : String) : Program L TurnResult := do
  let gate ← ask L .sandbox
  orThrow L gate
  mark L (.turn releaseId clientUserMessageId)
  let a ← ask L (.turn releaseId clientUserMessageId)
  let result ← outcome L a
  mark L (.turned releaseId clientUserMessageId result.status result.agentMessage)
  pure result

/-- The turn, and what becomes of the browser's part of it if it throws. -/
def guardedTurn (releaseId clientUserMessageId : String) : Program L TurnResult :=
  Prog.handle (𝔖 := sig L)
    (do
      let result ← turnOf L releaseId clientUserMessageId
      if L.browser then endBrowserTurn L
      pure result)
    fun e => do
      if L.browser then
        endBrowserTurn L
        noteBrowserEffect L releaseId true
      raise L e

/-- The `finally` of takeTurn: the servers are told that no release is taken. -/
def afterTurn : Program L Unit := do
  if L.declaration.teaching.isSome then
    setMem L fun m => { m with teachRelease := none }
  if L.browser then
    setMem L fun m => { m with activeBrowserReply := none, browserActive := none }

/-- The turn between `setRelease(releaseId)` and `setRelease(null)`, loop.ts:1604-1646. -/
def turnUnder (unitId releaseId clientUserMessageId : String) : Program L TurnResult := do
  if L.declaration.teaching.isSome then
    setMem L fun m => { m with teachRelease := some releaseId }
  if L.browser then
    setMem L fun m => { m with activeBrowserReply := some (unitId, releaseId) }
    noteBrowserEffect L releaseId false
  Prog.andFinally (𝔖 := sig L) (guardedTurn L releaseId clientUserMessageId) (afterTurn L)

/-- `AGENT_MESSAGE_KEPT`, loop.ts:464. -/
def agentMessageKept : Nat := 300

def turnEntry (releaseId completedAt : String) (result : TurnResult) : TurnEntry :=
  { releaseId, status := result.status.text, completedAt
    agentMessage := result.agentMessage.map fun s => String.ofList (s.toList.take agentMessageKept) }

/-- The thread record of a turn that ended, and the adapter told, loop.ts:1648-1687. -/
def recordTurn (unitId releaseId completedAt : String) (result : TurnResult) :
    Program L (TurnResult × String) := do
  let thread ← readThread L unitId
  let thread := thread.getD { unitId }
  writeThread L { thread with
    completedTurns := thread.completedTurns + if result.status = .completed then 1 else 0
    turns := thread.turns ++ [turnEntry releaseId completedAt result] }
  let after ← ask L .afterTurn
  match after with
  | .ok () => pure (result, completedAt)
  | .error e => if endsTheProcess e then raise L e else pure (result, completedAt)

/-- The time a turn completed at: as the harness says, or now. -/
def completedAtOf (result : TurnResult) : Program L String :=
  match when' L.js result.completedAt with
  | some at_ => pure at_
  | none => isoNow L

/-- mirrors loop.ts:1585-1688: the result and the time it is completed at. -/
def takeTurn (unitId threadId releaseId clientUserMessageId : String) :
    Program L (TurnResult × String) := do
  if L.browser then openBrowserTurn L unitId threadId releaseId
  let result ← turnUnder L unitId releaseId clientUserMessageId
  let completedAt ← completedAtOf L result
  recordTurn L unitId releaseId completedAt result

/-! ## The reply -/

inductive ReplyResult
  | replied | repliedAfterFollowUp | noReplyDeclared | missingCase | parkedGate | parkedNoReply
deriving DecidableEq

/-- mirrors loop.ts:1798-1801 -/
def hasOutbound (conversationId releaseId : String) : Program L Bool := do
  let records ← recordsIn L conversationId
  pure (records.any fun r => r.direction == .outbound && r.requestId == some releaseId &&
    (!L.browser || r.status != some .failed))

/-- `parkFailed(this.store.read(…)!, …)`. -/
def parkRead (i : Identity) (faults : List Fault) (reason : Option String) : Program L Unit := do
  let onDisk ← read L i
  match onDisk with
  | none => raise L (.thrown "Cannot read properties of null (reading 'conversation_id')")
  | some _ => discard L (parkFailed L i faults reason)

/-- mirrors loop.ts:1946-1953 -/
def markReplyOutcome (records : List MessageRecord) (text : String) : Program L Unit :=
  Prog.each (𝔖 := sig L) (fun r =>
    discard L (annotate L r.id fun f => { f with replyOutcome := some text })) records

def programResponseInvalid (messageId problem fix : String) : Fault :=
  ⟨"PROGRAM_RESPONSE_INVALID", messageId, problem, fix⟩

/-- `gateFaults`, program-release.ts:71-76. -/
def gateFaults : Err → Option (List Fault)
  | .stream faults => some faults
  | .tool faults => some faults
  | _ => none

/-- Park what the reply gate refused, for each record still there. -/
def parkGate (records : List MessageRecord) (faults : List Fault) : Program L Unit :=
  Prog.each (𝔖 := sig L) (fun one => do
    let onDisk ← read L one.id
    match onDisk with
    | none => pure ()
    | some _ => discard L (parkFailed L one.id faults (some "program-reply-gate"))) records

/-- mirrors program-release.ts:90-137 -/
def applyProgramReply (record : MessageRecord) (records : List MessageRecord) (releaseId : String)
    (result : TurnResult) : Program L ReplyResult := do
  let there ← hasOutbound L record.conversationId releaseId
  if there then pure .replied
  else match result.program with
    | some ⟨.noReply, _, _⟩ => do
      markReplyOutcome L records "no-reply-declared"
      pure .noReplyDeclared
    | some ⟨.missingCase, _, _⟩ => do
      markReplyOutcome L records "missing-case"
      pure .missingCase
    | some ⟨.reply, some args, claim⟩ =>
      Prog.handle (𝔖 := sig L) (do
        let _ ← replyTool L args claim
        pure .replied)
        fun e => match gateFaults e with
          | none => raise L e
          | some faults => do
            parkGate L records faults
            pure .parkedGate
    | some ⟨.reply, none, _⟩ =>
      raise L (.runtime [programResponseInvalid record.messageId
        "disposition reply did not include its reply" "return exactly one reply object"] Exit.fault)
    | _ =>
      raise L (.runtime [programResponseInvalid record.messageId
        ("the program turn completed without a reply, no_reply, or missing_case disposition")
        "return one carbon.program-result.v1 document"] Exit.fault)

def noReply : String := "NO_REPLY"

def nothingTaught : String := "NOTHING_TAUGHT"

/-- `saidNoReply` and `saidNothingTaught`. -/
def said (word : String) (text : Option String) : Bool := text.any fun t => trim t == word

def replyAbsent (messageId : String) : Fault :=
  ⟨"REPLY_ABSENT", messageId,
    "the turn completed and the follow-up completed, and neither wrote a reply nor answered " ++
      "NO_REPLY, so nothing reached the contact",
    "read the thread record's agent_message for this release; the model must call the reply tool " ++
      "or answer NO_REPLY"⟩

/-- mirrors loop.ts:1804-1858 -/
def ensureReply (record : MessageRecord) (records : List MessageRecord)
    (unitId threadId releaseId : String) (result : TurnResult) : Program L ReplyResult := do
  let there ← hasOutbound L record.conversationId releaseId
  if there then pure .replied
  else if L.declaration.program then applyProgramReply L record records releaseId result
  else do
    let (followUp, _) ← takeTurn L unitId threadId releaseId (releaseId ++ "-follow-up")
    let there ← hasOutbound L record.conversationId releaseId
    if there then pure .repliedAfterFollowUp
    else if said noReply followUp.agentMessage then do
      markReplyOutcome L records "no-reply-declared"
      pure .noReplyDeclared
    else do
      Prog.each (𝔖 := sig L) (fun one =>
        parkRead L one.id [replyAbsent record.messageId] (some "no-reply")) records
      pure .parkedNoReply

/-! ## The teach check -/

inductive TeachResult
  | notHeld | released | releasedAfterFollowUp | releasedNothingTaught | parkedUnrecorded
deriving DecidableEq

def isHeldReply (releaseId : String) (r : MessageRecord) : Bool :=
  r.direction == .outbound && r.requestId == some releaseId && r.status == some .pendingTeachCheck

/-- mirrors loop.ts:1864-1869 -/
def heldReply (conversationId releaseId : String) : Program L (Option MessageRecord) := do
  let records ← recordsIn L conversationId
  pure (records.find? (isHeldReply releaseId))

/-- mirrors loop.ts:1875-1877 -/
def recordedThisRelease (releaseId : String) : Program L Bool := do
  let w ← fetch L
  pure (teachingsUnderRelease L w.disk releaseId ≠ [])

def teachingUnrecorded (messageId : String) : Fault :=
  ⟨"TEACHING_UNRECORDED", messageId,
    "a reply was composed in the management conversation, nothing was recorded in that turn, and " ++
      "the follow-up neither recorded anything nor answered " ++ nothingTaught,
    "read this reply: if it tells the client something will now be followed, record it with " ++
      "remember or raise_change and send the reply by hand; the reply text is kept exactly as the " ++
      "model wrote it"⟩

def programTeachingUnrecorded (messageId : String) : Fault :=
  ⟨"TEACHING_UNRECORDED", messageId,
    "a program reply was held for a teaching check and nothing was recorded; a program harness " ++
      "does not take a follow-up turn",
    "record the teaching in the handler before the reply, or do not reply from the management " ++
      "conversation until it is recorded"⟩

/-- Park the reply this release holds as `unrecorded-teaching`. -/
def parkUnrecorded (i : Identity) (releaseId : String) (cause : Fault) : Program L Unit := do
  mark L (.unrecorded releaseId)
  parkRead L i [cause] (some "unrecorded-teaching")

/-- mirrors program-release.ts:139-148 -/
def programTeachCheck (record : MessageRecord) (releaseId : String) : Program L TeachResult := do
  let held ← heldReply L record.conversationId releaseId
  match held with
  | none => pure .notHeld
  | some held => do
    let recorded ← recordedThisRelease L releaseId
    if recorded then do
      let _ ← releaseHeldReply L releaseId
      pure .released
    else do
      let onDisk ← read L held.id
      match onDisk with
      | none => pure .parkedUnrecorded
      | some _ => do
        parkUnrecorded L held.id releaseId (programTeachingUnrecorded record.messageId)
        pure .parkedUnrecorded

/-- mirrors loop.ts:1881-1942 -/
def ensureTeachCheck (record : MessageRecord) (unitId threadId releaseId : String) :
    Program L TeachResult := do
  let held ← heldReply L record.conversationId releaseId
  match held with
  | none => pure .notHeld
  | some held => do
    let recorded ← recordedThisRelease L releaseId
    if recorded then do
      let _ ← releaseHeldReply L releaseId
      pure .released
    else if L.declaration.program then programTeachCheck L record releaseId
    else do
      let (followUp, _) ← takeTurn L unitId threadId releaseId (releaseId ++ "-teach-check")
      let recorded ← recordedThisRelease L releaseId
      if recorded then do
        let _ ← releaseHeldReply L releaseId
        pure .releasedAfterFollowUp
      else if said nothingTaught followUp.agentMessage then do
        let _ ← releaseHeldReply L releaseId
        pure .releasedNothingTaught
      else do
        parkUnrecorded L held.id releaseId (teachingUnrecorded record.messageId)
        pure .parkedUnrecorded

end CarbonRuntime.Turn
