import CarbonRuntime.Runtime.Release

/-!
# Recovery, delivery and one pass

`recover` (runtime/loop.ts:1054-1125) reads from the store what a restart owes;
`deliver` (loop.ts:1957-2010) sends what the reply tool wrote; `pass`
(loop.ts:2014-2049) polls, captures, releases and delivers, in that order.

`service L` is the process around one loop (runtime/index.ts:383-470): it
refuses to start under a latch, recovers, then makes passes, with calls
reaching it between them. `lose` is what its death takes: everything in memory.
-/

open CarbonRuntime.Core CarbonRuntime.Stream

namespace CarbonRuntime.Pass

open Store Policy Calls Turn Release

variable (L : Loop)

/-! ## Recovery -/

/-- Steering requests that were out when the process died, loop.ts:1055-1066. -/
def recoverDispatching : Program L Unit :=
  if L.browser then do
    let records ← rebuild L
    Prog.each (𝔖 := sig L) (fun r => do
      if mine L r && r.adapterFields.browserDelivery == some .dispatching then
        discard L (annotate L r.id madeUncertain)) records
  else pure ()

/-- A claimed send may have reached the channel just before the process died,
loop.ts:1070-1075. -/
def recoverClaimed (r : MessageRecord) : Program L Unit := do
  match r.delivery with
  | some d =>
    if r.direction ≠ .outbound || d.status ≠ .pending || d.actionClaim.isNone then pure ()
    else do
      let _ ← markUnknown L d.requestId
      let _ ← annotate L r.id fun f => { f with actionReconcileRequired := true }
  | none => pure ()

/-- The open releases of a listing, each id once, in the order they are met. -/
def openReleases (records : List MessageRecord) : List String :=
  ((records.filter (·.direction = .inbound)).filterMap (·.openRelease)).eraseDups

def repliesTo (records : List MessageRecord) (releaseId : String) : List MessageRecord :=
  records.filter fun r => r.direction == .outbound && r.requestId == some releaseId

/-- Complete what a sent reply answered, loop.ts:1099-1106. -/
def recoverSent (records : List MessageRecord) (releaseId : String) : Program L Unit := do
  let at_ ← isoNow L
  Prog.each (𝔖 := sig L) (fun r => do
    if r.direction == .inbound && r.openRelease == some releaseId && !r.uncertain then
      discard L (completeRelease L r.id at_)) records

/-- What one open release comes to: whether it is to be re-issued. -/
def recoverRelease (records : List MessageRecord) (reissue : List String) (releaseId : String) :
    Program L (List String) := do
  let replies := repliesTo records releaseId
  if replies.any (·.status = some .sent) then do
    recoverSent L records releaseId
    pure reissue
  else if replies.any (·.status = some .unknown) then pure reissue
  else if replies.any (·.status = some .pending) then pure reissue
  else if L.browser then do
    Prog.each (𝔖 := sig L) (fun r => do
      if r.direction == .inbound && r.openRelease == some releaseId then
        discard L (annotate L r.id (effectNoted true))) records
    pure reissue
  else pure (reissue ++ [releaseId])

/-- mirrors loop.ts:1054-1125; the answer is `reissue`, and the log's `resend`,
`unknown` and `done` are read by nothing. -/
def recover : Program L (List String) := do
  recoverDispatching L
  let claimed ← rebuild L
  Prog.each (𝔖 := sig L) (recoverClaimed L) claimed
  let all ← rebuild L
  let all := all.filter fun r => !L.browser || mine L r
  Prog.fold (𝔖 := sig L) (recoverRelease L all) [] (openReleases all)

/-- mirrors loop.ts:1759-1777 -/
def inspectBrowserRecovery : Program L Unit :=
  if L.browser then do
    let records ← rebuild L
    discard L (Prog.fold (𝔖 := sig L) (fun inspected r => do
      match r.release with
      | none => pure inspected
      | some rel =>
        if r.adapterFields.modelEffect ≠ some .uncertain || inspected.contains rel.turnId then
          pure inspected
        else do
          Prog.handle (𝔖 := sig L) (do
            let a ← ask L (.readThread rel.threadId)
            outcome L a) fun _ => pure ()
          noteBrowserEffect L rel.turnId true
          pure (inspected ++ [rel.turnId])) [] records)
  else pure ()

/-! ## Delivery -/

def sentProof (r : MessageRecord) : Option Claim := r.delivery.bind (·.actionClaim)

/-- mirrors reply-tool.ts:415-429 -/
def recordSentAction (r : MessageRecord) (claim : Claim) : Program L Unit := do
  let a ← ask L (.finish claim)
  outcome L a
  let at_ ← isoNow L
  discard L (annotate L r.id fun f => { f with actionRecordedAt := some at_ })

/-- Complete the receipt of a send that was confirmed, loop.ts:1961-1967. -/
def completeReceipt (r : MessageRecord) : Program L Unit := do
  match sentProof r with
  | some claim =>
    if r.direction ≠ .outbound || r.status ≠ some .sent || r.adapterFields.actionRecordedAt.isSome
    then pure ()
    else recordSentAction L r claim
  | none => pure ()

/-- Close what a sent reply answered, loop.ts:1997-2006. -/
def completeAnswered (r : MessageRecord) (requestId : String) : Program L Unit := do
  let at_ ← isoNow L
  let records ← recordsIn L r.conversationId
  Prog.each (𝔖 := sig L) (fun one => do
    if one.direction == .inbound && one.openRelease == some requestId && !one.uncertain then
      discard L (completeRelease L one.id at_)) records

/-- The settlement a send's outcome asks for. -/
def settleOutcome (requestId : String) (o : SendOutcome) : Program L MessageRecord :=
  match o.status with
  | .sent => markSent L requestId o.chunkIds
  | .unknown => markUnknown L requestId
  | .other => markFailed L requestId

/-- The send of one record, loop.ts:1968-2008. -/
def sendOne (r : MessageRecord) (requestId : String) : Program L Unit := do
  mark L (.send r)
  let answer ← Prog.handle (𝔖 := sig L)
    (do
      let a ← ask L (.send r)
      let o ← outcome L a
      pure (some o))
    fun _ => do
      let _ ← markUnknown L requestId
      mark L (.settled r)
      pure none
  match answer with
  | none => pure ()
  | some none => raise L (.thrown "Cannot read properties of undefined (reading 'status')")
  | some (some o) => do
    let confirmed ← settleOutcome L requestId o
    mark L (.settled r)
    if o.status = .sent then
      match sentProof confirmed with
      | some claim => recordSentAction L confirmed claim
      | none => pure ()
      completeAnswered L r requestId

def deliverRecord (r : MessageRecord) : Program L Unit :=
  match r.delivery with
  | some d =>
    if r.direction ≠ .outbound || d.status ≠ .pending then pure ()
    else sendOne L r d.requestId
  | none => pure ()

/-- mirrors loop.ts:1957-2010 -/
def deliver : Program L Unit := do
  let confirmed ← rebuild L
  Prog.each (𝔖 := sig L) (completeReceipt L) confirmed
  let records ← rebuild L
  mark L (.delivering records)
  Prog.each (𝔖 := sig L) (deliverRecord L) records

/-! ## Poll and capture -/

def failuresBeforeHold (c : Channel) : Nat :=
  match c.pollFailuresBeforeHold with
  | some n => if n ≥ 1 then n else 3
  | none => 3

/-- mirrors poll.ts:60-64 -/
def inboundTransportOf (c : Channel) : Option String :=
  if c.kind = "email" then some (c.inbound.getD "imap") else none

def pollState (d : Disk) (c : Channel) : PollState :=
  (d.polls.find (c.kind, c.account)).getD { kind := c.kind, account := c.account }

/-- mirrors poll.ts:110-129 -/
def recordPollFailure : Program L Bool := do
  let w ← fetch L
  let previous := pollState w.disk L.channel
  let transport := inboundTransportOf L.channel
  let same := transport.isNone || previous.inboundTransport == transport
  let consecutive := (if same then previous.consecutiveFailures else 0) + 1
  let holding := decide (consecutive ≥ failuresBeforeHold L.channel)
  write L (.poll { previous with
    consecutiveFailures := consecutive, holding
    inboundTransport := transport <|> previous.inboundTransport })
  pure holding

/-- mirrors poll.ts:90-105 -/
def recordPollSuccess : Program L Unit := do
  let w ← fetch L
  let previous := pollState w.disk L.channel
  write L (.poll { previous with
    consecutiveFailures := 0, holding := false
    inboundTransport := inboundTransportOf L.channel <|> previous.inboundTransport })

/-- mirrors loop.ts:1010-1048: whether the channel is held. -/
def poll : Program L Bool := do
  let polled ← Prog.handle (𝔖 := sig L)
    (do
      let a ← ask L .poll
      let items ← outcome L a
      pure (some items))
    fun _ => pure none
  match polled with
  | some none => pure false
  | some (some _) => do
    recordPollSuccess L
    pure false
  | none => recordPollFailure L

/-- The bytes of attachments are put under the record's path, store.ts:395-414. -/
def putAttachments (c : Candidate) : Program L Unit :=
  if c.bytes then refuse L (pathFaults L.js c.record.id) else pure ()

/-- One entry: what the store refuses of its record is logged, loop.ts:1193-1203. -/
def captureEntry (c : Candidate) : Program L Unit := do
  putAttachments L c
  Prog.handle (𝔖 := sig L) (discard L (capture L c.record c.cursor c.typeFaults none c.raw))
    fun e => match e with
      | .stream _ => pure ()
      | e => raise L e

/-- mirrors loop.ts:1181-1221 -/
def captureBatch : Program L Unit := do
  let answer ← ask L .payload
  let batch ← orThrow L answer
  Prog.each (𝔖 := sig L) (captureEntry L) batch.entries
  Prog.each (𝔖 := sig L) (fun (c, reason) =>
    discard L (park L c.record reason c.cursor c.typeFaults c.raw)) batch.parked
  Prog.each (𝔖 := sig L) (fun (conversationId, kind, position) =>
    advanceCursor L conversationId kind position) batch.consume

/-! ## The pass -/

/-- mirrors loop.ts:2014-2049 -/
def pass : Program L Unit := do
  let holding ← poll L
  -- What was recovered stays recovered, and is re-issued on the pass after the
  -- channel comes back.
  if holding then discard L (holds L)
  else do
    let w ← fetch L
    if w.mem.recovering.isSome then inspectBrowserRecovery L
    captureBatch L
    let w ← fetch L
    let reissue := w.mem.recovering.getD []
    write L (.take reissue)
    releasePass L reissue
    deliver L

/-! ## The process -/

def latchFault (l : Latch) : Fault :=
  ⟨"CHANNEL_LATCHED_" ++ l.cause.code, l.kind ++ ":" ++ l.account, l.cause.problem, l.cause.fix⟩

/-- mirrors latch.ts:75-80 -/
def refuseIfLatched : Program L Unit := do
  let w ← fetch L
  if w.disk.latches.rows ≠ [] then
    raise L (.runtime (w.disk.latches.rows.map latchFault) Exit.latched)

/-- A start, as far as its first pass, index.ts:168-385. -/
def boot : Program L Unit := do
  mark L .started
  refuseIfLatched L
  let reissue ← recover L
  setMem L fun m => { m with recovering := some reissue }

/-- What an idle process is given to do: a pass, or calls between two passes. -/
inductive Job
  | pass
  | calls (calls : List Call)

/-- Calls that reach the process between two passes. -/
def between (calls : List Call) : Program L Unit :=
  if calls.all (fun c => decide (c.fits L.browser)) then runCalls L calls else pure ()

def job : Job → Program L Unit
  | .pass => pass L
  | .calls calls => between L calls

def lose (w : World) : World := { w.log (.died w.ghost.replying) with mem := {}, ghost := {} }

/-- What is done to a store while its process is down: an install clears the
latches. -/
def tend (w w' : World) : Prop := w' = { w with disk := { w.disk with latches := Table.empty } }

def service : Service (sig L) Job where
  boot := boot L
  job := job L
  lose := lose
  tend := tend

/-- A store nothing was ever written to by a release or a reply: what the
adapters captured, and nothing else. -/
def fresh (w : World) : Prop :=
  w.disk.requests.rows = [] ∧ w.mem = {} ∧ w.ghost = {} ∧ w.hist = [] ∧
    ∀ r ∈ w.disk.records.rows, ({ record := r } : Candidate).fits L.browser

/-- The process over a store. -/
def process : LTS (Service.State (sig L)) (Service.Label Job) := (service L).lts (fresh L)

end CarbonRuntime.Pass
