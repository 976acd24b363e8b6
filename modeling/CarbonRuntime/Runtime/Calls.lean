import CarbonRuntime.Runtime.Tools

/-!
# What reaches the process while it waits

The calls an awaited answer carries run before the answer is looked at: the
model's tool calls, a browser input captured by the bridge, and the steering of
a browser input into the running turn (runtime/loop.ts:744-842). A call that
throws is answered to its caller; nothing of it reaches the loop.

The steering chain is one input at a time: `steer` takes it as far as its
steering request, `steered` is what follows the answer.
-/

open CarbonRuntime.Core CarbonRuntime.Stream

namespace CarbonRuntime.Calls

open Store Policy Teachings Tools

variable (L : Loop)

/-! ## Notes on a browser release -/

/-- The inbound records released under a release id. -/
def releasedUnder (releaseId : String) (r : MessageRecord) : Bool :=
  r.direction == .inbound && r.release.any (·.turnId = releaseId)

def effectNoted (uncertain : Bool) (f : AdapterFields) : AdapterFields :=
  { f with modelEffect := some (if uncertain then .uncertain else .potentiallyStarted) }

/-- mirrors loop.ts:1742-1757 -/
def noteBrowserEffect (releaseId : String) (uncertain : Bool) : Program L Unit := do
  let records ← rebuild L
  Prog.each (𝔖 := sig L) (fun r => do
    if releasedUnder releaseId r && (uncertain || !r.uncertain) then
      let _ ← annotate L r.id (effectNoted uncertain)
    else pure ()) records

/-- mirrors loop.ts:752-755 -/
def writtenBrowserReply (releaseId : String) : Program L (Option MessageRecord) := do
  let fence ← readRequest L releaseId
  match fence with
  | some q => read L q.names
  | none => pure none

def phased (phase : DeliveryPhase) (f : AdapterFields) : AdapterFields :=
  { f with browserDelivery := some phase }

def madeUncertain (f : AdapterFields) : AdapterFields :=
  { f with modelEffect := some .uncertain, browserDelivery := some .uncertain }

/-- mirrors loop.ts:757-765 -/
def retainExcludedBrowserInput (record : MessageRecord) : Program L Unit := do
  let _ ← annotate L record.id madeUncertain
  pure ()

/-- Whether the written reply's submissions leave this input out. -/
def excludedBy (reply : Option MessageRecord) (record : MessageRecord) : Bool :=
  reply.any fun r => !(r.adapterFields.submissionIds.any (·.contains record.platformMessageId))

/-! ## Steering -/

/-- One input of `deliverBrowserInputs`, as far as its request, loop.ts:767-805. -/
def steer (how : Steering) : Program L Unit := do
  let w ← fetch L
  match w.mem.browserActive, w.mem.steering with
  | some active, none =>
    if active.turnId.isNone || active.ended then pure ()
    else match w.mem.browserPending.find? (·.conversationId = active.conversationId) with
    | none => pure ()
    | some captured => do
      write L (.mem { w.mem with
        browserPending := w.mem.browserPending.filter (·.messageId ≠ captured.messageId) })
      let record ← read L captured.id
      match record with
      | none => raise L (.thrown "Cannot read properties of null (reading 'release')")
      | some record =>
        if record.release.isSome || record.uncertain then pure ()
        else match how with
        | .unsupported => do
          let _ ← annotate L record.id (phased .nextTurn)
        | .unprepared => do
          let _ ← annotate L record.id (phased .dispatching)
        | .requested => do
          let _ ← annotate L record.id (phased .dispatching)
          let reply ← writtenBrowserReply L active.releaseId
          if reply.isSome then
            let _ ← annotate L record.id (phased .nextTurn)
          else do
            let w ← fetch L
            write L (.mem { w.mem with steering := some record })
  | _, _ => pure ()

/-- The release of an input that was steered into the running turn. -/
def releaseSteered (active : BrowserActive) (i : Identity) : Program L Unit := do
  let at_ ← isoNow L
  let t ← now L
  let record ← read L i
  match record with
  | none => raise L (.thrown "Cannot read properties of null (reading 'historical')")
  | some record => do
    let _ ← release L record ⟨at_, active.threadId, active.releaseId, none⟩ t false

/-- What follows an acknowledged steering request, loop.ts:809-822. -/
def steerAcknowledged (active : BrowserActive) (record : MessageRecord) : Program L Unit := do
  releaseSteered L active record.id
  let _ ← annotate L record.id (phased .delivered)
  let reply ← writtenBrowserReply L active.releaseId
  if excludedBy reply record then retainExcludedBrowserInput L record
  else noteBrowserEffect L active.releaseId false

/-- What follows a steering request that failed, loop.ts:823-840. -/
def steerFailed (active : BrowserActive) (record : MessageRecord) (notDelivered : Bool) :
    Program L Unit := do
  if notDelivered then
    let _ ← annotate L record.id (phased .nextTurn)
  else do
    releaseSteered L active record.id
    let _ ← annotate L record.id madeUncertain

def steered (acknowledged notDelivered : Bool) : Program L Unit := do
  let w ← fetch L
  match w.mem.browserActive, w.mem.steering with
  | some active, some record => do
    write L (.mem { w.mem with steering := none })
    if acknowledged then
      (steerAcknowledged L active record).handle (𝔖 := sig L) fun _ =>
        steerFailed L active record notDelivered
    else steerFailed L active record notDelivered
  | _, _ => pure ()

/-- `onStarted`: the harness accepted the browser turn, loop.ts:1618-1623. -/
def started (turnId : String) : Program L Unit := do
  let w ← fetch L
  match w.mem.browserActive with
  | none => pure ()
  | some active => do
    noteBrowserEffect L active.releaseId false
    let w ← fetch L
    write L (.mem { w.mem with browserActive := some { active with turnId := some turnId } })
    let records ← recordsIn L active.conversationId
    Prog.each (𝔖 := sig L) (acceptBrowserInput L) records

/-! ## Calls -/

def runCall : Call → Program L Unit
  | .reply args claim => do
    let _ ← replyTool L args claim
  | .remember args =>
    match L.declaration.teaching with
    | none => pure ()
    | some block => do
      let _ ← rememberHandler L block args
  | .raiseChange args =>
    match L.declaration.teaching with
    | none => pure ()
    | some block => do
      let _ ← raiseChangeHandler L block args
  | .forget args =>
    match L.declaration.teaching with
    | none => pure ()
    | some _ => do
      let _ ← forgetHandler L args
  | .submit c => do
    let _ ← capture L c.record c.cursor c.typeFaults none c.raw
  | .toolStatusChanged => do
    let w ← fetch L
    write L (.mem { w.mem with toolStatusStale := true })
  | .started turnId => started L turnId
  | .steer how => steer L how
  | .steered acknowledged notDelivered => steered L acknowledged notDelivered

/-- Run the calls in the order they arrive; what one throws goes to its caller. -/
def runCalls (calls : List Call) : Program L Unit :=
  Prog.each (𝔖 := sig L) (fun c => (runCall L c).handle (𝔖 := sig L) fun _ => pure ()) calls

/-- The result of an awaited answer, after the calls that came with it. -/
def outcome {α : Type} (a : Awaited α) : Program L α := do
  runCalls L a.calls
  match a.result with
  | .ok x => pure x
  | .error e => raise L e

/-- The value of a synchronous operation that may throw. -/
def orThrow {α : Type} : Except Err α → Program L α
  | .ok x => pure x
  | .error e => raise L e

end CarbonRuntime.Calls
