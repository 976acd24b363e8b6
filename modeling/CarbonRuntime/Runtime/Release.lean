import CarbonRuntime.Runtime.Turn

/-!
# The release pass

`releasePass` (runtime/loop.ts:1287-1413) gathers what may go to the model into
groups and hands each to `releaseOne`, which opens the thread, checks what
holds, writes the releases and takes the turn. A release id a start answered
to re-issue is grouped by that id and skips both the release decision and the
release write.
-/

open CarbonRuntime.Core CarbonRuntime.Stream

namespace CarbonRuntime.Release

open Store Policy Teachings Tools Calls Turn

variable (L : Loop)

/-! ## Tool servers and the provider proxy -/

def replyServerName : String := "carbon-reply"
def teachServerName : String := "carbon-teach"
def recordsServerName : String := "carbon-records"

def declaredServers (d : Declaration) : List String :=
  (d.toolServers.map (·.name)).filter (fun n => d.apiKeyVia ≠ some n) ++ [replyServerName] ++
    (if d.teaching.isSome then [teachServerName] else []) ++
    (if d.records then [recordsServerName] else [])

def sortedDistinct (names : List String) : List String :=
  sortBy (fun a b => decide (a < b)) names.eraseDups

def undeclaredServer (J : Js) (name : String) : Fault :=
  ⟨"TOOL_SERVER_UNDECLARED", name,
    "the harness lists a tool server named " ++ J.stringify name ++
      " that no declaration names; it was not put there by carbon",
    "bill the provider on an API key rather than a personal login, and remove the server from the " ++
      "harness configuration"⟩

def unlistedServer (name : String) : Fault :=
  ⟨"TOOL_SERVER_NOT_LISTED", name,
    "the declaration names this tool server and the harness does not list it at all",
    "check that install rendered it into config.toml, and that the name matches"⟩

/-- mirrors loop.ts:952-975 -/
def serverFaults (J : Js) (d : Declaration) (listed : List String) : List Fault :=
  ((sortedDistinct listed).filter (· ∉ declaredServers d)).map (undeclaredServer J) ++
    ((sortedDistinct (declaredServers d)).filter (· ∉ listed)).map unlistedServer

/-- mirrors loop.ts:929-945 -/
def readToolServerStatus : Program L Unit := do
  let a ← ask L .toolStatus
  let status ← outcome L a
  let w ← fetch L
  if !w.mem.toolStatusRead then
    let faults := serverFaults L.js L.declaration status.names
    if faults ≠ [] then raise L (.runtime faults Exit.fault)
    else setMem L fun m => { m with toolStatusRead := true }
  setMem L fun m => { m with holdFaults := status.holds, toolStatusStale := false }

def proxyDown (agent via url : String) : Fault :=
  ⟨"PROVIDER_PROXY_DOWN", "tool_servers." ++ via,
    "the provider proxy does not answer on " ++ url ++
      ", so a turn now would wait on a provider it cannot reach",
    "read the unit: systemctl status carbon-tool@" ++ agent ++ "-" ++ via ++
      ". Release is held until it answers."⟩

/-- mirrors loop.ts:982-995 -/
def checkProviderProxy : Program L (List Fault) := do
  match L.declaration.apiKeyVia with
  | none => do
    setMem L fun m => { m with proxyFaults := [] }
    pure []
  | some via => do
    let url := (L.declaration.toolServers.find? (·.name = via)).bind (·.url)
    let up ← match url with
      | some url => do
        let a ← ask L (.probe url)
        outcome L a
      | none => pure false
    let faults := if up then [] else [proxyDown L.agent via (url.getD "its url")]
    setMem L fun m => { m with proxyFaults := faults }
    pure faults

/-! ## The thread -/

/-- mirrors loop.ts:880-926 -/
def threadFor (unitId : String) : Program L String := do
  let gate ← ask L .sandbox
  orThrow L gate
  let w ← fetch L
  match w.mem.threads.find? (·.1 = unitId) with
  | some (_, threadId) => pure threadId
  | none => do
    let existing ← readThread L unitId
    let resume := existing.bind fun t => if t.completedTurns > 0 then t.threadId else none
    let a ← ask L (.thread unitId resume)
    let opened ← outcome L a
    if resume.isNone then
      let existing ← readThread L unitId
      writeThread L { existing.getD { unitId } with
        threadId := some opened, completedTurns := 0, turns := [] }
    let threadId := resume.getD opened
    setMem L fun m => { m with threads := m.threads ++ [(unitId, threadId)] }
    readToolServerStatus L
    pure threadId

/-! ## The records action service -/

/-- `/^[a-z][a-z0-9_-]{0,63}$/` -/
def isSourceName (source : String) : Bool :=
  match source.toList with
  | [] => false
  | c :: cs => ('a' ≤ c && c ≤ 'z') && cs.length ≤ 63 &&
      cs.all fun c => ('a' ≤ c && c ≤ 'z') || c.isDigit || c == '_' || c == '-'

/-- mirrors loop.ts:1131-1155 -/
def syncCollected (captured : List MessageRecord) : Program L Unit := do
  if L.declaration.records then
    let w ← fetch L
    let candidates ← if w.mem.collectedSynced then pure captured else rebuild L
    Prog.each (𝔖 := sig L) (fun r => do
      if r.direction ≠ .inbound || r.historical || !isSourceName r.source then pure ()
      else match unitIdFor L.js L.declaration r with
        | .error _ => pure ()
        | .ok unit => do
          let a ← ask L (.collect r.messageId r.source unit)
          outcome L a) candidates
    setMem L fun m => { m with collectedSynced := true }
  else pure ()

/-- Whether the records action service was not there to answer. -/
def unavailable : Err → Option (List Fault)
  | .tool faults => if faults.any (·.code = "RECORDS_ACTION_UNAVAILABLE") then some faults else none
  | _ => none

/-- mirrors loop.ts:1162-1177 -/
def syncCollectedOrHold (records : List MessageRecord) : Program L Bool :=
  Prog.handle (𝔖 := sig L) (do
    syncCollected L records
    setMem L fun m => { m with recordsFaults := [] }
    pure true)
    fun e => match unavailable e with
      | none => raise L e
      | some faults => do
        setMem L fun m => { m with recordsFaults := faults }
        pure false

/-! ## One release -/

/-- mirrors loop.ts:261-264 -/
def releaseIdFor (record : MessageRecord) : String :=
  "release-" ++ record.messageId ++ "-" ++ toString record.revision

/-- The write of each record's release, before the turn, loop.ts:1501-1523. -/
def writeReleases (records : List MessageRecord) (threadId releaseId : String) :
    Program L Unit := do
  let releasedAt ← isoNow L
  Prog.each (𝔖 := sig L) (fun one => do
    let t ← now L
    discard L (release L one ⟨releasedAt, threadId, releaseId, none⟩ t
      (holdApplies L.channel one.conversationId))
    mark L (.begun one releaseId false)) records

/-- A re-issued release was written before the restart. -/
def beginReissue (records : List MessageRecord) (releaseId : String) : Program L Unit :=
  Prog.each (𝔖 := sig L) (fun one => mark L (.begun one releaseId true)) records

def turnFailed (J : Js) (messageId : String) (error : Option String) : Fault :=
  ⟨"TURN_FAILED", messageId,
    "the model reported the turn failed: " ++ (error.map J.stringify).getD "null",
    "read the turn on the thread this record names, fix the cause, and run carbon install to clear " ++
      "the latch."⟩

/-- mirrors runtime/latch.ts:83-100 -/
def latch {α : Type} (cause : Fault) : Program L α := do
  let w ← fetch L
  if (w.disk.latches.find (L.channel.kind, L.channel.account)).isNone then
    write L (.latch ⟨L.channel.kind, L.channel.account, cause⟩)
  raise L (.runtime [{ cause with
    fix := cause.fix ++
      " The agent is latched and refuses to start until carbon install clears it." }] Exit.latched)

/-- What a failed turn leaves, loop.ts:1564-1576. -/
def closeFailed (records : List MessageRecord) (completedAt : String) : Program L Unit :=
  Prog.each (𝔖 := sig L) (fun one => do
    let onDisk ← read L one.id
    match onDisk with
    | none => raise L (.thrown "Cannot read properties of null (reading 'conversation_id')")
    | some _ => do
      let _ ← setDisposition L one.id .permanentError
      let _ ← completeRelease L one.id completedAt) records

/-- The completion of each record of an answered release, loop.ts:1622-1640. -/
def closeCompleted (records : List MessageRecord) (accepted : Option MessageRecord)
    (completedAt : String) (parkedNoReply : Bool) : Program L Unit :=
  Prog.each (𝔖 := sig L) (fun one => do
    if one.uncertain then pure ()
    else if accepted.isSome && one.adapterFields.inputKind.isSome && excludedBy accepted one then
      retainExcludedBrowserInput L one
    else do
      let _ ← completeRelease L one.id completedAt
      if L.browser then
        let onDisk ← read L one.id
        match onDisk with
        | none => raise L (.thrown "Cannot read properties of null (reading 'conversation_id')")
        | some _ =>
          discard L (annotate L one.id
            (phased (if parkedNoReply then .failed else .completed)))) records

/-- The turn of a release, with the records service told of it, loop.ts:1531-1555. -/
def admittedTurn (records : List MessageRecord) (unitId threadId releaseId : String) :
    Program L (TurnResult × String) := do
  if L.declaration.records then
    let a ← ask L (.beginTurn releaseId unitId (records.map (·.messageId)))
    outcome L a
  let a ← ask L (.join (records.map (·.messageId)))
  outcome L a
  Prog.andFinally (𝔖 := sig L) (takeTurn L unitId threadId releaseId releaseId)
    (if L.declaration.records then do
      let a ← ask L (.endTurn releaseId)
      outcome L a
    else pure ())

/-- What follows the turn, for the records of the group as they are now. -/
def closeGroup (record : MessageRecord) (records : List MessageRecord)
    (unitId threadId releaseId : String) (result : TurnResult) (completedAt : String) :
    Program L Unit :=
  match result.status with
  | .failed => do
    closeFailed L records completedAt
    latch L (turnFailed L.js record.messageId result.error)
  | .interrupted =>
    if L.browser then noteBrowserEffect L releaseId true else pure ()
  | .completed => do
    let reply ← ensureReply L record records unitId threadId releaseId result
    let _ ← ensureTeachCheck L record unitId threadId releaseId
    let accepted ← if L.browser then writtenBrowserReply L releaseId else pure none
    closeCompleted L records accepted completedAt (reply = .parkedNoReply)

/-- What follows the turn, loop.ts:1556-1654; a browser input may have been
released into it meanwhile. -/
def closeTurn (record : MessageRecord) (unitId threadId releaseId : String) (result : TurnResult)
    (completedAt : String) : Program L Unit := do
  if L.browser then
    let records ← recordsIn L record.conversationId
    setMem L fun m => { m with group := records.filter (releasedUnder releaseId) }
  let w ← fetch L
  closeGroup L record w.mem.group unitId threadId releaseId result completedAt

/-- mirrors loop.ts:1483-1665 -/
def releaseTurn (record : MessageRecord) (records : List MessageRecord) (unitId threadId : String)
    (reissue : Bool) (releaseId : String) : Program L Unit := do
  let rendered ← ask L .render
  orThrow L rendered
  if reissue then beginReissue L records releaseId
  else writeReleases L records threadId releaseId
  let (result, completedAt) ← admittedTurn L records unitId threadId releaseId
  closeTurn L record unitId threadId releaseId result completedAt

/-- Something holds: nothing is done here. -/
def holds : Program L Bool := do
  mark L .holds
  pure false

/-- mirrors loop.ts:1437-1481: whether the release was taken, `false` where
something holds. -/
def releaseOne (record : MessageRecord) (records : List MessageRecord) (reissue : Bool)
    (releaseId unitId : Option String) : Program L Bool := do
  let unitId ← match unitId with
    | some unitId => pure unitId
    | none => orThrow L (unitIdFor L.js L.declaration record)
  let threadId ← threadFor L unitId
  let w ← fetch L
  if w.mem.holdFaults ≠ [] then holds L
  else do
    let proxyFaults ← checkProviderProxy L
    if proxyFaults ≠ [] then holds L
    else do
      let synced ← syncCollectedOrHold L records
      if !synced then holds L
      else do
        releaseTurn L record records unitId threadId reissue
          (releaseId.getD (releaseIdFor record))
        pure true

/-! ## Grouping -/

/-- `byKey` of releasePass. -/
inductive Key
  | reissue (releaseId : String)
  | browser (messageId : String) (revision : Nat)
  | mention (messageId : String) (revision : Nat)
  | quiet (conversationId unitId : String)
deriving DecidableEq

structure Group where
  key : Key
  records : List MessageRecord
  reissue : Bool
  releaseId : Option String := none
  unitId : Option String := none
deriving DecidableEq

/-- `add`, loop.ts:1314-1322: into the group of this key, or a group behind the others. -/
def addTo (g : Group) : List Group → List Group
  | [] => [g]
  | h :: groups =>
    if h.key = g.key then { h with records := h.records ++ g.records } :: groups
    else h :: addTo g groups

/-- The ordinal of a record's last index line, loop.ts:1305-1307. -/
def seqOf (index : List IndexEntry) (i : Identity) : Option Nat :=
  ((index.reverse.find? (·.id = i)).map (·.seq))

/-- The order records are released in, loop.ts:1308-1312. -/
def releaseOrder (J : Js) (index : List IndexEntry) (a b : MessageRecord) : Bool :=
  match J.localeCompare a.receivedAt b.receivedAt with
  | .lt => true
  | .gt => false
  | .eq =>
    match seqOf index a.id, seqOf index b.id with
    | some m, some n => decide (m < n)
    | some _, none => true
    | _, _ => false

/-- A release whose model effect nobody knows holds its conversation. -/
def effectUncertain (r : MessageRecord) : Bool :=
  r.adapterFields.modelEffect == some .uncertain && r.release.all (·.completedAt.isNone)

/-- Whether the records of a browser conversation hold it, loop.ts:1325, 1364. -/
def browserHeld (conversationId : String) : Program L Bool :=
  if L.browser then do
    let records ← recordsIn L conversationId
    pure (records.any effectUncertain)
  else pure false

def mine (r : MessageRecord) : Bool := r.source == "browser" && r.account == L.channel.account

def groupKey (r : MessageRecord) (unitId : String) : Key :=
  if L.browser then .browser r.messageId r.revision
  else match L.channel.release with
    | .mention _ => .mention r.messageId r.revision
    | _ => .quiet r.conversationId unitId

/-- What becomes of one record of the listing, loop.ts:1324-1360. -/
def place (reissued : List String) (now : Int) (groups : List Group) (r : MessageRecord) :
    Program L (List Group) := do
  let held ← browserHeld L r.conversationId
  if held then pure groups
  else match r.openRelease.filter (· ∈ reissued) with
    | some releaseId => pure (addTo ⟨.reissue releaseId, [r], true, some releaseId, none⟩ groups)
    | none => do
      let decision ← releaseDecision L r now
      if !decision.release then pure groups
      else match unitIdFor L.js L.declaration r with
        | .ok unitId => pure (addTo ⟨groupKey L r unitId, [r], false, none, some unitId⟩ groups)
        | .error e =>
          match e with
          | .runtime faults _ =>
            if endsTheProcess e then raise L e
            else do
              parkRead L r.id faults none
              pure groups
          | _ => raise L e

/-- The inbound records the pass looks at, in release order. -/
def candidates (index : List IndexEntry) (records : List MessageRecord) : List MessageRecord :=
  sortBy (releaseOrder L.js index)
    (records.filter fun r => r.direction == .inbound && (!L.browser || mine L r))

/-- The groups of a pass, loop.ts:1297-1361. -/
def formGroups (reissue : List String) : Program L (List Group) := do
  let t ← now L
  let w ← fetch L
  let records ← rebuild L
  Prog.fold (𝔖 := sig L) (place L reissue t) [] (candidates L w.disk.index records)

/-! ## The pass -/

/-- A group's records as they are handed over; a browser input that was steered
or whose delivery is uncertain is left out, loop.ts:1369-1373. -/
def refresh (records : List MessageRecord) : Program L (List MessageRecord) :=
  Prog.fold (𝔖 := sig L) (fun kept r => do
    let onDisk ← read L r.id
    match onDisk with
    | none => raise L (.thrown "Cannot read properties of null (reading 'release')")
    | some r => pure (if r.release.isNone && !r.uncertain then kept ++ [r] else kept)) [] records

/-- A fault that does not end the process parks the group, loop.ts:1377-1393. -/
def parkGroup (faults : List Fault) : Program L Unit := do
  let w ← fetch L
  Prog.each (𝔖 := sig L) (fun one => do
    parkRead L one.id faults none
    let closed ← read L one.id
    if closed.any (·.release.isSome) && faults.any (fun f => isProgramCode f.code) then
      let at_ ← isoNow L
      discard L (completeRelease L one.id at_)) w.mem.group

/-- Hand a group over; whether the tool servers are to be read again. -/
def releaseGroup (record : MessageRecord) (records : List MessageRecord) (g : Group) :
    Program L Bool := do
  write L (.hand records (g.releaseId.getD (releaseIdFor record)) g.reissue)
  Prog.handle (𝔖 := sig L) (releaseOne L record records g.reissue g.releaseId g.unitId)
    fun e => match parkableProgramFault e with
      | .runtime faults exitCode =>
        if endsTheProcess (.runtime faults exitCode) then raise L (.runtime faults exitCode)
        else do
          mark L .faulted
          parkGroup L faults
          pure false
      | e => raise L e

/-- One round of the loop over the groups; `false` breaks it, loop.ts:1362-1409. -/
def round (g : Group) : Program L Bool := do
  let stop ← ask L .stopping
  if stop then do
    mark L .stops
    pure false
  else do
    let held ← browserHeld L ((g.records.head?.map (·.conversationId)).getD "")
    if held then pure true
    else do
      let records ← if L.browser && !g.reissue then refresh L g.records else pure g.records
      match records with
      | [] => pure true
      | record :: more => do
        let taken ← releaseGroup L record (record :: more) g
        let w ← fetch L
        if taken && w.mem.toolStatusStale then do
          readToolServerStatus L
          let w ← fetch L
          if w.mem.holdFaults = [] then pure true else holds L
        else pure true

/-- mirrors loop.ts:1287-1413 -/
def releasePass (reissue : List String) : Program L Unit := do
  let w ← fetch L
  if w.mem.toolStatusStale && w.mem.threads ≠ [] then readToolServerStatus L
  let _ ← checkProviderProxy L
  let w ← fetch L
  if w.mem.holdFaults ≠ [] || w.mem.proxyFaults ≠ [] then discard L (holds L)
  else do
    let groups ← formGroups L reissue
    mark L (.grouped (groups.map (·.records)))
    Prog.eachWhile (𝔖 := sig L) (round L) groups

end CarbonRuntime.Release
