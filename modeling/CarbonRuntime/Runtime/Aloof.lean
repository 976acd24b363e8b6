import CarbonRuntime.Runtime.Pass
import CarbonRuntime.Runtime.Records

/-!
# What asks the records service nothing

Only `syncCollected` and the admission of a turn ask the records action service. All else a
release does asks it nothing and leaves the group that is released as it is: the thread,
the turn with every call that reaches the process meanwhile, what follows the turn.
-/

open CarbonRuntime.Core CarbonRuntime.Stream

namespace CarbonRuntime.Records

open Store Policy Teachings Tools Calls Turn Release

variable {L : Loop} {α : Type}

/-- What is known of the group that is released. -/
def Grouped (G : List MessageRecord → Prop) (s : World) : Prop := G s.mem.group

/-- The questions are some of those a release puts to the service. -/
class Heard (B : Ask → Bool) : Prop where
  served : ∀ q, served q = false → B q = false

instance : Heard served := ⟨fun _ h => h⟩

/-- The program asks none of `B`, and what is known of the group stays so. -/
abbrev Unheard (B : Ask → Bool) (G : List MessageRecord → Prop) (p : Program L α) : Prop :=
  Beside.Apart (sig L) (Grouped G) B p

variable {B : Ask → Bool} [Heard B] {G : List MessageRecord → Prop}

/-! ## The effects -/

omit [Heard B] in
theorem unheard_write {a : Act} (h : ∀ s, (a.apply s).mem.group = s.mem.group) :
    Unheard B G (write L a) :=
  ⟨fun s hs => ⟨(congrArg G (h s)).mpr hs, trivial⟩⟩

omit [Heard B] in
theorem unheard_other {q : Ask} (h : B q = false) (hq : ∀ a w, (q.after a w).mem = w.mem) :
    Unheard B G (ask L q) :=
  ⟨fun s hs => ⟨h, fun a _ => ⟨(congrArg (fun m => G (Mem.group m)) (hq a s)).mpr hs, trivial⟩⟩⟩

theorem unheard_ask {q : Ask} (h : served q = false) (hq : ∀ a w, (q.after a w).mem = w.mem) :
    Unheard B G (ask L q) := unheard_other (Heard.served q h) hq

omit [Heard B] in
theorem unheard_write_mem {m : Mem} (h : G m.group) : Unheard B G (write L (.mem m)) :=
  ⟨fun _ _ => ⟨h, trivial⟩⟩

omit [Heard B] in
/-- What is written to memory may depend on what was read. -/
theorem unheard_fetch {f : World → Program L α} (h : ∀ w, G w.mem.group → Unheard B G (f w)) :
    Unheard B G (fetch L >>= f) :=
  ⟨fun s hs => (h s hs).aloof s hs⟩

instance : Unheard B G (fetch L) := ⟨fun _ _ => trivial⟩

instance (e : Err) : Unheard B G (raise L e : Program L α) :=
  inferInstanceAs (Unheard B G (.throw e : Program L α))

instance (n : Nat) : Unheard B G (write L (.seq n)) := unheard_write fun _ => rfl
instance (i : Identity) (payload : String) : Unheard B G (write L (.raw i payload)) :=
  unheard_write fun _ => rfl
instance (e : IndexEntry) : Unheard B G (write L (.index e)) := unheard_write fun _ => rfl
instance (r : MessageRecord) : Unheard B G (write L (.record r)) :=
  unheard_write fun s => congrArg Mem.group (World.putRecord_mem s r)
instance (q : ReplyRequest) : Unheard B G (write L (.request q)) := unheard_write fun _ => rfl
instance (t : Teaching) : Unheard B G (write L (.teaching t)) := unheard_write fun _ => rfl
instance (c : Cursors) : Unheard B G (write L (.cursor c)) := unheard_write fun _ => rfl
instance (t : ThreadRecord) : Unheard B G (write L (.thread t)) := unheard_write fun _ => rfl
instance (l : Latch) : Unheard B G (write L (.latch l)) := unheard_write fun _ => rfl
instance (e : Event) : Unheard B G (mark L e) := unheard_write fun _ => rfl

instance : Unheard B G (ask L .now) := unheard_ask rfl fun _ _ => rfl
instance : Unheard B G (ask L .listing) := unheard_ask rfl fun _ _ => rfl
instance : Unheard B G (ask L .sandbox) := unheard_ask rfl fun _ _ => rfl
instance : Unheard B G (ask L .render) := unheard_ask rfl fun _ _ => rfl
instance : Unheard B G (ask L .afterTurn) := unheard_ask rfl fun _ _ => rfl
instance : Unheard B G (ask L .toolStatus) := unheard_ask rfl fun _ _ => rfl
instance : Unheard B G (ask L .settle) := unheard_ask rfl fun _ _ => rfl
instance (u : String) (t : Option String) : Unheard B G (ask L (.thread u t)) :=
  unheard_ask rfl fun _ _ => rfl
instance (url : String) : Unheard B G (ask L (.probe url)) := unheard_ask rfl fun _ _ => rfl
instance (ids : List String) : Unheard B G (ask L (.join ids)) := unheard_ask rfl fun _ _ => rfl
instance (R : String) : Unheard B G (ask L (.prepare R)) := unheard_ask rfl fun _ _ => rfl
instance (R c : String) : Unheard B G (ask L (.turn R c)) := unheard_ask rfl fun _ _ => rfl

instance (faults : List Fault) : Unheard B G (refuse L faults) := by
  unfold refuse
  infer_instance

omit [Heard B] in
theorem unheard_setMem {f : Mem → Mem} (h : ∀ m, (f m).group = m.group) :
    Unheard B G (setMem L f) :=
  unheard_fetch fun w hw => unheard_write_mem ((h w.mem).symm ▸ hw)

/-! ## The store -/

instance : Unheard B G (now L) := inferInstanceAs (Unheard B G (ask L .now))
instance : Unheard B G (isoNow L) := by unfold isoNow; infer_instance
instance : Unheard B G (nextSeq L) := by unfold nextSeq; infer_instance
instance (i : Identity) : Unheard B G (read L i) := by unfold Store.read; infer_instance
instance : Unheard B G (rebuild L) := inferInstanceAs (Unheard B G (ask L .listing))
instance (c : String) : Unheard B G (recordsIn L c) := by unfold recordsIn; infer_instance
instance (r : MessageRecord) : Unheard B G (stamp L r) := by unfold stamp; infer_instance


instance (i : Identity) (f : MessageRecord → MessageRecord) : Unheard B G (rewrite L i f) := by
  refine .next inferInstance fun _ => .next inferInstance fun w => ?_
  split <;> infer_instance

instance (i : Identity) (faults : List Fault) (reason : Option String) :
    Unheard B G (parkFailed L i faults reason) := by unfold parkFailed; infer_instance
instance (i : Identity) (f : AdapterFields → AdapterFields) : Unheard B G (annotate L i f) := by
  unfold annotate; infer_instance
instance (i : Identity) (d : Disposition) : Unheard B G (setDisposition L i d) := by
  unfold setDisposition; infer_instance
instance (i : Identity) (t : String) : Unheard B G (completeRelease L i t) := by
  unfold completeRelease; infer_instance

instance (c : String) (k : CursorKind) (p : String) : Unheard B G (advanceCursor L c k p) := by
  refine .next inferInstance fun _ => .next inferInstance fun w => ?_
  dsimp only
  split <;> infer_instance

instance (r : MessageRecord) : Unheard B G (acceptBrowserInput L r) := by
  unfold acceptBrowserInput
  split
  · exact unheard_fetch fun w hw => unheard_write_mem hw
  · infer_instance

instance (r : MessageRecord) (n : Nat) : Unheard B G (captureWrite L r n) := by
  refine .next inferInstance fun w => ?_
  split
  · dsimp only
    infer_instance
  · infer_instance

instance (i : Identity) (raw : Option String) : Unheard B G (appendRaw L i raw) := by
  cases raw <;> (unfold appendRaw; infer_instance)

instance (r : MessageRecord) (c : Option (CursorKind × String)) (fs : List Fault)
    (d : Option Disposition) (raw : Option String) : Unheard B G (capture L r c fs d raw) := by
  refine .next inferInstance fun _ => .next inferInstance fun _ => .next inferInstance fun _ => ?_
  have h₁ : Unheard B G (do
      appendRaw L r.id raw
      let (written, merged) ← captureWrite L r ‹_›
      let written ← match d with
        | some d => if d ≠ written.disposition then setDisposition L written.id d else pure written
        | none => pure written
      if !merged then acceptBrowserInput L written
      pure written) := by
    refine .next inferInstance fun _ => .next inferInstance fun ⟨written, merged⟩ => ?_
    cases d <;> (dsimp only; infer_instance)
  have h₂ : Unheard B G (match c with
      | some (kind, position) => advanceCursor L r.conversationId kind position
      | none => pure ()) := by
    split <;> infer_instance
  infer_instance

instance (r : MessageRecord) (rel : Stream.Release) (t : Int) (h : Bool) :
    Unheard B G (release L r rel t h) := by
  unfold release
  infer_instance

instance (R : String) : Unheard B G (readRequest L R) := by unfold readRequest; infer_instance

instance (r : MessageRecord) (d : Delivery) (st : Status) : Unheard B G (replyWrite L r d st) := by
  unfold replyWrite
  infer_instance

instance (r : MessageRecord) (st : Status) : Unheard B G (reply L r st) := by
  refine .next inferInstance fun records => .next inferInstance fun _ => ?_
  split
  · infer_instance
  · refine .next inferInstance fun existing => ?_
    split
    · split <;> infer_instance
    · infer_instance

instance (R : String) (st : Status) (ch : Option (List String)) (t : Option String) :
    Unheard B G (settleDelivery L R st ch t) := by
  refine .next inferInstance fun request => ?_
  split
  · infer_instance
  · refine .next inferInstance fun record => ?_
    split <;> infer_instance

instance (R : String) : Unheard B G (releaseHeldReply L R) := by
  unfold releaseHeldReply
  infer_instance

instance (t : ThreadRecord) : Unheard B G (writeThread L t) := by unfold writeThread; infer_instance
instance (u : String) : Unheard B G (readThread L u) := by unfold readThread; infer_instance

/-! ## The tools -/

instance (d : Except Err Outcome) : Unheard B G (enact L d) := by
  unfold enact
  split <;> infer_instance

instance (c m : String) : Unheard B G (citedCapture L c m) := by
  unfold citedCapture
  dsimp only
  split
  · infer_instance
  · refine .next inferInstance fun held => ?_
    split <;> infer_instance

instance (block : TeachingBlock) (a : Taught) : Unheard B G (remember L block a) := by
  unfold remember
  infer_instance

instance (block : TeachingBlock) (a : Taught) (q : String) :
    Unheard B G (raiseChange L block a q) := by
  unfold raiseChange
  infer_instance

instance (i c m : String) (t : Int) : Unheard B G (forget L i c m t) := by
  unfold forget
  infer_instance

instance (args : ReplyArgs) (at_ : String) : Unheard B G (outboundRecord L args at_) := by
  have hrest : ∀ record : MessageRecord, Unheard B G (match args.attachments with
      | .error faults => raise L (.stream faults)
      | .ok attachments => pure { record with attachments }) := fun record => by
    split <;> infer_instance
  refine .next inferInstance fun records => ?_
  dsimp only
  split
  · infer_instance
  · exact .next inferInstance fun held => inferInstance

instance (r : MessageRecord) (args : ReplyArgs) :
    Unheard B G (validateBrowserReplyRecord L r args) := by
  unfold validateBrowserReplyRecord
  infer_instance

instance (args : ReplyArgs) (claim : Option Claim) : Unheard B G (replyWriter L args claim) := by
  refine .next inferInstance fun at_ => .next inferInstance fun records => ?_
  dsimp only
  infer_instance

instance (args : ReplyArgs) (claim : Except Err (Option Claim)) :
    Unheard B G (recordsReplyHandler L args claim) := by
  refine .next inferInstance fun records => ?_
  split
  · infer_instance
  · split
    · infer_instance
    · refine .next inferInstance fun existing => ?_
      split
      · infer_instance
      · split
        · infer_instance
        · split
          · infer_instance
          · split <;> infer_instance

instance (args : ReplyArgs) (claim : Except Err (Option Claim)) :
    Unheard B G (replyTool L args claim) := by
  unfold replyTool
  infer_instance

instance (c : String) (p : Program L α) [Unheard B G p] : Unheard B G (inManagement L c p) := by
  unfold inManagement
  split <;> infer_instance

instance (block : TeachingBlock) (args : TeachArgs) :
    Unheard B G (rememberHandler L block args) := by
  unfold rememberHandler
  infer_instance

instance (block : TeachingBlock) (args : TeachArgs) :
    Unheard B G (raiseChangeHandler L block args) := by
  unfold raiseChangeHandler
  infer_instance

instance (args : ForgetArgs) : Unheard B G (forgetHandler L args) := by
  unfold forgetHandler
  infer_instance

/-! ## The calls -/

instance (R : String) (b : Bool) : Unheard B G (noteBrowserEffect L R b) := by
  unfold noteBrowserEffect
  infer_instance

instance (R : String) : Unheard B G (writtenBrowserReply L R) := by
  refine .next inferInstance fun fence => ?_
  split <;> infer_instance

instance (r : MessageRecord) : Unheard B G (retainExcludedBrowserInput L r) := by
  unfold retainExcludedBrowserInput
  infer_instance

instance (how : Steering) : Unheard B G (steer L how) := by
  refine unheard_fetch fun w hw => ?_
  split
  · split
    · infer_instance
    · split
      · infer_instance
      · refine .next (unheard_write_mem hw) fun _ => .next inferInstance fun record => ?_
        split
        · infer_instance
        · split
          · infer_instance
          · split
            · infer_instance
            · infer_instance
            · refine .next inferInstance fun _ => .next inferInstance fun reply => ?_
              split
              · infer_instance
              · exact unheard_fetch fun w hw => unheard_write_mem hw
  · infer_instance

instance (a : BrowserActive) (i : Identity) : Unheard B G (releaseSteered L a i) := by
  refine .next inferInstance fun _ => .next inferInstance fun _ => .next inferInstance fun r => ?_
  split <;> infer_instance

instance (a : BrowserActive) (r : MessageRecord) : Unheard B G (steerAcknowledged L a r) := by
  unfold steerAcknowledged
  infer_instance

instance (a : BrowserActive) (r : MessageRecord) (b : Bool) : Unheard B G (steerFailed L a r b) := by
  unfold steerFailed
  infer_instance

instance (a b : Bool) : Unheard B G (steered L a b) := by
  refine unheard_fetch fun w hw => ?_
  split
  · exact .next (unheard_write_mem hw) fun _ => inferInstance
  · infer_instance

instance (t : String) : Unheard B G (started L t) := by
  refine .next inferInstance fun w => ?_
  split
  · infer_instance
  · exact .next inferInstance fun _ => unheard_fetch fun w hw =>
      .next (unheard_write_mem hw) fun _ => inferInstance

instance (c : Call) : Unheard B G (runCall L c) := by
  cases c with
  | remember | raiseChange | forget =>
    unfold runCall
    dsimp only
    split <;> infer_instance
  | toolStatusChanged => exact unheard_fetch fun w hw => unheard_write_mem hw
  | _ =>
    unfold runCall
    infer_instance

instance (calls : List Call) : Unheard B G (runCalls L calls) := by
  unfold runCalls
  infer_instance

instance (a : Awaited α) : Unheard B G (outcome L a) := by
  refine .next inferInstance fun _ => ?_
  split <;> infer_instance

instance (x : Except Err α) : Unheard B G (orThrow L x) := by
  unfold orThrow
  split <;> infer_instance

/-! ## The turn -/

instance (p : Program L α) [Unheard B G p] : Unheard B G (Turn.discard L p) := by
  unfold Turn.discard
  infer_instance

instance (u t R : String) : Unheard B G (openBrowserTurn L u t R) := by
  refine .next (unheard_setMem fun _ => rfl) fun _ => .next inferInstance fun records => ?_
  have hgone : Unheard B G (setMem L fun m => { m with browserActive := none }) :=
    unheard_setMem fun _ => rfl
  dsimp only
  infer_instance

instance : Unheard B G (endBrowserTurn L) :=
  .next (unheard_setMem fun _ => rfl) fun _ => inferInstance

instance (R c : String) : Unheard B G (turnOf L R c) := by
  unfold turnOf
  infer_instance

instance (R c : String) : Unheard B G (guardedTurn L R c) := by
  unfold guardedTurn
  infer_instance

instance : Unheard B G (afterTurn L) := by
  have hteach : Unheard B G (setMem L fun m => { m with teachRelease := none }) :=
    unheard_setMem fun _ => rfl
  have hactive : Unheard B G
      (setMem L fun m => { m with activeBrowserReply := none, browserActive := none }) :=
    unheard_setMem fun _ => rfl
  unfold afterTurn
  infer_instance

instance (u R c : String) : Unheard B G (turnUnder L u R c) := by
  have hteach : Unheard B G (setMem L fun m => { m with teachRelease := some R }) :=
    unheard_setMem fun _ => rfl
  have hactive : Unheard B G (setMem L fun m => { m with activeBrowserReply := some (u, R) }) :=
    unheard_setMem fun _ => rfl
  unfold turnUnder
  infer_instance

instance (u R t : String) (x : TurnResult) : Unheard B G (recordTurn L u R t x) := by
  refine .next inferInstance fun thread => ?_
  dsimp only
  refine .next inferInstance fun _ => .next inferInstance fun after => ?_
  split <;> infer_instance

instance (x : TurnResult) : Unheard B G (completedAtOf L x) := by
  unfold completedAtOf
  split <;> infer_instance

instance (u t R c : String) : Unheard B G (takeTurn L u t R c) := by
  unfold takeTurn
  infer_instance

instance (c R : String) : Unheard B G (hasOutbound L c R) := by unfold hasOutbound; infer_instance

instance (i : Identity) (faults : List Fault) (reason : Option String) :
    Unheard B G (parkRead L i faults reason) := by
  refine .next inferInstance fun onDisk => ?_
  split <;> infer_instance

instance (records : List MessageRecord) (t : String) : Unheard B G (markReplyOutcome L records t) := by
  unfold markReplyOutcome
  infer_instance

instance (records : List MessageRecord) (faults : List Fault) :
    Unheard B G (parkGate L records faults) := by
  refine Beside.Apart.each (fun one => .next inferInstance fun onDisk => ?_) records
  split <;> infer_instance

instance (r : MessageRecord) (records : List MessageRecord) (R : String) (x : TurnResult) :
    Unheard B G (applyProgramReply L r records R x) := by
  refine .next inferInstance fun there => ?_
  split
  · infer_instance
  · split
    · infer_instance
    · infer_instance
    · refine Beside.Apart.handled inferInstance fun e => ?_
      split <;> infer_instance
    · infer_instance
    · infer_instance

instance (r : MessageRecord) (records : List MessageRecord) (u t R : String) (x : TurnResult) :
    Unheard B G (ensureReply L r records u t R x) := by
  unfold ensureReply
  infer_instance

instance (c R : String) : Unheard B G (heldReply L c R) := by unfold heldReply; infer_instance

instance (R : String) : Unheard B G (recordedThisRelease L R) := by
  unfold recordedThisRelease
  infer_instance

instance (i : Identity) (R : String) (f : Fault) : Unheard B G (parkUnrecorded L i R f) := by
  unfold parkUnrecorded
  infer_instance

instance (r : MessageRecord) (R : String) : Unheard B G (programTeachCheck L r R) := by
  refine .next inferInstance fun held => ?_
  split
  · infer_instance
  · refine .next inferInstance fun recorded => ?_
    split
    · infer_instance
    · refine .next inferInstance fun onDisk => ?_
      split <;> infer_instance

instance (r : MessageRecord) (u t R : String) : Unheard B G (ensureTeachCheck L r u t R) := by
  refine .next inferInstance fun held => ?_
  split <;> infer_instance

/-! ## The release -/

instance : Unheard B G (holds L) := by unfold holds; infer_instance

instance : Unheard B G (readToolServerStatus L) := by
  have hread : Unheard B G (setMem L fun m => { m with toolStatusRead := true }) :=
    unheard_setMem fun _ => rfl
  have hholds : ∀ faults : List Fault, Unheard B G
      (setMem L fun m => { m with holdFaults := faults, toolStatusStale := false }) :=
    fun _ => unheard_setMem fun _ => rfl
  unfold readToolServerStatus
  infer_instance

instance : Unheard B G (checkProviderProxy L) := by
  have hproxy : ∀ faults : List Fault, Unheard B G
      (setMem L fun m => { m with proxyFaults := faults }) :=
    fun _ => unheard_setMem fun _ => rfl
  unfold checkProviderProxy
  split
  · infer_instance
  · dsimp only
    split <;> infer_instance

instance (u : String) : Unheard B G (threadFor L u) := by
  refine .next inferInstance fun gate => .next inferInstance fun _ => .next inferInstance fun w => ?_
  split
  · infer_instance
  · have hthreads : ∀ t : String, Unheard B G
        (setMem L fun m => { m with threads := m.threads ++ [(u, t)] }) :=
      fun _ => unheard_setMem fun _ => rfl
    refine .next inferInstance fun existing => ?_
    dsimp only
    infer_instance

instance (records : List MessageRecord) (t R : String) :
    Unheard B G (writeReleases L records t R) := by
  unfold writeReleases
  infer_instance

instance (records : List MessageRecord) (R : String) : Unheard B G (beginReissue L records R) := by
  unfold beginReissue
  infer_instance

instance (f : Fault) : Unheard B G (latch L f : Program L α) := by
  unfold latch
  infer_instance

instance (records : List MessageRecord) (t : String) : Unheard B G (closeFailed L records t) := by
  refine Beside.Apart.each (fun one => .next inferInstance fun onDisk => ?_) records
  split <;> infer_instance

instance (records : List MessageRecord) (a : Option MessageRecord) (t : String) (b : Bool) :
    Unheard B G (closeCompleted L records a t b) := by
  refine Beside.Apart.each (fun one => ?_) records
  have hmark : ∀ onDisk : Option MessageRecord, Unheard B G (match onDisk with
      | none => raise L (.thrown "Cannot read properties of null (reading 'conversation_id')")
      | some _ =>
        Turn.discard L (annotate L one.id (phased (if b then .failed else .completed)))) :=
    fun onDisk => by split <;> infer_instance
  infer_instance

instance (r : MessageRecord) (records : List MessageRecord) (u t R at_ : String)
    (x : TurnResult) : Unheard B G (closeGroup L r records u t R x at_) := by
  unfold closeGroup
  split <;> infer_instance

/-- A closing takes a browser's group as it is then. -/
instance (r : MessageRecord) (u t R at_ : String) (x : TurnResult) :
    Unheard B (fun _ => True) (closeTurn L r u t R x at_) := by
  have hclose : Unheard B (fun _ => True) (do
      let w ← fetch L
      closeGroup L r w.mem.group u t R x at_) :=
    unheard_fetch fun _ _ => inferInstance
  unfold closeTurn
  dsimp only
  split
  · exact .next inferInstance fun _ => .next (unheard_fetch fun _ _ => unheard_write_mem trivial)
      fun _ => hclose
  · exact hclose

end CarbonRuntime.Records
