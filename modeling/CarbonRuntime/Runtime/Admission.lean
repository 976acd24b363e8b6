import CarbonRuntime.Runtime.Aloof
import CarbonRuntime.Runtime.Process

/-!
# A release beside the records service

`releaseOne` (runtime/loop.ts:1437-1520) taken apart at what it asks the service: the
collection of its messages, the admission of its turn, the end of it. What the service
refuses at either ends the release.

The last section plays releases of one message beside a service that answers at once,
with an outage before a given question.
-/

open CarbonRuntime.Core CarbonRuntime.Stream

namespace CarbonRuntime.Records

open Store Calls Turn Release Beside

variable {L : Loop} {me : Owner} {s s' : World} {b b' : Box}

/-! ## What a release asks -/

/-- The service's answer. -/
def resultOf : (q : Ask) → q.Answer → Except Err Unit
  | .collect _ _ _, a => a.result
  | .beginTurn _ _ _, a => a.result
  | .endTurn _, a => a.result
  | _, _ => .ok ()

/-- The service was not there to answer. -/
def away : Except Err Unit → Bool
  | .error e => (unavailable e).isSome
  | .ok _ => false

/-- What is asked before the turn. -/
def beforeTurn : Ask → Bool
  | .collect _ _ _ | .beginTurn _ _ _ => true
  | _ => false

/-- The turn of a release, as it was taken. -/
structure Taken where
  unitId : String
  threadId : String
  result : TurnResult
  completedAt : String

variable (L) in
/-- The service is told that the turn ended. -/
def told (R : String) : Program L Unit :=
  if L.declaration.records then do
    let a ← ask L (.endTurn R)
    outcome L a
  else pure ()

variable (L) in
/-- The release is written. -/
def written (records : List MessageRecord) (reissue : Bool) (threadId R : String) :
    Program L Unit := do
  let rendered ← ask L .render
  orThrow L rendered
  if reissue then beginReissue L records R
  else writeReleases L records threadId R

variable (L) in
/-- The service admits the turn. -/
def admitted (records : List MessageRecord) (unitId R : String) : Program L Unit :=
  if L.declaration.records then do
    let a ← ask L (.beginTurn R unitId (records.map (·.messageId)))
    outcome L a
  else pure ()

variable (L) in
/-- The turn is taken; the service is told where it was not. -/
def turnTaken (records : List MessageRecord) (unitId threadId R : String) : Program L Taken := do
  let a ← ask L (.join (records.map (·.messageId)))
  outcome L a
  let (result, completedAt) ← (takeTurn L unitId threadId R R).handle (𝔖 := sig L) fun e =>
    (told L R).bind fun _ => .throw e
  pure ⟨unitId, threadId, result, completedAt⟩

variable (L) in
/-- The release is written, its turn admitted and taken. -/
def takeAdmitted (records : List MessageRecord) (reissue : Bool) (unitId threadId R : String) :
    Program L Taken := do
  written L records reissue threadId R
  admitted L records unitId R
  turnTaken L records unitId threadId R

variable (L) in
/-- The unit and the thread of a release, where nothing holds it. -/
def ready (record : MessageRecord) (unitId : Option String) :
    Program L (Option (String × String)) := do
  let unitId ← match unitId with
    | some unitId => pure unitId
    | none => orThrow L (Policy.unitIdFor L.js L.declaration record)
  let threadId ← threadFor L unitId
  let w ← fetch L
  if w.mem.holdFaults ≠ [] then do
    mark L .holds
    pure none
  else do
    let proxyFaults ← checkProviderProxy L
    if proxyFaults ≠ [] then do
      mark L .holds
      pure none
    else pure (some (unitId, threadId))

variable (L) in
/-- Its messages are collected. -/
def collecting (records : List MessageRecord) :
    Option (String × String) → Program L (Option (String × String))
  | none => pure none
  | some opened => do
    let synced ← syncCollectedOrHold L records
    if !synced then do
      mark L .holds
      pure none
    else pure (some opened)

variable (L) in
/-- The release, as far as what may hold it: the unit and the thread. -/
def opening (record : MessageRecord) (records : List MessageRecord) (unitId : Option String) :
    Program L (Option (String × String)) :=
  (ready L record unitId).bind (collecting L records)

variable (L) in
/-- What follows the turn. -/
def leave (record : MessageRecord) (R : String) (x : Taken) : Program L Unit := do
  told L R
  closeTurn L record x.unitId x.threadId R x.result x.completedAt

/-- A release's turn, taken apart at its end. -/
theorem releaseTurn_eq (record : MessageRecord) (records : List MessageRecord)
    (unitId threadId : String) (reissue : Bool) (R : String) :
    releaseTurn L record records unitId threadId reissue R =
      (takeAdmitted L records reissue unitId threadId R).bind (leave L record R) := by
  unfold releaseTurn takeAdmitted written admitted turnTaken admittedTurn leave told Prog.andFinally
  cases reissue <;> cases hr : L.declaration.records <;>
    simp only [Prog.bind_eq, Prog.bind_assoc, Prog.pure_eq, Prog.bind, if_true, if_false,
      Bool.false_eq_true]

variable (L) in
/-- The release, from what may hold it on. -/
def proceed (record : MessageRecord) (records : List MessageRecord) (reissue : Bool) (R : String) :
    Option (String × String) → Program L Bool
  | none => pure false
  | some (unitId, threadId) =>
    (releaseTurn L record records unitId threadId reissue R).bind fun _ => pure true

/-- A release, taken apart at what may hold it. -/
theorem releaseOne_eq (record : MessageRecord) (records : List MessageRecord) (reissue : Bool)
    (releaseId unitId : Option String) :
    releaseOne L record records reissue releaseId unitId =
      (opening L record records unitId).bind
        (proceed L record records reissue (releaseId.getD (releaseIdFor record))) := by
  unfold releaseOne opening ready holds
  cases unitId <;>
    simp only [Prog.bind_eq, Prog.bind_assoc, Prog.ite_bind, Prog.pure_eq, Prog.bind, collecting,
      proceed]

/-! ## Who asks what -/

def isCollect : Ask → Bool
  | .collect _ _ _ => true
  | _ => false

instance : Heard isCollect := ⟨fun q h => by cases q <;> first | rfl | cases h⟩

def nobody : Ask → Bool := fun _ => false

instance : Heard nobody := ⟨fun _ _ => rfl⟩

/-- The questions are of what comes before the admission of a turn. -/
class Early (B : Ask → Bool) : Prop extends Heard B where
  begins : ∀ R u ids, B (.beginTurn R u ids) = false
  ends : ∀ R, B (.endTurn R) = false

instance : Early isCollect := ⟨fun _ _ _ => rfl, fun _ => rfl⟩

instance : Early nobody := ⟨fun _ _ _ => rfl, fun _ => rfl⟩

variable {B : Ask → Bool} [Early B] {G : List MessageRecord → Prop}

instance (R : String) : Unheard B G (told L R) := by
  have hend : Unheard B G (ask L (.endTurn R)) := unheard_other (Early.ends R) fun _ _ => rfl
  unfold told
  infer_instance

instance {B : Ask → Bool} [Heard B] (records : List MessageRecord) (reissue : Bool) (t R : String) :
    Unheard B G (written L records reissue t R) := by
  unfold written
  infer_instance

instance (records : List MessageRecord) (u R : String) : Unheard B G (admitted L records u R) := by
  have hbegin : ∀ ids, Unheard B G (ask L (.beginTurn R u ids)) := fun ids =>
    unheard_other (Early.begins R u ids) fun _ _ => rfl
  unfold admitted
  infer_instance

theorem turnTaken_unheard {B : Ask → Bool} [Heard B] (records : List MessageRecord) (u t R : String)
    (htold : Unheard B G (told L R)) : Unheard B G (turnTaken L records u t R) := by
  have hturn : Unheard B G ((takeTurn L u t R R).handle (𝔖 := sig L) fun e =>
      (told L R).bind fun _ => .throw e) := .handled inferInstance fun e => inferInstance
  have hlast : Unheard B G (do
      let (result, completedAt) ← (takeTurn L u t R R).handle (𝔖 := sig L) fun e =>
        (told L R).bind fun _ => .throw e
      pure (⟨u, t, result, completedAt⟩ : Taken)) := .next hturn fun ⟨_, _⟩ => inferInstance
  unfold turnTaken
  infer_instance

instance (records : List MessageRecord) (u t R : String) :
    Unheard B G (turnTaken L records u t R) := turnTaken_unheard records u t R inferInstance

instance (records : List MessageRecord) (reissue : Bool) (u t R : String) :
    Unheard B G (takeAdmitted L records reissue u t R) := by
  unfold takeAdmitted
  infer_instance

instance (r : MessageRecord) (R : String) (x : Taken) :
    Unheard isCollect (fun _ => True) (leave L r R x) := by
  unfold leave
  infer_instance

theorem sync_unheard {B : Ask → Bool} [Heard B] (hb : ∀ i c u, B (.collect i c u) = false)
    (records : List MessageRecord) : Unheard B G (syncCollectedOrHold L records) := by
  have hcollect : ∀ i c u, Unheard B G (ask L (.collect i c u)) := fun i c u =>
    unheard_other (hb i c u) fun _ _ => rfl
  have hsynced : Unheard B G (setMem L fun m => { m with collectedSynced := true }) :=
    unheard_setMem fun _ => rfl
  have hfaults : ∀ faults, Unheard B G
      (setMem L fun m => { m with recordsFaults := faults }) := fun _ => unheard_setMem fun _ => rfl
  have heach : ∀ r : MessageRecord, Unheard B G (Moves.Safe.collectOne L r) := fun r => by
    unfold Moves.Safe.collectOne
    split <;> infer_instance
  have hsync : Unheard B G (syncCollected L records) := by
    unfold syncCollected
    infer_instance
  refine .handled inferInstance fun e => ?_
  split <;> infer_instance

instance (records : List MessageRecord) : Unheard nobody G (syncCollectedOrHold L records) :=
  sync_unheard (fun _ _ _ => rfl) records

instance {B : Ask → Bool} [Heard B] (r : MessageRecord) (u : Option String) :
    Unheard B G (ready L r u) := by
  unfold ready
  split <;> infer_instance

instance (records : List MessageRecord) (o : Option (String × String)) :
    Unheard nobody G (collecting L records o) := by
  unfold collecting
  split <;> infer_instance

instance (r : MessageRecord) (records : List MessageRecord) (u : Option String) :
    Unheard nobody G (opening L r records u) := by
  unfold opening
  infer_instance

instance (record : MessageRecord) (records : List MessageRecord) (u t : String) (reissue : Bool)
    (R : String) :
    Unheard isCollect (fun _ => True) (releaseTurn L record records u t reissue R) := by
  rw [releaseTurn_eq]
  infer_instance

instance (record : MessageRecord) (records : List MessageRecord) (reissue : Bool) (R : String)
    (o : Option (String × String)) :
    Unheard isCollect (fun _ => True) (proceed L record records reissue R o) := by
  unfold proceed
  split <;> infer_instance

/-! ## Awaited answers -/

/-- What awaits an answer comes to it: no call that arrives meanwhile ends it. -/
theorem outcome_runs {α : Type} {a : Awaited α} {r : Prog.Result (sig L) α}
    (h : Prog.Runs (outcome L a) s r s') : match a.result with
      | .ok x => r = .ok x
      | .error e => r = .error e := by
  have hcalls : Prog.wp (plain L) (runCalls L a.calls) (fun _ _ => True) (fun _ _ => False) s := by
    unfold runCalls
    refine Prog.wp_each (P := plain L) (J := fun _ _ => True) _ (fun c _ s₁ _ => ?_) _ _ trivial
    rw [Prog.wp_handle]
    exact Prog.wp_mono _ (plain_any _ s₁) (fun _ _ _ => trivial) fun _ _ _ =>
      (Prog.wp_pure _).2 trivial
  have hend : Prog.wp (plain L) (outcome L a) (fun x _ => a.result = .ok x)
      (fun e _ => a.result = .error e) s := by
    unfold outcome
    rw [Prog.wp_bind]
    refine Prog.wp_mono _ hcalls (fun _ s₁ _ => ?_) fun _ _ hx => hx.elim
    split
    · exact (Prog.wp_pure _).2 ‹_›
    · exact (wp_raise _).2 ‹_›
  have := plain_runs h hend
  cases r <;> (rw [this])

variable {t : List (Peer.Served (service L me))}

/-- A question to a party, and what follows on its answer. -/
theorem ask_inv {P : Peer (sig L)} {b b' : P.St} {t : List P.Served} {q : Ask} {α : Type}
    {f : q.Answer → Program L α} {r : Prog.Result (sig L) α} (hq : P.serves q = true)
    (hf : ∀ a, Unheard P.serves (fun _ => True) (f a)) (h : Ends P (ask L q >>= f) s b t r s' b') :
    ∃ a b₀ b₁, t = [⟨q, b₀, a, b₁⟩] ∧ Prog.Runs (f a) (q.after a s) r s' := by
  rcases Ends.bind_inv h with ⟨a, s₁, b₁, t₁, t₂, h₁, h₂, rfl⟩ | ⟨e, rfl, h₁⟩
  · obtain ⟨a', b₀, b₁', ha, rfl, rfl⟩ := Ends.ask_inv hq h₁
    cases ha
    obtain ⟨rfl, -⟩ := (hf a).ends h₂ trivial
    exact ⟨a, b₀, b₁', rfl, h₂.runs⟩
  · obtain ⟨_, _, _, ha, -, -⟩ := Ends.ask_inv hq h₁
    cases ha

theorem fetch_inv {P : Peer (sig L)} {b b' : P.St} {t : List P.Served} {α : Type}
    {f : World → Program L α} {r : Prog.Result (sig L) α} (h : Ends P (fetch L >>= f) s b t r s' b') :
    Ends P (f s) s b t r s' b' := Ends.read_inv h

theorem setMem_runs {f : Mem → Mem} {x : Prog.Result (sig L) Unit}
    (h : Prog.Runs (setMem L f) s x s') : x = .ok () := by
  have hend : Prog.wp (plain L) (setMem L f) (fun _ _ => True) (fun _ _ => False) s := by
    simp only [setMem, Prog.wp_bind, wp_fetch, wp_write]
    exact ⟨trivial, fun _ => trivial⟩
  have := plain_runs h hend
  cases x with
  | ok => rfl
  | error => exact this.elim

/-- A listing is of the messages that are there. -/
theorem rebuild_perm {x : Prog.Result (sig L) (List MessageRecord)}
    (h : Prog.Runs (rebuild L) s x s') : ∃ l, x = .ok l ∧ l.Perm s.disk.records.rows := by
  have := plain_runs (Q := fun l _ => l.Perm s.disk.records.rows) (X := fun _ _ => False) h
    (plain_ask fun l hl => hl)
  cases x with
  | ok l => exact ⟨l, rfl, this⟩
  | error => exact this.elim

/-- What the service refuses. -/
def refusal (e : Peer.Served (service L me)) : Option Err :=
  match resultOf e.q e.answer with
  | .error err => some err
  | .ok _ => none

theorem collect_firm (i c u : String) : Firm (service L me) refusal (do
    let a ← ask L (.collect i c u)
    outcome L a) := by
  intro s b t r s' b' h e he err href
  obtain ⟨a, b₀, b₁, rfl, hout⟩ := ask_inv rfl (fun _ => inferInstance) h
  rw [List.mem_singleton] at he
  subst he
  have := outcome_runs hout
  cases hres : a.result with
  | ok x =>
    rw [refusal, resultOf, hres] at href
    cases href
  | error err' =>
    rw [refusal, resultOf, hres] at href
    cases href
    rw [hres] at this
    exact this

/-- What asks the service nothing is refused nothing. -/
theorem quiet_firm {α : Type} {p : Program L α} (hp : Unheard served (fun _ => True) p) :
    Firm (service L me) refusal p := hp.firm (fun _ => trivial) refusal

theorem syncCollected_firm (captured : List MessageRecord) :
    Firm (service L me) refusal (syncCollected L captured) := by
  have hall : ∀ records : List MessageRecord,
      Firm (service L me) refusal (Moves.Safe.collecting L records) := by
    intro records
    unfold Moves.Safe.collecting
    refine Firm.bind (Firm.each (fun r => ?_) _) fun _ => quiet_firm (unheard_setMem fun _ => rfl)
    split
    · exact quiet_firm inferInstance
    · unfold Moves.Safe.collectOne
      split
      · exact quiet_firm inferInstance
      · exact collect_firm _ _ _
  unfold syncCollected
  split
  · refine Firm.bind (quiet_firm inferInstance) fun w => ?_
    dsimp only
    split <;> exact Firm.bind (quiet_firm inferInstance) hall
  · exact quiet_firm inferInstance

/-- The runtime lives whenever the service is asked. -/
theorem served_live {α : Type} {p : Program L α} {c : Config (service L me) α}
    (h : Steps (service L me) ⟨p, s, b⟩ t c) (hl : Live me b.processes) :
    Live me c.peer.processes ∧ ∀ e ∈ t, Live me e.before.processes :=
  Steps.keeps (I := fun b : Box => Live me b.processes) (fun _ _ hl hm => Moves.live hm hl)
    (fun _ _ _ _ hl ha => answers_live ha hl) h hl

/-! ## One message -/

abbrev chats : Channel := { kind := "whatsapp", account := "agent" }

abbrev chatLoop : Loop := oneLoop chats { channels := [chats], records := true }

def given : Given := { servers := { names := ["carbon-reply", "carbon-records"] } }

/-- A store with one message, of this id. -/
def stored (messageId : String) : World :=
  { disk := { records := Table.empty.put (inboundMessage chats messageId "1") } }

/-- The release was taken. -/
def cameTrue (x : Option (Prog.Result (sig chatLoop) Bool)) : Bool :=
  match x with
  | some (.ok x) => x
  | _ => false

/-- The runtime was started over it, and released nothing yet. -/
def atRest (messageId : String) : Option (World × MessageRecord) :=
  match (Pass.service chatLoop).play (false, stored messageId) [.boot (Given.answer {})] with
  | some (true, w) => w.disk.records.rows.head?.map ((w, ·))
  | _ => none

theorem stored_fresh (messageId : String) : Pass.fresh chatLoop (stored messageId) := by
  refine ⟨rfl, rfl, rfl, rfl, fun r hr => ?_⟩
  obtain rfl := List.mem_singleton.1 hr
  exact ⟨rfl, rfl, .inl rfl, (by decide : "whatsapp" = "browser" ↔ chatLoop.browser = true),
    fun hout => by cases hout⟩

theorem atRest_reachable {messageId : String} {w : World} {r : MessageRecord}
    (h : atRest messageId = some (w, r)) :
    (Pass.process chatLoop).Reachable ⟨.idle, w⟩ := by
  unfold atRest at h
  split at h
  · obtain ⟨_, _, he⟩ := Option.map_eq_some_iff.1 h
    cases he
    exact Service.play_reachable (V := Pass.service chatLoop) _ ‹_›
      ⟨⟨.down, _⟩, [], ⟨rfl, stored_fresh messageId⟩, .nil _⟩
  · cases h

def handed (r : MessageRecord) (reissue : Bool) (w : World) : World :=
  (Act.hand [r] (releaseIdFor r) reissue).apply w

/-- The runtime, and the one that is started after its death. -/
def first : Owner := ⟨1, "first"⟩
def second : Owner := ⟨2, "second"⟩

/-- Of the two only this one lives. -/
def alone (me : Owner) : Processes :=
  fun pid => if pid = me.pid then .ok (some me.generation) else .ok none

theorem alone_live {me : Owner} (h : me.pid ≠ 0) : Live me (alone me) := ⟨h, by simp [alone]⟩

def up (me : Owner) : Box := { turns := some {}, processes := alone me }

/-- Before the question `n` the service stops, and starts where `again`. -/
def outage (n : Option Nat) (again : Bool) (k : Nat) (b : Box) : Box :=
  if n = some k then { b with turns := if again then some {} else none } else b

theorem outage_moves (n : Option Nat) (again : Bool) (k : Nat) (b : Box) :
    Relation.ReflTransGen (Moves me) b (outage n again k b) := by
  unfold outage
  split
  · cases again with
    | true => exact .tail (.single (.stops b)) (.starts _ rfl)
    | false => exact .single (.stops b)
  · exact .refl

/-- A program beside the service, up to the question `stop`. -/
def play {α : Type} (me : Owner) (n : Option Nat) (again : Bool) (stop : Nat)
    (p : Program chatLoop α) (s : World) (b : Box) :
    Option (Config (service chatLoop me) α × List (Peer.Served (service chatLoop me))) :=
  playBeside (service chatLoop me) given.answer (outage n again) (respond plainJs me) stop 0 p s b

theorem play_steps {α : Type} {n : Option Nat} {again : Bool} {stop : Nat} {p : Program chatLoop α}
    {c : Config (service chatLoop me) α} {t : List (Peer.Served (service chatLoop me))}
    (h : play me n again stop p s b = some (c, t)) :
    Steps (service chatLoop me) ⟨p, s, b⟩ t c :=
  playBeside_steps (outage_moves n again) (fun _ _ _ _ => respond_answers) p h

theorem play_ends {α : Type} {n : Option Nat} {again : Bool} {stop : Nat} {p : Program chatLoop α}
    {c : Config (service chatLoop me) α} {t : List (Peer.Served (service chatLoop me))}
    {x : Prog.Result (sig chatLoop) α} (h : play me n again stop p s b = some (c, t))
    (hx : c.result = some x) : Ends (service chatLoop me) p s b t x c.st c.peer := by
  have := play_steps h
  rw [Ends, ← Config.prog_result hx]
  exact this

/-- The release of a message, as the pass asks for it. -/
def releasing (r : MessageRecord) (reissue : Bool) : Program chatLoop Bool :=
  releaseOne chatLoop r [r] reissue (if reissue then some (releaseIdFor r) else none)
    (if reissue then none else some "c")

/-- What is asked for the admission of a turn. -/
def isBegin : Ask → Bool
  | .beginTurn _ _ _ => true
  | _ => false

theorem isBegin_before {q : Ask} (h : isBegin q = true) :
    beforeTurn q = true ∧ isCollect q = false := by
  cases q with
  | beginTurn => exact ⟨rfl, rfl⟩
  | _ => cases h

/-- What ended the process, if something did. -/
def thrown {α : Type} (x : Option (Prog.Result (sig chatLoop) α)) : Option Err :=
  match x with
  | some (.error e) => some e
  | _ => none

theorem thrown_eq {α : Type} {x : Option (Prog.Result (sig chatLoop) α)} {err : Err}
    (h : thrown x = some err) : x = some (.error err) := by
  unfold thrown at h
  split at h
  · cases h
    rfl
  · cases h

end CarbonRuntime.Records
