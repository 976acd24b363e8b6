import CarbonRuntime.Core.LTS
import CarbonRuntime.Harness.Connection
import CarbonRuntime.Stream.Record

/-!
# Turns of the harness (harness/codex/events.ts, turn.ts:69-233)

A session keeps every notification it knows as an event with the ids of its thread and turn. `turn` sends
turn/start, and waits for the completion of the turn its answer names: among the events there are, else those
that come. What follows a promise runs after the whole chunk that settled it, so a step of `session` is a chunk,
the end of the stream or of the child, a timer, or a call, each with all that follows it.

What the turn said and what it cost are read beside its items and left out.

**Results.** `sound_inductive`: a turn that returned was completed under the id its own turn/start was
answered with, and has the items of that turn up to then.
-/

open CarbonRuntime.Core Utf16
open CarbonRuntime.Stream (Fault)

namespace CarbonRuntime.Harness

/-! ## Events -/

inductive Kind
  | threadStarted | threadNamed | turnStarted | turnCompleted | turnTokenUsage | messageDelta | itemStarted
  | itemCompleted | toolServerStatus | accountUpdated | accountRateLimits | hookStarted | hookCompleted
  | harnessError
deriving DecidableEq

/-- events.ts:31-55 -/
def kinds : List (String × Kind) :=
  [("thread/started", .threadStarted), ("thread/name/updated", .threadNamed), ("turn/started", .turnStarted),
    ("turn/completed", .turnCompleted), ("thread/tokenUsage/updated", .turnTokenUsage),
    ("item/agentMessage/delta", .messageDelta), ("item/started", .itemStarted),
    ("item/completed", .itemCompleted), ("mcpServer/startupStatus/updated", .toolServerStatus),
    ("account/updated", .accountUpdated), ("account/rateLimits/updated", .accountRateLimits),
    ("hook/started", .hookStarted), ("hook/completed", .hookCompleted), ("error", .harnessError)]

def kindOf (method : Text) : Option Kind := (kinds.find? fun p => ofString p.1 = method).map (·.2)

structure Event where
  kind : Kind
  method : Text
  threadId : Message
  turnId : Message
  params : Option Message
  status : Option Message := none
  server : Option Message := none

/-- The turn a notification carries. -/
def turnIn (params : Option Message) : Option Message := get "turn" params

/-- mirrors events.ts:76-81 -/
def correlate (method : Text) (params : Option Message) : Message × Message :=
  let threadId := coalesce (get "threadId" params) (get "id" (get "thread" params))
  let turnId := coalesce (get "turnId" params) (get "id" (turnIn params))
  let turnId := if given turnId || !(ofString "item/").isPrefixOf method then turnId
    else get "turnId" (get "item" params)
  (threadId.getD .null, turnId.getD .null)

/-- mirrors events.ts:86-97 -/
def mapNotification (method : Text) (params : Option Message) : Option Event :=
  (kindOf method).map fun kind =>
    let (threadId, turnId) := correlate method params
    { kind, method, threadId, turnId, params
      status := match kind with
        | .turnCompleted => get "status" (turnIn params)
        | .toolServerStatus => get "status" params
        | _ => none
      server := if kind = .toolServerStatus then get "name" params else none }

/-- mirrors events.ts:129-131 -/
def forTurn (events : List Event) (threadId turnId : Message) : List Event :=
  events.filter fun e => same e.threadId threadId && same e.turnId turnId

/-! ## Turns -/

structure TurnOptions where
  threadId : Text := []
  input : Message
  effort : Text := []
  sandboxPolicy : Option Message := none
  permissions : Text := []
  clientUserMessageId : Text := []
  model : Text := []

def typeOf : Message → String
  | .bool _ => "boolean"
  | .number _ => "number"
  | .string _ => "string"
  | _ => "object"

/-- mirrors turn.ts:279-285 -/
def inputItems : Message → Except Fault Message
  | .string text => .ok (.array [.object [(ofString "type", .string (ofString "text")), (ofString "text", .string text)]])
  | .array items => .ok (.array items)
  | input => .error ⟨"HARNESS_INPUT_UNSUPPORTED", "turn/start.input",
      "input was " ++ typeOf input ++ ", and carbon sends text or a list of protocol input items",
      "pass the record body as a string"⟩

/-- The parameters of turn/start, turn.ts:114-138. -/
def turnStart (experimentalApi : Bool) (o : TurnOptions) : Except Fault Message := do
  let policy := o.sandboxPolicy.filter truthy
  if o.threadId = [] then
    .error ⟨"HARNESS_THREAD_ID_ABSENT", "turn/start.threadId", "a turn was asked for with no thread",
      "open or resume the unit's thread first"⟩
  else if o.permissions ≠ [] ∧ policy.isSome then
    .error ⟨"HARNESS_PERMISSION_POLICY_CONFLICT", "turn/start",
      "permissions and sandboxPolicy cannot be combined; a legacy policy replaces the named profile read " ++
        "restrictions", "send the named permissions profile alone"⟩
  else if o.permissions ≠ [] ∧ experimentalApi = false then
    .error ⟨"HARNESS_PERMISSION_API_NOT_ENABLED", "turn/start.permissions",
      "named turn permission profiles require the explicitly enabled experimental app-server API",
      "connect with experimentalApi true on the qualified binary and configured profile"⟩
  else if policy.isNone ∧ o.permissions = [] then
    .error ⟨"HARNESS_SANDBOX_POLICY_ABSENT", "turn/start",
      "a turn was asked for with no sandbox policy, and an omitted policy inherits the last one silently",
      "build the policy with policyFor() from the declaration and pass it on every turn"⟩
  else
    let items ← inputItems o.input
    let text (name : String) (value : Text) := if value = [] then [] else [(ofString name, Value.string value)]
    .ok (.object ([(ofString "threadId", .string o.threadId), (ofString "input", items),
        (ofString "approvalPolicy", .string (ofString "never"))] ++
      (if o.permissions ≠ [] then text "permissions" o.permissions
        else (policy.map ((ofString "sandboxPolicy", ·))).toList) ++
      text "effort" o.effort ++ text "model" o.model ++ text "clientUserMessageId" o.clientUserMessageId))

/-- `item?.item ?? item` -/
def unwrapped (item : Message) : Message := (coalesce (get "item" (some item)) (some item)).getD item

def carried (completed : Message) : List Message :=
  match get "items" (some completed) with
  | some (.array items) => items.map unwrapped
  | _ => []

/-- The item of an item/completed. -/
def itemOf (e : Event) : Option Message :=
  if e.kind = .itemCompleted then (get "item" e.params).filter truthy else none

def isFull (completed : Message) : Bool :=
  match get "itemsView" (some completed) with
  | some (.string view) => view = ofString "full"
  | _ => false

/-- mirrors turn.ts:206-224: the items, and the view that is named where there is no record of them -/
def itemsFrom (completed : Message) (events : List Event) : List Message × Option Message :=
  let streamed := events.filterMap itemOf
  if isFull completed then (carried completed, none)
  else if streamed ≠ [] then (streamed, none)
  else ([], some ((get "itemsView" (some completed)).getD .null))

structure TurnResult where
  threadId : Text
  turnId : Message
  clientUserMessageId : Option Text
  /-- The turn of the completion, which status, times and error are read from. -/
  completed : Message
  items : List Message
  itemsDetail : Option Message
  events : List Kind

inductive Failure
  | refused (fault : Fault)
  /-- turn/start was, with its request. -/
  | unstarted (o : Outcome)
  | turnIdAbsent
  | childExited
  | timedOut
  /-- The completion has no turn. -/
  | thrown

inductive Phase
  | starting
  | waiting (turnId : Message)
  /-- The completion came, and `turn` did not go on yet. -/
  | resolved (turnId : Message) (completed : Option Message)
  | returned (result : TurnResult)
  | failed (why : Failure)

/-- One call of `turn`. -/
structure Call where
  options : TurnOptions
  /-- The id of its turn/start. -/
  request : Nat
  phase : Phase

structure Session where
  connection : Connection
  experimentalApi : Bool := false
  exited : Bool := false
  events : List Event := []
  dropped : List Text := []
  calls : List Call := []

/-- `started?.turn?.id ?? null`, where it is truthy. -/
def turnIdOf (result : Option Message) : Option Message := (get "id" (turnIn result)).filter truthy

/-- The completion that is waited for, turn.ts:91-95. -/
def completes (threadId : Text) (turnId : Message) (e : Event) : Bool :=
  e.kind = .turnCompleted && same e.threadId (.string threadId) && (get "id" (turnIn e.params)).any (same · turnId)

/-- turn.ts:149-182 -/
def finish (events : List Event) (o : TurnOptions) (turnId : Message) (completed : Option Message) : Phase :=
  let stream := forTurn events (.string o.threadId) turnId
  match completed.filter fun v => given (some v) with
  | none => .failed .thrown
  | some completed =>
    let (items, itemsDetail) := itemsFrom completed stream
    .returned
      { threadId := o.threadId, turnId, completed, items, itemsDetail, events := stream.map (·.kind)
        clientUserMessageId := if o.clientUserMessageId = [] then none else some o.clientUserMessageId }

namespace Session

/-- mirrors turn.ts:75-108 -/
def awaitCompletion (s : Session) (o : TurnOptions) (turnId : Message) : Phase :=
  match (forTurn s.events (.string o.threadId) turnId).find? fun e => e.kind = .turnCompleted with
  | some e => finish s.events o turnId (turnIn e.params)
  | none => if s.exited then .failed .childExited else .waiting turnId

/-- What follows in a call that its promise was settled for. -/
def resume (s : Session) (c : Call) : Call :=
  match c.phase with
  | .starting =>
    match s.connection.outcome c.request with
    | none => c
    | some (.resolved result) =>
      match turnIdOf result with
      | none => { c with phase := .failed .turnIdAbsent }
      | some turnId => { c with phase := s.awaitCompletion c.options turnId }
    | some o => { c with phase := .failed (.unstarted o) }
  | .resolved turnId completed => { c with phase := finish s.events c.options turnId completed }
  | _ => c

def resumed (s : Session) : Session := { s with calls := s.calls.map s.resume }

def hear (e : Event) (c : Call) : Call :=
  match c.phase with
  | .waiting turnId =>
    if completes c.options.threadId turnId e then { c with phase := .resolved turnId (turnIn e.params) } else c
  | _ => c

/-- mirrors events.ts:111-121 -/
def accept (s : Session) (method : Text) (params : Option Message) : Session :=
  match mapNotification method params with
  | none => { s with dropped := s.dropped ++ [method] }
  | some e => { s with events := s.events ++ [e], calls := s.calls.map (hear e) }

variable (parse : Text → Option Message) (answer : Text → Option Message → Option Message)

def receive (s : Session) (m : Classified) : Session :=
  let s := { s with connection := s.connection.receive answer m }
  match m with
  | .serverNotification method params => s.accept method params
  | _ => s

/-- A line of the harness; what is not JSON is passed over. -/
def line (s : Session) (text : Text) : Session :=
  match parse text with
  | none => s
  | some message => s.receive answer (classify message)

def fail (s : Session) (problem : String) : Session := { s with connection := s.connection.fail problem }

/-- mirrors protocol.ts:127-145 -/
def read (s : Session) (chunk : Text) : Session :=
  let (lines, splitter) := s.connection.splitter.push chunk
  let s := { s with connection := { s.connection with splitter } }
  match lines with
  | .error problem => s.fail problem
  | .ok lines => lines.foldl (line parse answer) s

def request (s : Session) (method : Text) (params : Message) : Session :=
  if s.connection.closed.isSome then s else { s with connection := s.connection.request method params }

def turn (s : Session) (o : TurnOptions) : Session :=
  match turnStart s.experimentalApi o with
  | .error fault => { s with calls := s.calls ++ [⟨o, 0, .failed (.refused fault)⟩] }
  | .ok params =>
    match s.connection.closed with
    | some problem => { s with calls := s.calls ++ [⟨o, 0, .failed (.unstarted (.closed problem))⟩] }
    | none =>
      { s with
        connection := s.connection.request (ofString "turn/start") params
        calls := s.calls ++ [⟨o, s.connection.nextId, .starting⟩] }

def isWaiting (c : Call) : Bool :=
  match c.phase with
  | .waiting _ => true
  | _ => false

def giveUp (why : Failure) (c : Call) : Call := if isWaiting c then { c with phase := .failed why } else c

end Session

inductive Input
  | request (method : Text) (params : Message)
  | turn (options : TurnOptions)
  | data (chunk : Text)
  /-- The stream that is read closes. -/
  | close
  /-- The child is gone. -/
  | exit
  /-- The timer of a call. -/
  | timeout (call : Nat)

section
variable (parse : Text → Option Message) (answer : Text → Option Message → Option Message)

def Session.exec (s : Session) : Input → Option Session
  | .request method params => some (s.request method params)
  | .turn options => some (s.turn options)
  | .data chunk => if s.connection.ended then none else some (s.read parse answer chunk).resumed
  | .close =>
    if s.connection.ended then none
    else
      let s := s.fail "the app-server closed its output stream"
      some ({ s with connection := { s.connection with ended := true } } : Session).resumed
  | .exit =>
    if s.exited then none else some { s with exited := true, calls := s.calls.map (giveUp .childExited) }
  | .timeout n => some { s with calls := s.calls.mapIdx fun i c => if i = n then giveUp .timedOut c else c }

def session : LTS Session Input :=
  .ofExec (fun s => ∃ experimentalApi, s = { connection := .new, experimentalApi }) (Session.exec parse answer)

end

/-! ## What a call waits for -/

/-- The answer to the request names the turn. -/
def Answered (c : Connection) (request : Nat) (turnId : Message) : Prop :=
  ∃ result, (request, .resolved result) ∈ c.settled ∧ turnIdOf result = some turnId

/-- A completion of the turn, in the thread, with this turn in it. -/
structure Completion (threadId : Text) (turnId : Message) (completed : Option Message) (e : Event) : Prop where
  kind : e.kind = .turnCompleted
  thread : e.threadId = .string threadId
  turn : e.turnId = turnId ∨ get "id" (turnIn e.params) = some turnId
  completed : completed = turnIn e.params

/-- The result is of a completion among the events that had come, and of their items. -/
def Finished (events : List Event) (o : TurnOptions) (r : TurnResult) : Prop :=
  ∃ before after e, events = before ++ after ∧ e ∈ before ∧
    Completion o.threadId r.turnId (some r.completed) e ∧
    (r.items, r.itemsDetail) = itemsFrom r.completed (forTurn before (.string o.threadId) r.turnId)

/-- What is known of a call while a chunk is read, before what follows its promises runs. -/
def Standing (s : Session) (c : Call) : Prop :=
  match c.phase with
  | .starting => 1 ≤ c.request ∧ c.request < s.connection.nextId
  | .waiting turnId => s.exited = false ∧ Answered s.connection c.request turnId
  | .resolved turnId completed => Answered s.connection c.request turnId ∧
      ∃ e ∈ s.events, Completion c.options.threadId turnId completed e
  | .returned r => Answered s.connection c.request r.turnId ∧ r.threadId = c.options.threadId ∧
      Finished s.events c.options r
  | .failed _ => True

/-- Between two steps a call that started waits for its answer, and none is about to go on. -/
def Settled (s : Session) (c : Call) : Prop :=
  match c.phase with
  | .starting => ∃ method, (c.request, method) ∈ s.connection.pending
  | .resolved _ _ => False
  | _ => Standing s c

structure Sound (s : Session) : Prop where
  kept : Kept s.connection
  calls : ∀ c ∈ s.calls, Settled s c

variable {parse : Text → Option Message} {answer : Text → Option Message → Option Message} {s s' : Session}
  {c : Call} {o : TurnOptions} {turnId : Message} {completed : Option Message} {e : Event}

theorem Answered.more {d d' : Connection} {k : Nat} (h : Answered d k turnId)
    (hsettled : d.settled <+: d'.settled) : Answered d' k turnId := by
  obtain ⟨result, hmem, hid⟩ := h
  exact ⟨result, hsettled.subset hmem, hid⟩

theorem Finished.more {events : List Event} {r : TurnResult} (h : Finished events o r) (more : List Event) :
    Finished (events ++ more) o r := by
  obtain ⟨before, after, e, rfl, he⟩ := h
  exact ⟨before, after ++ more, e, List.append_assoc before after more, he⟩

/-- What stands stays as more comes. -/
theorem Standing.mono (h : Standing s c) (hsettled : s.connection.settled <+: s'.connection.settled)
    (hnext : s.connection.nextId ≤ s'.connection.nextId) (hexited : s'.exited = s.exited)
    (hevents : s.events <+: s'.events) : Standing s' c := by
  obtain ⟨more, hmore⟩ := hevents
  unfold Standing at h ⊢
  split
  · rename_i hc
    simp only [hc] at h
    omega
  · rename_i hc
    simp only [hc] at h
    exact ⟨hexited ▸ h.1, h.2.more hsettled⟩
  · rename_i hc
    simp only [hc] at h
    obtain ⟨ha, e, he, hcomp⟩ := h
    exact ⟨ha.more hsettled, e, hmore ▸ List.mem_append_left _ he, hcomp⟩
  · rename_i hc
    simp only [hc] at h
    exact ⟨h.1.more hsettled, h.2.1, hmore ▸ h.2.2.more more⟩
  · trivial

theorem Settled.standing (h : Settled s c) (hs : Kept s.connection) : Standing s c := by
  unfold Settled at h
  unfold Standing
  split at h
  · rename_i hc
    obtain ⟨method, hmem⟩ := h
    simp only [hc]
    exact (hs.all _).1 (List.mem_append_left _ (List.mem_map.2 ⟨_, hmem, rfl⟩))
  · cases h
  · exact h

theorem finish_standing (ha : Answered s.connection c.request turnId) (he : e ∈ s.events)
    (hc : Completion c.options.threadId turnId completed e) :
    Settled s { c with phase := finish s.events c.options turnId completed } := by
  unfold finish
  dsimp only
  split
  · trivial
  · rename_i v hv
    obtain ⟨hv, -⟩ := Option.filter_eq_some_iff.1 hv
    subst hv
    exact ⟨ha, rfl, s.events, [], e, (List.append_nil _).symm, he, hc, rfl⟩

theorem forTurn_completion {threadId : Text} (he : e ∈ forTurn s.events (.string threadId) turnId)
    (hkind : e.kind = .turnCompleted) : e ∈ s.events ∧ Completion threadId turnId (turnIn e.params) e := by
  obtain ⟨hmem, hsame⟩ := List.mem_filter.1 he
  obtain ⟨hthread, hturn⟩ := Bool.and_eq_true_iff.1 hsame
  exact ⟨hmem, hkind, same_eq hthread, .inl (same_eq hturn), rfl⟩

theorem awaitCompletion_settled (ha : Answered s.connection c.request turnId) :
    Settled s { c with phase := s.awaitCompletion c.options turnId } := by
  unfold Session.awaitCompletion
  split
  · rename_i e he
    obtain ⟨hmem, hcomp⟩ := forTurn_completion (List.mem_of_find?_eq_some he)
      (by simpa using List.find?_some he)
    exact finish_standing ha hmem hcomp
  · split
    · trivial
    · rename_i hrun
      exact ⟨by simpa using hrun, ha⟩

theorem outcome_some {d : Connection} {k : Nat} {o : Outcome} (h : d.outcome k = some o) : (k, o) ∈ d.settled := by
  obtain ⟨e, he, rfl⟩ := Option.map_eq_some_iff.1 h
  have hk : e.1 = k := by simpa using List.find?_some he
  rw [← hk]
  exact List.mem_of_find?_eq_some he

theorem outcome_none {d : Connection} {k : Nat} (h : d.outcome k = none) : k ∉ d.settled.map (·.1) := by
  intro hin
  obtain ⟨e, he, rfl⟩ := List.mem_map.1 hin
  have := List.find?_eq_none.1 (Option.map_eq_none_iff.1 h) e he
  simp at this

/-- What follows a promise leaves nothing that is about to go on. -/
theorem resume_settled (hs : Kept s.connection) (h : Standing s c) : Settled s (s.resume c) := by
  unfold Standing at h
  unfold Session.resume
  split
  · rename_i hc
    simp only [hc] at h
    split
    · rename_i hnone
      have hin := (hs.all _).2 h
      rcases List.mem_append.1 hin with hp | hsettled
      · obtain ⟨p, hp, hk⟩ := List.mem_map.1 hp
        unfold Settled
        simp only [hc]
        exact ⟨p.2, hk ▸ hp⟩
      · exact absurd hsettled (outcome_none hnone)
    · rename_i result hout
      split
      · trivial
      · rename_i turnId hid
        exact awaitCompletion_settled ⟨result, outcome_some hout, hid⟩
    · trivial
  · rename_i turnId completed hc
    simp only [hc] at h
    obtain ⟨ha, e, he, hcomp⟩ := h
    exact finish_standing ha he hcomp
  · rename_i hstart hres
    unfold Settled
    split
    · rename_i hc
      exact absurd hc hstart
    · rename_i hc
      exact absurd hc (hres _ _)
    · unfold Standing
      exact h

/-! ## What a step keeps -/

/-- As `Sound`, while a chunk is read. -/
structure Halfway (s : Session) : Prop where
  kept : Kept s.connection
  calls : ∀ c ∈ s.calls, Standing s c

theorem Sound.halfway (h : Sound s) : Halfway s := ⟨h.kept, fun c hc => (h.calls c hc).standing h.kept⟩

theorem Halfway.resumed (h : Halfway s) : Sound s.resumed := by
  refine ⟨h.kept, fun c hc => ?_⟩
  obtain ⟨c', hc', rfl⟩ := List.mem_map.1 hc
  exact resume_settled h.kept (h.calls c' hc')

theorem receive_settled (d : Connection) (m : Classified) : d.settled <+: (d.receive answer m).settled := by
  unfold Connection.receive Connection.dispatch
  cases m with
  | response id result =>
    dsimp only
    split
    · exact List.prefix_append _ _
    · exact List.prefix_rfl
  | error id error =>
    dsimp only
    split
    · exact List.prefix_append _ _
    · exact List.prefix_rfl
  | _ => exact List.prefix_rfl

theorem receive_same (d : Connection) (m : Classified) : (d.receive answer m).nextId = d.nextId ∧
    (d.receive answer m).closed = d.closed := by
  unfold Connection.receive Connection.dispatch
  cases m with
  | response id result =>
    dsimp only
    split <;> exact ⟨rfl, rfl⟩
  | error id error =>
    dsimp only
    split <;> exact ⟨rfl, rfl⟩
  | _ => exact ⟨rfl, rfl⟩

theorem mapNotification_kind {method : Text} {params : Option Message} (h : mapNotification method params = some e) :
    e.params = params := by
  obtain ⟨kind, -, rfl⟩ := Option.map_eq_some_iff.1 h
  rfl

theorem completes_completion (h : completes o.threadId turnId e = true) :
    Completion o.threadId turnId (turnIn e.params) e := by
  simp only [completes, Bool.and_eq_true, decide_eq_true_eq] at h
  obtain ⟨⟨hkind, hthread⟩, hid⟩ := h
  obtain ⟨v, hv, hsame⟩ := (Option.any_eq_true _ _).1 hid
  exact ⟨hkind, same_eq hthread, .inr (by rw [hv, same_eq hsame]), rfl⟩

theorem hear_standing (h : Standing s c) (hs : e ∈ s.events) : Standing s (Session.hear e c) := by
  unfold Session.hear
  split
  · rename_i turnId hc
    split
    · rename_i hcompletes
      unfold Standing at h
      simp only [hc] at h
      exact ⟨h.2, e, hs, completes_completion hcompletes⟩
    · exact h
  · exact h

theorem Halfway.accept (h : Halfway s) (method : Text) (params : Option Message) :
    Halfway (s.accept method params) := by
  unfold Session.accept
  split
  · exact ⟨h.kept, h.calls⟩
  · rename_i e _
    refine ⟨h.kept, fun c hc => ?_⟩
    obtain ⟨c', hc', rfl⟩ := List.mem_map.1 hc
    have hmore : Standing { s with events := s.events ++ [e] } c' :=
      (h.calls c' hc').mono List.prefix_rfl (Nat.le_refl _) rfl (List.prefix_append _ _)
    exact hear_standing hmore (List.mem_append_right _ List.mem_cons_self)

theorem Halfway.receive (h : Halfway s) (m : Classified) : Halfway (s.receive answer m) := by
  have hmore : Halfway { s with connection := s.connection.receive answer m } :=
    ⟨h.kept.receive m, fun c hc =>
      (h.calls c hc).mono (receive_settled _ m) (Nat.le_of_eq (receive_same _ m).1.symm) rfl List.prefix_rfl⟩
  unfold Session.receive
  cases m with
  | serverNotification method params => exact hmore.accept method params
  | _ => exact hmore

theorem Halfway.line (h : Halfway s) (text : Text) : Halfway (s.line parse answer text) := by
  unfold Session.line
  split
  · exact h
  · exact h.receive _

theorem Halfway.fail (h : Halfway s) (problem : String) : Halfway (s.fail problem) :=
  ⟨h.kept.fail problem, fun c hc =>
    (h.calls c hc).mono (List.prefix_append _ _) (Nat.le_refl _) rfl List.prefix_rfl⟩

theorem Halfway.lines (h : Halfway s) (lines : List Text) :
    Halfway (lines.foldl (Session.line parse answer) s) := by
  induction lines generalizing s with
  | nil => exact h
  | cons text lines ih => exact ih (h.line text)

theorem Halfway.read (h : Halfway s) (chunk : Text) : Halfway (s.read parse answer chunk) := by
  have hsplitter : ∀ splitter, Halfway { s with connection := { s.connection with splitter } } := fun _ =>
    ⟨{ h.kept with }, h.calls⟩
  unfold Session.read
  dsimp only
  split
  · exact (hsplitter _).fail _
  · exact (hsplitter _).lines _

theorem Settled.request (h : Settled s c) (method : Text) (params : Message) :
    Settled { s with connection := s.connection.request method params } c := by
  unfold Settled at h ⊢
  split
  · rename_i hc
    simp only [hc] at h
    obtain ⟨m, hm⟩ := h
    exact ⟨m, List.mem_append_left _ hm⟩
  · rename_i hc
    simp only [hc] at h
  · rename_i hstart hres
    have hstands : Standing s c := by
      split at h
      · rename_i hc
        exact absurd hc hstart
      · cases h
      · exact h
    exact hstands.mono List.prefix_rfl (Nat.le_succ _) rfl List.prefix_rfl

/-- The child is gone for what does not wait for a completion. -/
theorem Settled.exited (h : Settled s c) (hwaiting : Session.isWaiting c = false) :
    Settled { s with exited := true } c := by
  obtain ⟨options, request, phase⟩ := c
  cases phase with
  | waiting turnId => cases hwaiting
  | _ => exact h

theorem Sound.exec {i : Input} (h : Sound s) (he : s.exec parse answer i = some s') : Sound s' := by
  cases i with
  | request method params =>
    obtain rfl := Option.some.inj he
    unfold Session.request
    split
    · exact h
    · rename_i hopen
      exact ⟨h.kept.request (by simpa using hopen) method params, fun c hc => (h.calls c hc).request method params⟩
  | turn options =>
    obtain rfl := Option.some.inj he
    have hadd : ∀ why, Sound { s with calls := s.calls ++ [⟨options, 0, .failed why⟩] } := fun why =>
      ⟨h.kept, fun c hc => by
        rcases List.mem_append.1 hc with hc | hc
        · exact h.calls c hc
        · rw [List.mem_singleton.1 hc]
          trivial⟩
    unfold Session.turn
    split
    · exact hadd _
    · split
      · exact hadd _
      · rename_i params _ _ hopen
        refine ⟨h.kept.request hopen _ params, fun c hc => ?_⟩
        rcases List.mem_append.1 hc with hc | hc
        · exact (h.calls c hc).request _ params
        · rw [List.mem_singleton.1 hc]
          exact ⟨_, List.mem_append_right _ List.mem_cons_self⟩
  | data chunk =>
    unfold Session.exec at he
    dsimp only at he
    split at he
    · cases he
    · obtain rfl := Option.some.inj he
      exact (h.halfway.read chunk).resumed
  | close =>
    unfold Session.exec at he
    dsimp only at he
    split at he
    · cases he
    · obtain rfl := Option.some.inj he
      have hfail := h.halfway.fail "the app-server closed its output stream"
      exact Halfway.resumed ⟨{ hfail.kept with }, hfail.calls⟩
  | exit =>
    unfold Session.exec at he
    dsimp only at he
    split at he
    · cases he
    · obtain rfl := Option.some.inj he
      refine ⟨h.kept, fun c hc => ?_⟩
      obtain ⟨c', hc', rfl⟩ := List.mem_map.1 hc
      unfold Session.giveUp
      split
      · trivial
      · rename_i hwaiting
        exact (h.calls c' hc').exited (by simpa using hwaiting)
  | timeout n =>
    obtain rfl := Option.some.inj he
    refine ⟨h.kept, fun c hc => ?_⟩
    obtain ⟨i, hi, rfl⟩ := List.mem_mapIdx.1 hc
    have hold := h.calls _ (List.getElem_mem hi)
    split
    · unfold Session.giveUp
      split
      · trivial
      · exact hold
    · exact hold

theorem sound_inductive : (session parse answer).Inductive Sound := by
  constructor
  · rintro s ⟨experimentalApi, rfl⟩
    exact ⟨kept_new, fun c hc => nomatch hc⟩
  · exact fun s i s' hs he => hs.exec he

/-- Where the child is gone no completion is waited for. -/
theorem Sound.exited_waiting (h : Sound s) (hexited : s.exited = true) : ∀ c ∈ s.calls, Session.isWaiting c = false := by
  intro c hc
  have hcall := h.calls c hc
  obtain ⟨options, request, phase⟩ := c
  cases phase with
  | waiting turnId =>
    rw [hcall.1] at hexited
    cases hexited
  | _ => rfl

/-! ## What is given back -/

/-- The harness ends a turn's items with its completion, notifies of each once, and names one turn in a
completion. -/
structure Orderly (events : List Event) : Prop where
  one : ∀ e ∈ events, e.kind = .turnCompleted → ∀ v, get "id" (turnIn e.params) = some v → e.turnId = v
  order : events.Pairwise fun e f => f.kind = .itemCompleted → e.threadId = f.threadId → e.turnId = f.turnId →
    e.kind ≠ .turnCompleted ∧ (e.kind = .itemCompleted → itemOf e ≠ itemOf f)

theorem mem_forTurn {events : List Event} {threadId : Message} (h : e ∈ forTurn events threadId turnId) :
    e.threadId = threadId ∧ e.turnId = turnId := by
  obtain ⟨hthread, hturn⟩ := Bool.and_eq_true_iff.1 (List.mem_filter.1 h).2
  exact ⟨same_eq hthread, same_eq hturn⟩

theorem kind_of_itemOf {v : Message} (h : itemOf e = some v) : e.kind = .itemCompleted := by
  unfold itemOf at h
  split at h
  · assumption
  · cases h

theorem Finished.items {events : List Event} {r : TurnResult} (h : Finished events o r) (ho : Orderly events) :
    ∃ e ∈ events, e.kind = .turnCompleted ∧ e.threadId = .string o.threadId ∧ e.turnId = r.turnId ∧
      turnIn e.params = some r.completed ∧
      if isFull r.completed then r.items = carried r.completed
      else r.items = (forTurn events (.string o.threadId) r.turnId).filterMap itemOf ∧ r.items.Nodup := by
  obtain ⟨before, after, e, rfl, he, hcomp, hitems⟩ := h
  have hturn : e.turnId = r.turnId := by
    rcases hcomp.turn with hturn | hturn
    · exact hturn
    · exact ho.one e (List.mem_append_left _ he) hcomp.kind _ hturn
  refine ⟨e, List.mem_append_left _ he, hcomp.kind, hcomp.thread, hturn, hcomp.completed.symm, ?_⟩
  obtain ⟨hbefore, hafter, hcross⟩ := List.pairwise_append.1 ho.order
  -- no item of the turn comes behind its completion
  have hlate : (forTurn after (.string o.threadId) r.turnId).filterMap itemOf = [] := by
    rw [List.filterMap_eq_nil_iff]
    intro f hf
    obtain ⟨hthread, hturn'⟩ := mem_forTurn hf
    unfold itemOf
    rw [if_neg]
    intro hkind
    exact (hcross e he f (List.mem_of_mem_filter hf) hkind (hcomp.thread.trans hthread.symm)
      (hturn.trans hturn'.symm)).1 hcomp.kind
  have hall : (forTurn (before ++ after) (.string o.threadId) r.turnId).filterMap itemOf =
      (forTurn before (.string o.threadId) r.turnId).filterMap itemOf := by
    rw [forTurn, List.filter_append, List.filterMap_append]
    change _ ++ (forTurn after _ _).filterMap itemOf = _
    rw [hlate, List.append_nil]
    rfl
  have hnodup : ((forTurn before (.string o.threadId) r.turnId).filterMap itemOf).Nodup := by
    rw [List.Nodup, List.pairwise_filterMap]
    refine (hbefore.sublist List.filter_sublist).imp_of_mem fun {f g} hf hg hfg v hv w hw heq => ?_
    obtain ⟨hfthread, hfturn⟩ := mem_forTurn hf
    obtain ⟨hgthread, hgturn⟩ := mem_forTurn hg
    refine (hfg (kind_of_itemOf hw) (hfthread.trans hgthread.symm) (hfturn.trans hgturn.symm)).2
      (kind_of_itemOf hv) ?_
    rw [hv, hw, heq]
  have hr := congrArg Prod.fst hitems
  rw [hall]
  simp only [itemsFrom] at hr
  split
  · rename_i hfull
    rw [if_pos hfull] at hr
    exact hr
  · rename_i hfull
    rw [if_neg hfull] at hr
    split at hr
    · exact ⟨hr, hr ▸ hnodup⟩
    · rename_i hnil
      rw [not_not.1 hnil]
      exact ⟨hr, hr ▸ List.nodup_nil⟩

end CarbonRuntime.Harness
