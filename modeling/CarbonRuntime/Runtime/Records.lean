import CarbonRuntime.Core.Peer
import CarbonRuntime.Runtime.Release

/-!
# The records action service

The party a release asks to collect its messages and to admit its turn: the context of
the turn that is admitted and those that wait (runtime/records-tool.ts:76-175), the checks
on a collected message (records/job-tools.ts:14-97), the size of a request
(runtime/records-action-http.ts:19-77) and what the runtime makes of no answer
(tools/lib/action-check.ts:44-71).

The contexts are in the service's memory: a service that stops and starts has none. One
whose process is gone is noticed by a timer (`ticks`), a second apart at most. While a
service drains it takes no new connection; what waits is turned away.
-/

open CarbonRuntime.Core CarbonRuntime.Stream

namespace CarbonRuntime.Records

open Teachings

/-! ## Processes -/

structure Owner where
  pid : Nat
  generation : String
deriving DecidableEq

/-- What `processGeneration` finds of a process id: none, its generation, or why it could
not be inspected. -/
abbrev Processes := Nat → Except (List Fault) (Option String)

/-- mirrors records-tool.ts:76-80 -/
def liveTurnOwner (ps : Processes) (owner : Owner) : Except (List Fault) Bool :=
  if owner.pid = 0 then .ok false else (ps owner.pid).map (· == some owner.generation)

/-! ## Turn contexts -/

structure TurnContext where
  releaseId : String
  unit : String
  sourceIds : List String
  owner : Owner
deriving DecidableEq

def contextInvalid (releaseId : String) : Fault :=
  ⟨"JOB_TURN_CONTEXT_INVALID", releaseId,
    "the runtime supplied an incomplete work unit or cause", "supply the captured turn context"⟩

def turnActive (releaseId : String) : Fault :=
  ⟨"JOB_TURN_ACTIVE", releaseId, "this release already has an active or waiting records context",
    "finish that release before starting it again"⟩

def contextDuplicate (releaseId : String) : Fault :=
  ⟨"JOB_TURN_CONTEXT_DUPLICATE", releaseId, "one event id cannot belong to two active turns",
    "finish the first release before starting a second for that event"⟩

def ownerInvalid (releaseId : String) : Fault :=
  ⟨"JOB_TURN_OWNER_INVALID", releaseId,
    "the runtime process generation does not match a live process",
    "start the turn from its supported runtime unit"⟩

def turnStopping (releaseId : String) : Fault :=
  ⟨"JOB_TURN_STOPPING", releaseId, "the records service is draining",
    "retry the turn after the records service restarts"⟩

def contextMismatch (releaseId : String) : Fault :=
  ⟨"JOB_TURN_CONTEXT_MISMATCH", releaseId,
    "the active records turn has a different release id",
    "end the release that started this records context"⟩

/-- `!text.trim()` -/
def blank (text : String) : Bool := trim text == ""

def TurnContext.complete (c : TurnContext) : Bool :=
  !blank c.releaseId && !blank c.unit && c.sourceIds != [] && !c.sourceIds.any blank

/-- The other context is of this release, or of one of its events. -/
def TurnContext.clashes (c other : TurnContext) : Bool :=
  other.releaseId == c.releaseId || c.sourceIds.any fun id => other.sourceIds.contains id

/-- mirrors records-tool.ts:82-105 -/
def validateTurnContext (ps : Processes) (c : TurnContext) (others : List TurnContext) :
    Except (List Fault) Unit :=
  if !c.complete then .error [contextInvalid c.releaseId]
  else if others.any (·.releaseId = c.releaseId) then .error [turnActive c.releaseId]
  else if others.any (c.clashes ·) then .error [contextDuplicate c.releaseId]
  else do
    let live ← liveTurnOwner ps c.owner
    if live then .ok () else .error [ownerInvalid c.releaseId]

/-- mirrors the state of `turnContexts`, records-tool.ts:107-112 -/
structure Turns where
  active : Option TurnContext := none
  waiting : List TurnContext := []
  accepting : Bool := true
deriving DecidableEq

def Turns.contexts (t : Turns) : List TurnContext := t.active.toList ++ t.waiting

def Turns.advance (t : Turns) : Turns :=
  { t with active := t.waiting.head?, waiting := t.waiting.tail }

/-- The timer, records-tool.ts:118-125: a process it cannot inspect is left. -/
def Turns.monitor (ps : Processes) (t : Turns) : Turns :=
  match t.active with
  | none => t
  | some c =>
    match ps c.owner.pid with
    | .error _ => t
    | .ok generation => if generation = some c.owner.generation then t else t.advance

/-- `start`, records-tool.ts:130-151: the contexts with this one active, or waiting. -/
def Turns.start (ps : Processes) (t : Turns) (c : TurnContext) : Except (List Fault) Turns :=
  if !t.accepting then .error [turnStopping c.releaseId]
  else do
    validateTurnContext ps c t.contexts
    if t.active.isSome then .ok { t with waiting := t.waiting ++ [c] }
    else .ok { t with active := some c }

/-- `end`, records-tool.ts:152-158. -/
def Turns.finish (t : Turns) (releaseId : String) : Except (List Fault) Turns :=
  if t.active.any (·.releaseId = releaseId) then .ok t.advance
  else .error [contextMismatch releaseId]

/-- `drain`, records-tool.ts:159-168. -/
def Turns.drain (t : Turns) : Turns := { t with accepting := false, waiting := [] }

/-! ## Requests -/

/-- `MAX_BODY`, records-action-http.ts:19. -/
def maxBody : Nat := 16384

def bodyLarge : Fault :=
  ⟨"RECORDS_ACTION_BODY_LARGE", "request", "action request is over 16 KiB",
    "send only the job, step, operation and source ids"⟩

/-- What the service answers of a request, where its body is not too large. -/
def received {α : Type} (body : String) (answer : Except (List Fault) α) : Except (List Fault) α :=
  if body.utf8ByteSize > maxBody then .error [bodyLarge] else answer

variable (J : Js)

def turnStartBody (c : TurnContext) : String :=
  "\x7b\"releaseId\":" ++ J.stringify c.releaseId ++ ",\"unit\":" ++ J.stringify c.unit ++
    ",\"sourceIds\":[" ++ ",".intercalate (c.sourceIds.map J.stringify) ++
    "],\"owner\":\x7b\"pid\":" ++ toString c.owner.pid ++ ",\"generation\":" ++
    J.stringify c.owner.generation ++ "\x7d\x7d"

def turnEndBody (releaseId : String) : String :=
  "\x7b\"releaseId\":" ++ J.stringify releaseId ++ "\x7d"

def collectBody (sourceId channel unit : String) : String :=
  "\x7b\"source_id\":" ++ J.stringify sourceId ++ ",\"channel\":" ++ J.stringify channel ++
    ",\"unit\":" ++ J.stringify unit ++ "\x7d"

/-- `SOURCE_ID` and `trim() === value`, job-tools.ts:14, 27-33. -/
def isSourceId (value : String) : Bool :=
  let outer := fun c => !isSpace c && !isControl c
  value != "" && utf16Length value ≤ 512 && value.toList.all (!isControl ·) &&
    value.toList.head?.all outer && value.toList.getLast?.all outer

def sourceIdInvalid : Fault :=
  ⟨"JOB_SOURCE_ID_INVALID", "source_id",
    "the cause id must be one nonempty printable identifier of at most 512 characters",
    "pass the current message id or stable timer event id exactly as the turn received it"⟩

def channelInvalid (channel : String) : Fault :=
  ⟨"JOB_CHANNEL_INVALID", channel, "collected channel must be a declared source name",
    "pass the adapter or trusted client-read channel"⟩

def unitInvalid : Fault :=
  ⟨"JOB_UNIT_INVALID", "unit", "a collected fact must name its work unit",
    "pass the unit derived from the captured record"⟩

/-- mirrors job-tools.ts:83-95, as far as the database -/
def actionCollect (sourceId channel unit : String) : Except (List Fault) Unit :=
  if !isSourceId sourceId then .error [sourceIdInvalid]
  else if !Release.isSourceName channel then .error [channelInvalid channel]
  else if blank unit then .error [unitInvalid]
  else .ok ()

/-! ## The party -/

/-- The box a runtime and its records service are on: `turns` is none where the service
is down. -/
structure Box where
  turns : Option Turns := none
  /-- Whether the service's database answers. -/
  database : Bool := true
  processes : Processes

/-- The runtime that asks is a process that lives. -/
def Live (me : Owner) (ps : Processes) : Prop := me.pid ≠ 0 ∧ ps me.pid = .ok (some me.generation)

/-- What happens to the service meanwhile. -/
inductive Moves (me : Owner) : Box → Box → Prop
  | stops (b : Box) : Moves me b { b with turns := none }
  | starts (b : Box) : b.turns = none → Moves me b { b with turns := some {} }
  | drains (b : Box) (t : Turns) : b.turns = some t → Moves me b { b with turns := some t.drain }
  | ticks (b : Box) (t : Turns) : b.turns = some t →
      Moves me b { b with turns := some (t.monitor b.processes) }
  | processes (b : Box) (ps : Processes) : Live me ps → Moves me b { b with processes := ps }
  | database (b : Box) (up : Bool) : Moves me b { b with database := up }

/-- `RECORDS_ACTION_URL`. -/
def actionUrl : String := "http://127.0.0.1:8733"

/-- `fetch` threw: nobody listens there, or the connection broke. -/
def actionUnavailable (message : String) : Err :=
  .tool [⟨"RECORDS_ACTION_UNAVAILABLE", actionUrl,
    "the records action service did not answer: " ++ message,
    "do not perform the external effect; restore the records service and try the action again"⟩]

/-- There is a service that takes a connection. -/
def Box.listens (b : Box) : Bool := b.turns.any (·.accepting)

/-- What an error of the database is answered as, fault.ts:60-70. -/
def databaseFault (code message : String) : Fault :=
  ⟨code, "the tool", message,
    "read the message; if it names nothing you can act on, the tool owes you a fault with a fix"⟩

inductive Collects (J : Js) (sourceId channel unit : String) : Box → Except Err Unit → Box → Prop
  | unreached (b : Box) (m : String) : b.listens = false →
      Collects J sourceId channel unit b (.error (actionUnavailable m)) b
  | broken (b : Box) (m : String) :
      Collects J sourceId channel unit b (.error (actionUnavailable m)) { b with turns := none }
  | refused (b : Box) (t : Turns) (faults : List Fault) : b.turns = some t →
      received (collectBody J sourceId channel unit) (actionCollect sourceId channel unit) =
        .error faults → Collects J sourceId channel unit b (.error (.tool faults)) b
  | failed (b : Box) (t : Turns) (code message : String) : b.turns = some t → b.database = false →
      code ≠ "RECORDS_ACTION_UNAVAILABLE" →
      Collects J sourceId channel unit b (.error (.tool [databaseFault code message])) b
  | collected (b : Box) (t : Turns) : b.turns = some t → b.database = true →
      received (collectBody J sourceId channel unit) (actionCollect sourceId channel unit) = .ok () →
      Collects J sourceId channel unit b (.ok ()) b

/-- What a context that waits is answered. -/
inductive Waits (me : Owner) (c : TurnContext) : Box → Except Err Unit → Box → Prop
  | move {b b₁ b' : Box} {x : Except Err Unit} : Moves me b b₁ → Waits me c b₁ x b' →
      Waits me c b x b'
  | admitted (b : Box) (t : Turns) : b.turns = some t → t.active = some c → Waits me c b (.ok ()) b
  | stopping (b : Box) (t : Turns) : b.turns = some t → t.accepting = false → c ∉ t.contexts →
      Waits me c b (.error (.tool [turnStopping c.releaseId])) b
  | broken (b : Box) (m : String) : b.turns = none → Waits me c b (.error (actionUnavailable m)) b

inductive Begins (J : Js) (me : Owner) (c : TurnContext) : Box → Except Err Unit → Box → Prop
  | unreached (b : Box) (m : String) : b.listens = false →
      Begins J me c b (.error (actionUnavailable m)) b
  | broken (b : Box) (m : String) :
      Begins J me c b (.error (actionUnavailable m)) { b with turns := none }
  | refused (b : Box) (t : Turns) (faults : List Fault) : b.turns = some t →
      received (turnStartBody J c) (t.start b.processes c) = .error faults →
      Begins J me c b (.error (.tool faults)) b
  | admitted (b : Box) (t t' : Turns) : b.turns = some t → t.active = none →
      received (turnStartBody J c) (t.start b.processes c) = .ok t' →
      Begins J me c b (.ok ()) { b with turns := some t' }
  | waits (b b' : Box) (t t' : Turns) (x : Except Err Unit) : b.turns = some t →
      t.active.isSome = true → received (turnStartBody J c) (t.start b.processes c) = .ok t' →
      Waits me c { b with turns := some t' } x b' → Begins J me c b x b'

inductive Finishes (J : Js) (releaseId : String) : Box → Except Err Unit → Box → Prop
  | unreached (b : Box) (m : String) : b.listens = false →
      Finishes J releaseId b (.error (actionUnavailable m)) b
  | broken (b : Box) (m : String) :
      Finishes J releaseId b (.error (actionUnavailable m)) { b with turns := none }
  | refused (b : Box) (t : Turns) (faults : List Fault) : b.turns = some t →
      received (turnEndBody J releaseId) (t.finish releaseId) = .error faults →
      Finishes J releaseId b (.error (.tool faults)) b
  | ended (b : Box) (t t' : Turns) : b.turns = some t →
      received (turnEndBody J releaseId) (t.finish releaseId) = .ok t' →
      Finishes J releaseId b (.ok ()) { b with turns := some t' }

/-- The questions a release puts to the service. -/
def served : Ask → Bool
  | .collect _ _ _ | .beginTurn _ _ _ | .endTurn _ => true
  | _ => false

/-- The service's part of an answer; calls may come with it from elsewhere. -/
def answers (me : Owner) : (q : Ask) → Box → q.Answer → Box → Prop
  | .collect sourceId channel unit, b, a, b' => Collects J sourceId channel unit b a.result b'
  | .beginTurn releaseId unit sourceIds, b, a, b' =>
    Begins J me ⟨releaseId, unit, sourceIds, me⟩ b a.result b'
  | .endTurn releaseId, b, a, b' => Finishes J releaseId b a.result b'
  | _, b, _, b' => b' = b

/-- The service beside the runtime `me`. -/
@[reducible] def service (L : Loop) (me : Owner) : Peer (sig L) where
  St := Box
  serves := served
  answers := answers L.js me
  moves := Moves me

/-- What a service that never breaks off answers at once; none where it would have the
context wait, or its database fails. -/
def respond (me : Owner) : (q : Ask) → Box → Option (q.Answer × Box)
  | .collect sourceId channel unit, b =>
    match b.turns.filter (·.accepting) with
    | none => some ({ result := .error (actionUnavailable "fetch failed") }, b)
    | some _ =>
      match received (collectBody J sourceId channel unit) (actionCollect sourceId channel unit) with
      | .error faults => some ({ result := .error (.tool faults) }, b)
      | .ok _ => if b.database then some ({ result := .ok () }, b) else none
  | .beginTurn releaseId unit sourceIds, b =>
    match b.turns.filter (·.accepting) with
    | none => some ({ result := .error (actionUnavailable "fetch failed") }, b)
    | some t =>
      match received (turnStartBody J ⟨releaseId, unit, sourceIds, me⟩)
          (t.start b.processes ⟨releaseId, unit, sourceIds, me⟩) with
      | .error faults => some ({ result := .error (.tool faults) }, b)
      | .ok t' =>
        if t.active = none then some ({ result := .ok () }, { b with turns := some t' }) else none
  | .endTurn releaseId, b =>
    match b.turns.filter (·.accepting) with
    | none => some ({ result := .error (actionUnavailable "fetch failed") }, b)
    | some t =>
      match received (turnEndBody J releaseId) (t.finish releaseId) with
      | .error faults => some ({ result := .error (.tool faults) }, b)
      | .ok t' => some ({ result := .ok () }, { b with turns := some t' })
  | _, _ => none

variable {J} {me : Owner} {b b' : Box}

theorem Box.not_listens (h : b.turns.filter (·.accepting) = none) : b.listens = false := by
  unfold Box.listens
  cases ht : b.turns with
  | none => rfl
  | some t =>
    rw [ht] at h
    simpa [Option.filter_eq_none_iff] using h

theorem respond_answers {q : Ask} {a : q.Answer} (h : respond J me q b = some (a, b')) :
    answers J me q b a b' := by
  cases q with
  | collect sourceId channel unit =>
    simp only [respond] at h
    split at h
    · cases h
      exact .unreached b _ (Box.not_listens ‹_›)
    · have hturns := (Option.filter_eq_some_iff.1 ‹_›).1
      split at h
      · cases h
        exact .refused b _ _ hturns ‹_›
      · split at h
        · cases h
          exact .collected b _ hturns ‹_› ‹_›
        · cases h
  | beginTurn releaseId unit sourceIds =>
    simp only [respond] at h
    split at h
    · cases h
      exact .unreached b _ (Box.not_listens ‹_›)
    · have hturns := (Option.filter_eq_some_iff.1 ‹_›).1
      split at h
      · cases h
        exact .refused b _ _ hturns ‹_›
      · split at h
        · cases h
          exact .admitted b _ _ hturns ‹_› ‹_›
        · cases h
  | endTurn releaseId =>
    simp only [respond] at h
    split at h
    · cases h
      exact .unreached b _ (Box.not_listens ‹_›)
    · have hturns := (Option.filter_eq_some_iff.1 ‹_›).1
      split at h
      · cases h
        exact .refused b _ _ hturns ‹_›
      · cases h
        exact .ended b _ _ hturns ‹_›
  | _ => cases h

theorem Moves.live (h : Moves me b b') (hl : Live me b.processes) : Live me b'.processes := by
  cases h with
  | processes ps hps => exact hps
  | _ => exact hl

theorem Waits.live {c : TurnContext} {x : Except Err Unit} (h : Waits me c b x b') :
    Live me b.processes → Live me b'.processes := by
  induction h with
  | move hm _ ih => exact fun hl => ih (hm.live hl)
  | _ => exact id

theorem Collects.live {sourceId channel unit : String} {x : Except Err Unit}
    (h : Collects J sourceId channel unit b x b') (hl : Live me b.processes) :
    Live me b'.processes := by
  cases h <;> exact hl

theorem Begins.live {c : TurnContext} {x : Except Err Unit} (h : Begins J me c b x b')
    (hl : Live me b.processes) : Live me b'.processes := by
  cases h with
  | waits _ _ _ _ _ _ _ hw => exact hw.live hl
  | _ => exact hl

theorem Finishes.live {R : String} {x : Except Err Unit} (h : Finishes J R b x b')
    (hl : Live me b.processes) : Live me b'.processes := by
  cases h <;> exact hl

/-- The runtime lives on. -/
theorem answers_live {q : Ask} {a : q.Answer} (h : answers J me q b a b')
    (hl : Live me b.processes) : Live me b'.processes := by
  cases q with
  | collect => exact Collects.live h hl
  | beginTurn => exact Begins.live h hl
  | endTurn => exact Finishes.live h hl
  | _ =>
    cases (show b' = b from h)
    exact hl

/-! ## When a turn is admitted -/

/-- The service is there, has no context that clashes with this one, and is still there when
it answers. -/
structure Ready (J : Js) (c : TurnContext) (b b' : Box) : Prop where
  free : ∃ t, b.turns = some t ∧ t.accepting = true ∧ ∀ o ∈ t.contexts, c.clashes o = false
  stays : b'.listens = true
  complete : c.complete = true
  fits : (turnStartBody J c).utf8ByteSize ≤ maxBody

instance (c : TurnContext) : Decidable (Ready J c b b') :=
  decidable_of_iff ((b.turns.any fun t => t.accepting && t.contexts.all (!c.clashes ·)) = true ∧
      b'.listens = true ∧ c.complete = true ∧ (turnStartBody J c).utf8ByteSize ≤ maxBody)
    ⟨fun ⟨hfree, hstays, hc, hfits⟩ => ⟨by simpa [Option.any_eq_true] using hfree, hstays, hc, hfits⟩,
      fun h => ⟨by simpa [Option.any_eq_true] using h.free, h.stays, h.complete, h.fits⟩⟩

theorem received_fits {α : Type} {body : String} {x : Except (List Fault) α}
    (h : body.utf8ByteSize ≤ maxBody) : received body x = x := by
  rw [received, if_neg (Nat.not_lt.2 h)]

theorem validate_ok {ps : Processes} {c : TurnContext} {others : List TurnContext}
    (hc : c.complete = true) (hfree : ∀ o ∈ others, c.clashes o = false) (hl : Live c.owner ps) :
    validateTurnContext ps c others = .ok () := by
  have hactive : others.any (·.releaseId = c.releaseId) = false := by
    rw [List.any_eq_false]
    intro o ho hR
    have := hfree o ho
    simp_all [TurnContext.clashes]
  have hclash : others.any (c.clashes ·) = false := by
    rw [List.any_eq_false]
    intro o ho
    rw [hfree o ho]
    exact Bool.false_ne_true
  unfold validateTurnContext liveTurnOwner
  rw [hc, hactive, hclash, if_neg hl.1, hl.2]
  simp [Except.map, bind, Except.bind]

theorem start_ok {ps : Processes} {t : Turns} {c : TurnContext} (ha : t.accepting = true)
    (hc : c.complete = true) (hfree : ∀ o ∈ t.contexts, c.clashes o = false)
    (hl : Live c.owner ps) : ∃ t', t.start ps c = .ok t' := by
  unfold Turns.start
  rw [validate_ok hc hfree hl, ha]
  by_cases h : t.active.isSome = true
  · exact ⟨_, by simp [h, bind, Except.bind]; rfl⟩
  · exact ⟨_, by simp [h, bind, Except.bind]; rfl⟩

theorem Waits.admitted' {c : TurnContext} {x : Except Err Unit} (h : Waits me c b x b') :
    b'.listens = true → x = .ok () := by
  induction h with
  | move _ _ ih => exact ih
  | admitted => exact fun _ => rfl
  | stopping b t ht ha => exact fun hl => by simp [Box.listens, ht, ha] at hl
  | broken b m hn => exact fun hl => by simp [Box.listens, hn] at hl

theorem Ready.admitted {c : TurnContext} {x : Except Err Unit} (hr : Ready J c b b')
    (hl : Live c.owner b.processes) (h : Begins J me c b x b') : x = .ok () := by
  obtain ⟨t, ht, ha, hfree⟩ := hr.free
  cases h with
  | unreached m hno => simp [Box.listens, ht, ha] at hno
  | broken m => exact absurd hr.stays (by simp [Box.listens])
  | refused t' faults ht' hrec =>
    rw [ht] at ht'
    cases ht'
    obtain ⟨t', hstart⟩ := start_ok ha hr.complete hfree hl
    rw [received_fits hr.fits, hstart] at hrec
    cases hrec
  | admitted => rfl
  | waits _ _ _ _ _ _ _ hw => exact hw.admitted' hr.stays

/-- The service still has the context of the turn that ended, and stays. -/
structure Has (J : Js) (R : String) (b b' : Box) : Prop where
  active : ∃ t, b.turns = some t ∧ t.accepting = true ∧ t.active.any (·.releaseId = R) = true
  stays : b'.listens = true
  fits : (turnEndBody J R).utf8ByteSize ≤ maxBody

instance (R : String) : Decidable (Has J R b b') :=
  decidable_of_iff ((b.turns.any fun t => t.accepting && t.active.any (·.releaseId = R)) = true ∧
      b'.listens = true ∧ (turnEndBody J R).utf8ByteSize ≤ maxBody)
    ⟨fun ⟨hactive, hstays, hfits⟩ => ⟨by simpa [Option.any_eq_true] using hactive, hstays, hfits⟩,
      fun h => ⟨by simpa [Option.any_eq_true] using h.active, h.stays, h.fits⟩⟩

theorem Has.ended {R : String} {x : Except Err Unit} (hh : Has J R b b')
    (h : Finishes J R b x b') : x = .ok () := by
  obtain ⟨t, ht, ha, hactive⟩ := hh.active
  cases h with
  | unreached m hno => simp [Box.listens, ht, ha] at hno
  | broken m => exact absurd hh.stays (by simp [Box.listens])
  | refused t' faults ht' hrec =>
    rw [ht] at ht'
    cases ht'
    rw [received_fits hh.fits, Turns.finish, if_pos hactive] at hrec
    cases hrec
  | ended => rfl

end CarbonRuntime.Records
