import CarbonRuntime.Runtime.Process

/-!
# The hold of a channel that cannot be polled (runtime/poll.ts, runtime/channel-state.ts)

A channel's file under the store holds what the runtime and the channel's adapter know of it, a
block each, and every writer puts its own block over what the file has. The poll's block counts the
failures in a row. A poll reads it from the file each time and the loop keeps none of it, so a
restart between two polls changes nothing but what the channel declares: its threshold, and for mail
the transport that is polled.

A transport is kept with the block, and one that is not the declared one starts the count again
(poll.ts:121-123). So the count is the failures that were polled last, with no success between them,
under the transport of the last poll (`Counts`); every write on the store keeps that of every
channel (`exec_counts`), and a poll holds the channel exactly where the failures that end with it
reach the threshold declared then (`poll_holds`).
-/

open CarbonRuntime.Core CarbonRuntime.Stream

namespace CarbonRuntime.PollHold

open Pass (failuresBeforeHold inboundTransportOf)

/-- What a channel's file is named by: the channel's kind and its account. -/
abbrev Key := String × String

/-- The poll block. -/
structure Poll where
  inboundTransport : Option String := none
  lastAttemptAt : Option String := none
  lastSuccessAt : Option String := none
  lastItemCount : Option Nat := none
  consecutiveFailures : Nat := 0
  holding : Bool := false
  lastFault : Option (Fault × String) := none
deriving DecidableEq

/-- A channel's file: the block of the runtime and the one of the adapter. -/
structure ChannelState where
  account : String
  kind : String
  poll : Option Poll := none
  connection : Option String := none
deriving DecidableEq

def ChannelState.key (state : ChannelState) : Key := (state.kind, state.account)

/-- The channel files of a store. -/
abbrev Files := Table ChannelState.key

variable (J : Js)

/-- What refuses a channel a file, channel-state.ts:33-34. -/
def fileFaults (account kind : String) : List Fault :=
  componentFaults J "account" account ++ componentFaults J "channel kind" kind

/-- mirrors channel-state.ts:40-46: a file that cannot be named or read says nothing. -/
def readChannelState (files : Files) (account kind : String) : ChannelState :=
  if fileFaults J account kind = [] then
    (files.find (kind, account)).getD { account, kind }
  else { account, kind }

/-- mirrors channel-state.ts:51-57, over what the file has -/
def writeChannelState (files : Files) (account kind : String)
    (patch : ChannelState → ChannelState) : Except (List Fault) Files :=
  if fileFaults J account kind = [] then
    .ok (files.put { patch (readChannelState J files account kind) with account, kind })
  else .error (fileFaults J account kind)

/-- mirrors poll.ts:89-99 -/
def pollState (files : Files) (account kind : String) : Poll :=
  (readChannelState J files account kind).poll.getD {}

/-- mirrors poll.ts:101-115 -/
def recordPollSuccess (files : Files) (account kind at_ : String) (items : Nat)
    (inboundTransport : Option String) : Except (List Fault) Files :=
  let previous := pollState J files account kind
  writeChannelState J files account kind fun state => { state with
    poll := some { previous with
      inboundTransport := inboundTransport <|> previous.inboundTransport
      lastAttemptAt := some at_, lastSuccessAt := some at_, lastItemCount := some items
      consecutiveFailures := 0, holding := false, lastFault := none } }

/-- The block a failure leaves, poll.ts:121-134. -/
def failed (previous : Poll) (at_ : String) (cause : Fault) (threshold : Nat)
    (inboundTransport : Option String) : Poll :=
  let sameTransport := inboundTransport.isNone || previous.inboundTransport == inboundTransport
  let consecutive := (if sameTransport then previous.consecutiveFailures else 0) + 1
  { previous with
    inboundTransport := inboundTransport <|> previous.inboundTransport
    lastAttemptAt := some at_, consecutiveFailures := consecutive
    holding := decide (threshold ≤ consecutive), lastFault := some (cause, at_) }

/-- mirrors poll.ts:119-137 -/
def recordPollFailure (files : Files) (account kind at_ : String) (cause : Fault) (threshold : Nat)
    (inboundTransport : Option String) : Except (List Fault) (Poll × Files) :=
  let poll := failed (pollState J files account kind) at_ cause threshold inboundTransport
  (writeChannelState J files account kind fun state => { state with poll := some poll }).map
    fun files => (poll, files)

/-- What asking the adapter comes to. -/
inductive Outcome
  /-- The adapter exports no `poll`. -/
  | unpolled
  | items (n : Nat)
  | threw (cause : Fault)
deriving DecidableEq

/-- What a poll reports. -/
structure Polled where
  polled : Bool
  holding : Bool := false
  failures : Nat := 0
  fault : Option Fault := none
deriving DecidableEq

/-- mirrors loop.ts:1010-1048, with the outcome of `adapter.poll` given -/
def poll (files : Files) (c : Channel) (at_ : String) :
    Outcome → Except (List Fault) (Polled × Files)
  | .unpolled => .ok ({ polled := false }, files)
  | .threw cause =>
    (recordPollFailure J files c.account c.kind at_ cause (failuresBeforeHold c)
      (inboundTransportOf c)).map fun (state, files) =>
        ({ polled := true, holding := state.holding, failures := state.consecutiveFailures
           fault := some cause }, files)
  | .items n =>
    (recordPollSuccess J files c.account c.kind at_ n (inboundTransportOf c)).map fun files =>
      ({ polled := true }, files)

/-- What happens to the channel files of a store. -/
inductive Op
  /-- A channel is polled as it is declared then. -/
  | poll (c : Channel) (at_ : String) (outcome : Outcome)
  /-- An adapter writes its block, adapters/whatsapp/channel-state.ts:59-69. -/
  | connection (account kind state : String)
  | restart

/-- What a write leaves; one that is refused leaves everything. -/
def exec (files : Files) : Op → Files
  | .poll c at_ outcome =>
    match poll J files c at_ outcome with
    | .ok (_, files') => files'
    | .error _ => files
  | .connection account kind state =>
    match writeChannelState J files account kind fun s => { s with connection := some state } with
    | .ok files' => files'
    | .error _ => files
  | .restart => files

/-! ## The failures in a row -/

/-- A poll that was answered or failed, under the transport it was declared with. -/
structure Event where
  transport : Option String
  failure : Bool
deriving DecidableEq

def Outcome.failure : Outcome → Option Bool
  | .unpolled => none
  | .items _ => some false
  | .threw _ => some true

/-- What a step is in the history of a channel. -/
def eventOf (k : Key) : Op → Option Event
  | .poll c _ outcome =>
    if (c.kind, c.account) = k then
      outcome.failure.map fun failure => { transport := inboundTransportOf c, failure }
    else none
  | .connection _ _ _ => none
  | .restart => none

/-- The failed polls at the end of a history, newest first, that were all under one transport. -/
def failedRun (transport : Option String) (history : List Event) : Nat :=
  (history.takeWhile fun e => e.failure && e.transport == transport).length

/-- The block stands for the history: it names the transport of the last poll and counts the failures
at the end that were under it. -/
def Counts (kind : String) (p : Poll) (history : List Event) : Prop :=
  (kind ≠ "email" → ∀ e ∈ history, e.transport = none) ∧
    match history with
    | [] => p.inboundTransport = none ∧ p.consecutiveFailures = 0
    | e :: _ => p.inboundTransport = e.transport ∧
      p.consecutiveFailures = failedRun e.transport history

/-- The history of a channel after so many steps, newest first. -/
def historyOf (earlier : Key → List Event) (ops : List Op) (k : Key) : List Event :=
  (ops.filterMap (eventOf k)).reverse ++ earlier k

variable {J} {files files' : Files} {account kind : String} {k : Key} {p : Poll}
  {history : List Event} {t : Option String} {c : Channel}

theorem inboundTransportOf_none (h : inboundTransportOf c = none) : c.kind ≠ "email" := by
  intro he
  rw [inboundTransportOf, if_pos he] at h
  cases h

theorem failedRun_cons (t : Option String) (history : List Event) :
    failedRun t ({ transport := t, failure := true } :: history) = failedRun t history + 1 := by
  simp [failedRun]

theorem failedRun_other {e : Event} (h : e.transport ≠ t) : failedRun t (e :: history) = 0 := by
  simp [failedRun, h]

/-- Where no transport is declared none is kept. -/
theorem Counts.transport_none (h : Counts kind p history) (hk : kind ≠ "email") :
    p.inboundTransport = none := by
  obtain ⟨hall, hp⟩ := h
  cases history with
  | nil => exact hp.1
  | cons e history => exact hp.1.trans (hall hk e (by simp))

/-- One more failure is counted to those before it where it is under their transport, and starts the
count again where it is not. -/
theorem Counts.failed (h : Counts c.kind p history) (at_ : String) (cause : Fault) (n : Nat) :
    (PollHold.failed p at_ cause n (inboundTransportOf c)).consecutiveFailures =
        failedRun (inboundTransportOf c) history + 1 ∧
      Counts c.kind (PollHold.failed p at_ cause n (inboundTransportOf c))
        ({ transport := inboundTransportOf c, failure := true } :: history) := by
  have htr : (inboundTransportOf c <|> p.inboundTransport) = inboundTransportOf c := by
    cases ht : inboundTransportOf c with
    | none => simpa using h.transport_none (inboundTransportOf_none ht)
    | some t => rfl
  have hsame : ((inboundTransportOf c).isNone || p.inboundTransport == inboundTransportOf c) =
      (p.inboundTransport == inboundTransportOf c) := by
    cases ht : inboundTransportOf c with
    | none => simp [h.transport_none (inboundTransportOf_none ht)]
    | some t => rfl
  have hcount : (PollHold.failed p at_ cause n (inboundTransportOf c)).consecutiveFailures =
      failedRun (inboundTransportOf c) history + 1 := by
    simp only [PollHold.failed, hsame]
    obtain ⟨-, hp⟩ := h
    cases history with
    | nil => simp [hp.2, failedRun]
    | cons e history =>
      by_cases he : e.transport = inboundTransportOf c
      · simp [hp.1, hp.2, he]
      · simp [hp.1, he, failedRun_other he]
  refine ⟨hcount, fun hk => ?_, htr, ?_⟩
  · intro e he
    rcases List.mem_cons.1 he with rfl | he
    · exact if_neg hk
    · exact h.1 hk e he
  · rw [hcount, failedRun_cons]

/-! ## The files -/

/-- Something that goes well and is then made something of. -/
theorem ok_of_map {ε α β : Type} {x : Except ε α} {f : α → β} {b : β} (h : x.map f = .ok b) :
    ∃ a, x = .ok a ∧ f a = b := by
  cases x with
  | error e => cases h
  | ok a => exact ⟨a, rfl, Except.ok.inj h⟩

theorem readChannelState_put {state : ChannelState} (hn : fileFaults J k.2 k.1 = []) :
    readChannelState J (files.put state) k.2 k.1 =
      if k = state.key then state else readChannelState J files k.2 k.1 := by
  rw [readChannelState, readChannelState, if_pos hn, if_pos hn, Table.find_put]
  split <;> rfl

/-- What a write that is taken leaves in a channel's file: the patch over the file it is of. -/
theorem readChannelState_write {patch : ChannelState → ChannelState} (hn : fileFaults J k.2 k.1 = [])
    (h : writeChannelState J files account kind patch = .ok files') :
    fileFaults J account kind = [] ∧ readChannelState J files' k.2 k.1 =
      if k = (kind, account) then
        { patch (readChannelState J files account kind) with account, kind }
      else readChannelState J files k.2 k.1 := by
  unfold writeChannelState at h
  split at h
  · rename_i hf
    obtain rfl := Except.ok.inj h
    exact ⟨hf, readChannelState_put hn⟩
  · cases h

/-- What a poll leaves of the channel's block. -/
def blockAfter (p : Poll) (c : Channel) (at_ : String) : Outcome → Poll
  | .unpolled => p
  | .items n =>
    { p with
      inboundTransport := inboundTransportOf c <|> p.inboundTransport
      lastAttemptAt := some at_, lastSuccessAt := some at_, lastItemCount := some n
      consecutiveFailures := 0, holding := false, lastFault := none }
  | .threw cause => failed p at_ cause (failuresBeforeHold c) (inboundTransportOf c)

theorem Counts.after (h : Counts c.kind p history) (at_ : String) (outcome : Outcome) :
    Counts c.kind (blockAfter p c at_ outcome)
      ((outcome.failure.map fun failure =>
        { transport := inboundTransportOf c, failure : Event }).toList ++ history) := by
  cases outcome with
  | unpolled => exact h
  | items n =>
    refine ⟨fun hk => ?_, ?_, rfl⟩
    · intro e he
      rcases List.mem_cons.1 he with rfl | he
      · exact if_neg hk
      · exact h.1 hk e he
    · cases ht : inboundTransportOf c with
      | none => simpa [blockAfter, ht] using h.transport_none (inboundTransportOf_none ht)
      | some t => simp [blockAfter, ht]
  | threw cause => exact (h.failed at_ cause _).2

/-- What a poll that is reported leaves in the files. -/
theorem poll_state {at_ : String} {outcome : Outcome} {res : Polled}
    (hn : fileFaults J k.2 k.1 = []) (h : poll J files c at_ outcome = .ok (res, files')) :
    pollState J files' k.2 k.1 =
      if k = (c.kind, c.account) then blockAfter (pollState J files k.2 k.1) c at_ outcome
      else pollState J files k.2 k.1 := by
  cases outcome with
  | unpolled =>
    obtain ⟨rfl, rfl⟩ := Prod.mk.inj (Except.ok.inj h)
    split <;> rfl
  | items n =>
    simp only [poll, recordPollSuccess] at h
    obtain ⟨files₁, hw, he⟩ := ok_of_map h
    obtain ⟨-, rfl⟩ := Prod.mk.inj he
    rw [pollState, (readChannelState_write hn hw).2]
    split
    · rename_i hk
      rw [hk]
      rfl
    · rfl
  | threw cause =>
    simp only [poll, recordPollFailure] at h
    obtain ⟨⟨state, files₁⟩, hm, he⟩ := ok_of_map h
    obtain ⟨-, rfl⟩ := Prod.mk.inj he
    obtain ⟨files₂, hw, he⟩ := ok_of_map hm
    obtain ⟨-, rfl⟩ := Prod.mk.inj he
    rw [pollState, (readChannelState_write hn hw).2]
    split
    · rename_i hk
      rw [hk]
      rfl
    · rfl

/-! ## One step, and a run -/

/-- Every step keeps what a channel's block stands for, with what the step adds to the channel's
history. -/
theorem exec_counts (op : Op) (hn : fileFaults J k.2 k.1 = [])
    (h : Counts k.1 (pollState J files k.2 k.1) history) :
    Counts k.1 (pollState J (exec J files op) k.2 k.1) ((eventOf k op).toList ++ history) := by
  cases op with
  | restart => exact h
  | connection account kind state =>
    rw [exec]
    split
    · rename_i files' hw
      rw [pollState, (readChannelState_write hn hw).2]
      split
      · rename_i hk
        rw [hk] at h ⊢
        exact h
      · exact h
    · exact h
  | poll c at_ outcome =>
    rw [exec]
    by_cases hk : (c.kind, c.account) = k
    · subst hk
      cases hp : poll J files c at_ outcome with
      | error faults =>
        -- a poll whose file cannot be named is not reported
        exfalso
        cases outcome with
        | unpolled => cases hp
        | items n => simp [poll, recordPollSuccess, writeChannelState, hn, Except.map] at hp
        | threw cause => simp [poll, recordPollFailure, writeChannelState, hn, Except.map] at hp
      | ok r =>
        obtain ⟨res, files'⟩ := r
        dsimp only
        rw [poll_state hn hp, if_pos rfl, eventOf, if_pos rfl]
        exact h.after at_ outcome
    · rw [eventOf, if_neg hk]
      cases hp : poll J files c at_ outcome with
      | error faults => exact h
      | ok r =>
        obtain ⟨res, files'⟩ := r
        dsimp only
        rw [poll_state hn hp, if_neg (Ne.symm hk)]
        exact h

theorem run_counts (ops : List Op) (hn : fileFaults J k.2 k.1 = []) {earlier : Key → List Event}
    (h : Counts k.1 (pollState J files k.2 k.1) (earlier k)) :
    Counts k.1 (pollState J (ops.foldl (exec J) files) k.2 k.1) (historyOf earlier ops k) := by
  induction ops generalizing files earlier with
  | nil => simpa [historyOf] using h
  | cons op ops ih =>
    have := @ih (exec J files op) (fun k => (eventOf k op).toList ++ earlier k)
      (exec_counts op hn h)
    rw [List.foldl_cons]
    cases he : eventOf k op with
    | none => simpa [historyOf, he] using this
    | some e => simpa [historyOf, he] using this

/-- After any polls, writes and restarts, each poll with the channel as it is declared then: a poll
reports the channel held exactly where it failed and the failed polls that end with it, all under
the transport declared now and with no success between them, reach the threshold declared now; and
it leaves the blocks of the other channels. -/
theorem poll_holds (earlier : Key → List Event)
    (h : ∀ k : Key, Counts k.1 (pollState J files k.2 k.1) (earlier k)) (ops : List Op) (c : Channel)
    (at_ : String) (outcome : Outcome) (res : Polled) (files' : Files)
    (hp : poll J (ops.foldl (exec J) files) c at_ outcome = .ok (res, files')) :
    (res.holding = true ↔ (∃ cause, outcome = .threw cause) ∧
      failuresBeforeHold c ≤ failedRun (inboundTransportOf c)
        ({ transport := inboundTransportOf c, failure := true } ::
          historyOf earlier ops (c.kind, c.account))) ∧
    ∀ k : Key, k ≠ (c.kind, c.account) →
      pollState J files' k.2 k.1 = pollState J (ops.foldl (exec J) files) k.2 k.1 := by
  constructor
  · cases outcome with
    | unpolled =>
      obtain ⟨rfl, -⟩ := Prod.mk.inj (Except.ok.inj hp)
      simp
    | items n =>
      obtain ⟨files₁, -, he⟩ := ok_of_map hp
      obtain ⟨rfl, -⟩ := Prod.mk.inj he
      simp
    | threw cause =>
      obtain ⟨⟨state, files₁⟩, hm, he⟩ := ok_of_map hp
      obtain ⟨rfl, -⟩ := Prod.mk.inj he
      obtain ⟨files₂, hw, he⟩ := ok_of_map hm
      obtain ⟨rfl, -⟩ := Prod.mk.inj he
      have hn : fileFaults J c.account c.kind = [] := by
        unfold writeChannelState at hw
        split at hw
        · assumption
        · cases hw
      have hcount := (run_counts (k := (c.kind, c.account)) ops hn (h _)).failed at_ cause
        (failuresBeforeHold c)
      rw [failedRun_cons, ← hcount.1]
      simp [failed]
  · intro k hk
    by_cases hn : fileFaults J k.2 k.1 = []
    · rw [poll_state hn hp, if_neg hk]
    · simp [pollState, readChannelState, hn]

/-! ## The pass's own count -/

/-- What the pass keeps of a block. -/
def forget (c : Channel) (p : Poll) : PollState :=
  { kind := c.kind, account := c.account, consecutiveFailures := p.consecutiveFailures
    holding := p.holding, inboundTransport := p.inboundTransport }

/-- The pass counts as the block does, and is held where the block says so. -/
theorem recordPollFailure_wp {L : Loop} {s : World} {X : Err → World → Prop} (at_ : String)
    (cause : Fault) (h : Pass.pollState s.disk L.channel = forget L.channel p) :
    Prog.wp (Store.plain L) (Pass.recordPollFailure L)
      (fun holding s' => holding = (failed p at_ cause (failuresBeforeHold L.channel)
          (inboundTransportOf L.channel)).holding ∧
        Pass.pollState s'.disk L.channel = forget L.channel (failed p at_ cause
          (failuresBeforeHold L.channel) (inboundTransportOf L.channel))) X s := by
  simp only [Pass.recordPollFailure, Prog.wp_bind, Store.wp_fetch, Store.wp_write, Prog.wp_pure]
  refine ⟨trivial, fun _ => ?_⟩
  rw [h]
  constructor
  · rfl
  · exact congrArg (Option.getD · _) (Table.find_put_self s.disk.polls _)

/-! ## The third failure -/

def mail : Channel := { kind := "email", account := "agent@example.org" }

def refused : Fault := ⟨"CHANNEL_POLL_FAILED", "email:agent@example.org", "no answer", "read the fault"⟩

/-- Two failures, over the api before a restart and over imap after it, and one more. -/
def failures : List Op :=
  [.poll { mail with inbound := some "agentmail" } "1" (.threw refused), .restart,
    .poll mail "2" (.threw refused), .poll mail "3" (.threw refused)]

theorem counts_empty (k : Key) : Counts k.1 (pollState plainJs Table.empty k.2 k.1) [] := by
  rw [pollState, readChannelState]
  split <;> exact ⟨by simp, rfl, rfl⟩

theorem poll_holds_third : ∃ res files',
    poll plainJs (failures.foldl (exec plainJs) Table.empty) mail "4" (.threw refused) =
      .ok (res, files') ∧
    res.holding = true ∧ (res.holding = true ↔ (∃ cause, Outcome.threw refused = .threw cause) ∧
      failuresBeforeHold mail ≤ failedRun (inboundTransportOf mail)
        ({ transport := inboundTransportOf mail, failure := true } ::
          historyOf (fun _ => []) failures (mail.kind, mail.account))) := by
  cases h : poll plainJs (failures.foldl (exec plainJs) Table.empty) mail "4" (.threw refused) with
  | error faults =>
    have hok : (poll plainJs (failures.foldl (exec plainJs) Table.empty) mail "4"
      (.threw refused)).isOk = true := by decide +kernel
    rw [h] at hok
    cases hok
  | ok r =>
    obtain ⟨res, files'⟩ := r
    have hiff := (poll_holds (J := plainJs) (fun _ => []) counts_empty failures mail "4"
      (.threw refused) res files' h).1
    exact ⟨res, files', rfl, hiff.2 ⟨⟨refused, rfl⟩, by decide +kernel⟩, hiff⟩

end CarbonRuntime.PollHold
