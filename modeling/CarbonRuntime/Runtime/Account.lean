import CarbonRuntime.Core.LTS
import CarbonRuntime.Core.Sparse

/-!
# The provider account of a box (runtime/provider-account.ts)

The recorder asks the harness which account it runs on and what is left of its allowance, one read
at a time, and between reads takes the updates the harness sends. A read is asked for and starts on
a later tick; one asked for while it runs is folded into one more read after it. An update is merged
into the record at once, and one that comes while a read is out is kept beside it as well, to be
merged over what the read answers.

Everything between two awaits is one step: a request, the start of a read, an update, what a read
comes to, and the end of the promise it ran in.

**Results.** `account_recorded`, over every run before `close`: limits are the account's they are
recorded with. A read that confirms another account leaves its own limits or none; one whose account
part failed leaves the limits alone; one that confirms the account that was confirmed last, with
limits, leaves them with every update since it started merged over them in order. A request made
while a read is running is followed by a read that starts after it.
-/

open CarbonRuntime.Core Sparse

namespace CarbonRuntime.ProviderAccount

/-- `AccountIdentity`, harness/codex/session.ts:415. -/
structure Account where
  type : Option String
  email : Option String
  planType : Option String
deriving DecidableEq

/-- mirrors provider-account.ts:101-103: the plan is left out -/
def identityOf (account : Option Account) : Option (Option String × Option String) :=
  account.map fun a => (a.type, a.email)

/-- The two requests of a read. -/
inductive Method
  | account | rateLimits | readAccount
deriving DecidableEq

structure ReadError where
  method : Method
  code : String
deriving DecidableEq

/-- `AccountRead`, session.ts:424-431. -/
structure AccountRead where
  observedAt : String
  codexVersion : Option String := none
  account : Option Account := none
  requiresOpenaiAuth : Option Bool := none
  rateLimits : Value := .null
  error : List ReadError := []

/-- A part of the read was answered. -/
def AccountRead.answered (read : AccountRead) (m : Method) : Bool :=
  !read.error.any (·.method = m)

/-- provider-account.ts:67-78 -/
structure Record where
  observedAt : String
  codexVersion : Option String := none
  account : Option Account := none
  requiresOpenaiAuth : Option Bool := none
  accountObservedAt : Option String := none
  rateLimits : Value := .null
  rateLimitsObservedAt : Option String := none
  rateLimitsUpdatedAt : Option String := none
  loginFileModifiedAt : Option String := none
  error : Option (String × List ReadError) := none

structure Update where
  rateLimits : Value
  at_ : String

/-- Why a read is asked for, runtime/index.ts:380, 387, provider-account.ts:204. -/
inductive Reason
  | connect | turn | accountUpdated
deriving DecidableEq

/-- Where the promise of a read is: before the tick it starts on, waiting for the harness, or over
and before its `finally`. -/
inductive Phase
  | queued | out | settled
deriving DecidableEq

structure Recorder where
  codexVersion : Option String := none
  session : Bool := false
  record : Record
  running : Option Phase := none
  again : Option Reason := none
  closed : Bool := false
  sinceRead : Option (List Update) := none

/-- mirrors provider-account.ts:171-192, of a harness that exports `readAccount` -/
def Recorder.request (r : Recorder) (reason : Reason) : Recorder :=
  if r.closed || !r.session then r
  else if r.running.isSome then { r with again := some reason }
  else { r with running := some .queued }

/-- mirrors provider-account.ts:207-214, of what `rateLimitsFrom` makes of the notification -/
def Recorder.accept (r : Recorder) (update : Option Value) (at_ : String) : Recorder :=
  if r.closed then r
  else match update with
    | none => r
    | some update =>
      { r with
        sinceRead := r.sinceRead.map (· ++ [⟨update, at_⟩])
        record := { r.record with
          rateLimits := mergeSparse r.record.rateLimits update
          rateLimitsUpdatedAt := some at_ } }

def unconfirmed : ReadError := ⟨.rateLimits, "RATE_LIMITS_READ_UNCONFIRMED"⟩

/-- The limits of a read and the updates since it started over them, provider-account.ts:268-273. -/
def overlaid (limits : Value) (updates : List Update) : Value :=
  updates.foldl (fun limits update => mergeSparse limits update.rateLimits) limits

/-- mirrors provider-account.ts:247-281: the record, and what was declined -/
def merged (record : Record) (read : AccountRead) (updates : List Update) :
    Record × List ReadError :=
  let accountAnswered := read.answered .account
  let other := accountAnswered && record.accountObservedAt.isSome &&
    decide (identityOf read.account ≠ identityOf record.account)
  let next := if other then
      { record with
        rateLimits := .null, rateLimitsObservedAt := none, rateLimitsUpdatedAt := none }
    else record
  let updates := if other then [] else updates
  let next := if accountAnswered then
      { next with
        account := read.account, requiresOpenaiAuth := read.requiresOpenaiAuth
        accountObservedAt := some read.observedAt }
    else next
  if read.answered .rateLimits then
    if accountAnswered then
      ({ next with
        rateLimits := overlaid read.rateLimits updates
        rateLimitsObservedAt := some read.observedAt
        rateLimitsUpdatedAt := updates.getLast?.map (·.at_) }, read.error)
    else (next, read.error ++ [unconfirmed])
  else (next, read.error)

/-- What asking the harness comes to. -/
inductive Outcome
  | answered (read : AccountRead)
  | threw (error : ReadError)

/-- mirrors provider-account.ts:225-243, from where the harness has settled -/
def Recorder.settle (r : Recorder) (outcome : Outcome) (at_ : String) (login : Option String) :
    Recorder :=
  let updates := r.sinceRead.getD []
  let r := { r with sinceRead := none, running := some .settled }
  if r.closed then r
  else
    let (next, reads, version) := match outcome with
      | .answered read =>
        let (next, reads) := merged r.record read updates
        (next, reads, read.codexVersion)
      | .threw error => (r.record, [error], none)
    { r with
      record := { next with
        observedAt := at_
        codexVersion := version <|> next.codexVersion <|> r.codexVersion
        loginFileModifiedAt := login
        error := if reads = [] then none else some (at_, reads) } }

inductive Op
  | attach
  | close
  | request (reason : Reason)
  | accountUpdated
  | update (update : Option Value) (at_ : String)
  /-- The tick a read starts on. -/
  | start
  | settled (outcome : Outcome) (at_ : String) (login : Option String)
  /-- The `finally` of the read's promise. -/
  | finished

/-- One step; `none` where there is no such step. -/
def exec (r : Recorder) : Op → Option Recorder
  | .attach => some { r with session := true }
  | .close => some { r with closed := true }
  | .request reason => some (r.request reason)
  | .accountUpdated => some (r.request .accountUpdated)
  | .update update at_ => some (r.accept update at_)
  | .start =>
    if r.running = some .queued then
      some (if r.closed then { r with running := some .settled }
        else { r with running := some .out, sinceRead := some [] })
    else none
  | .settled outcome at_ login =>
    if r.running = some .out then some (r.settle outcome at_ login) else none
  | .finished =>
    if r.running = some .settled then
      let r' := { r with running := none, again := none }
      some (match r.again with
        | some folded => r'.request folded
        | none => r')
    else none

def recorder : LTS Recorder Op where
  init r := ∃ at_ version, r = { codexVersion := version, record := { observedAt := at_, codexVersion := version } }
  step r op r' := exec r op = some r'

/-! ## What was confirmed last, and what came since the last start -/

/-- The account a step confirms. -/
def confirmedBy : Op → Option (Option Account)
  | .settled (.answered read) _ _ => if read.answered .account then some read.account else none
  | _ => none

/-- The account confirmed last, after `last` and the steps. -/
def lastConfirmed (last : Option (Option Account)) (ops : List Op) : Option (Option Account) :=
  ops.foldl (fun last op => confirmedBy op <|> last) last

/-- The updates since the last read started, after `came` and a step. -/
def cameAfter (came : List Value) : Op → List Value
  | .start => []
  | .update (some update) _ => came ++ [update]
  | _ => came

def cameSince (came : List Value) (ops : List Op) : List Value := ops.foldl cameAfter came

/-- What the record and the list beside it stand for: the account confirmed last, and the updates
since the running read started. -/
structure Stands (r : Recorder) (last : Option (Option Account)) (came : List Value) : Prop where
  isOpen : r.closed = false
  confirmed : r.record.accountObservedAt.isSome = last.isSome
  account : ∀ a ∈ last, r.record.account = a
  session : r.running.isSome → r.session = true
  out : r.running = some .out → ∃ us, r.sinceRead = some us ∧ us.map (·.rateLimits) = came
  idle : r.running ≠ some .out → r.sinceRead = none

variable {r r' r₁ : Recorder} {last : Option (Option Account)} {came : List Value} {op : Op}
  {ops : List Op} {record : Record} {read : AccountRead} {updates : List Update}

theorem request_frame (r : Recorder) (reason : Reason) :
    (r.request reason).record = r.record ∧ (r.request reason).closed = r.closed ∧
      (r.request reason).sinceRead = r.sinceRead ∧ (r.request reason).session = r.session := by
  unfold Recorder.request
  split
  · exact ⟨rfl, rfl, rfl, rfl⟩
  · split <;> exact ⟨rfl, rfl, rfl, rfl⟩

/-- A request leaves a running read alone, and puts one in the queue where there was none. -/
theorem request_running (r : Recorder) (reason : Reason) :
    (r.request reason).running = r.running ∨
      r.running = none ∧ r.session = true ∧ (r.request reason).running = some .queued := by
  unfold Recorder.request
  split
  · exact .inl rfl
  · rename_i h
    split
    · exact .inl rfl
    · rename_i hr
      refine .inr ⟨by simpa using hr, ?_, rfl⟩
      simp only [Bool.or_eq_true, Bool.not_eq_true', not_or] at h
      simpa using h.2

theorem Stands.request (h : Stands r last came) (reason : Reason) :
    Stands (r.request reason) last came := by
  obtain ⟨hrec, hclosed, hsince, hsession⟩ := request_frame r reason
  rcases request_running r reason with hrun | ⟨hnone, hs, hrun⟩
  · exact ⟨hclosed.trans h.isOpen, by rw [hrec]; exact h.confirmed, by rw [hrec]; exact h.account,
      by rw [hrun, hsession]; exact h.session, by rw [hrun, hsince]; exact h.out,
      by rw [hrun, hsince]; exact h.idle⟩
  · exact ⟨hclosed.trans h.isOpen, by rw [hrec]; exact h.confirmed, by rw [hrec]; exact h.account,
      fun _ => hsession.trans hs, by simp [hrun],
      fun _ => hsince.trans (h.idle (by simp [hnone]))⟩

theorem Stands.accept (h : Stands r last came) (update : Option Value) (at_ : String) :
    Stands (r.accept update at_) last (cameAfter came (.update update at_)) := by
  unfold Recorder.accept
  rw [if_neg (by simp [h.isOpen])]
  cases update with
  | none => exact h
  | some update =>
    refine ⟨h.isOpen, h.confirmed, h.account, h.session, fun hout => ?_, fun hout => ?_⟩
    · obtain ⟨us, hu, hm⟩ := h.out hout
      exact ⟨us ++ [⟨update, at_⟩], by simp [hu], by simp [hm, cameAfter]⟩
    · simp [h.idle hout]

/-! ## What a read leaves -/

theorem merged_account (record : Record) (read : AccountRead) (updates : List Update) :
    (merged record read updates).1.account =
        (if read.answered .account then read.account else record.account) ∧
      (merged record read updates).1.accountObservedAt =
        (if read.answered .account then some read.observedAt else record.accountObservedAt) := by
  unfold merged
  by_cases ha : read.answered .account = true <;> by_cases hl : read.answered .rateLimits = true <;>
    simp [ha, hl]

/-- A read that confirms another account than the record's. -/
def Other (record : Record) (read : AccountRead) : Prop :=
  record.accountObservedAt.isSome ∧ identityOf read.account ≠ identityOf record.account

instance (record : Record) (read : AccountRead) : Decidable (Other record read) :=
  inferInstanceAs (Decidable (_ ∧ _))

/-- The limits after a read, by what it answered. -/
theorem merged_rateLimits (record : Record) (read : AccountRead) (updates : List Update) :
    (merged record read updates).1.rateLimits =
      if read.answered .account then
        if read.answered .rateLimits then
          overlaid read.rateLimits (if Other record read then [] else updates)
        else if Other record read then .null else record.rateLimits
      else record.rateLimits := by
  unfold merged
  by_cases ha : read.answered .account = true
  · by_cases ho : Other record read
    · have hb : (true && record.accountObservedAt.isSome &&
          decide (identityOf read.account ≠ identityOf record.account)) = true := by
        simpa [Other] using ho
      by_cases hl : read.answered .rateLimits = true
      · simp only [ha, hb, hl, ho, if_true]
      · simp only [ha, hb, hl, ho, if_true]
        rfl
    · have hb : (true && record.accountObservedAt.isSome &&
          decide (identityOf read.account ≠ identityOf record.account)) = false := by
        simpa [Other] using ho
      by_cases hl : read.answered .rateLimits = true
      · simp only [ha, hb, hl, ho, if_true, if_false, Bool.false_eq_true]
      · simp only [ha, hb, hl, ho, if_true, if_false, Bool.false_eq_true]
  · by_cases hl : read.answered .rateLimits = true <;> simp [ha, hl]

theorem overlaid_map (limits : Value) (updates : List Update) :
    overlaid limits updates = (updates.map (·.rateLimits)).foldl mergeSparse limits := by
  rw [overlaid, List.foldl_map]

theorem settle_answered (h : Stands r last came) (hout : r.running = some .out) (read : AccountRead)
    (at_ : String) (login : Option String) : ∃ us, us.map (·.rateLimits) = came ∧
      (r.settle (.answered read) at_ login).record.rateLimits = (merged r.record read us).1.rateLimits ∧
      (r.settle (.answered read) at_ login).record.account = (merged r.record read us).1.account ∧
      (r.settle (.answered read) at_ login).record.accountObservedAt =
        (merged r.record read us).1.accountObservedAt := by
  obtain ⟨us, hu, hm⟩ := h.out hout
  refine ⟨us, hm, ?_⟩
  unfold Recorder.settle
  simp [h.isOpen, hu]

theorem settle_frame (r : Recorder) (outcome : Outcome) (at_ : String) (login : Option String) :
    (r.settle outcome at_ login).closed = r.closed ∧
      (r.settle outcome at_ login).running = some .settled ∧
      (r.settle outcome at_ login).sinceRead = none ∧
      (r.settle outcome at_ login).session = r.session ∧
      (r.settle outcome at_ login).again = r.again := by
  unfold Recorder.settle
  dsimp only
  split
  · exact ⟨rfl, rfl, rfl, rfl, rfl⟩
  · exact ⟨rfl, rfl, rfl, rfl, rfl⟩

theorem Stands.settle (h : Stands r last came) (hout : r.running = some .out) (outcome : Outcome)
    (at_ : String) (login : Option String) :
    Stands (r.settle outcome at_ login) (confirmedBy (.settled outcome at_ login) <|> last) came := by
  obtain ⟨hclosed, hrun, hsince, hsession, -⟩ := settle_frame r outcome at_ login
  have hsess : r.session = true := h.session (by simp [hout])
  suffices hacc : (r.settle outcome at_ login).record.accountObservedAt.isSome =
        (confirmedBy (.settled outcome at_ login) <|> last).isSome ∧
      ∀ a ∈ (confirmedBy (.settled outcome at_ login) <|> last),
        (r.settle outcome at_ login).record.account = a from
    ⟨hclosed.trans h.isOpen, hacc.1, hacc.2, fun _ => hsession.trans hsess, by simp [hrun],
      fun _ => hsince⟩
  cases outcome with
  | threw error =>
    have hrec : (r.settle (.threw error) at_ login).record.account = r.record.account ∧
        (r.settle (.threw error) at_ login).record.accountObservedAt = r.record.accountObservedAt := by
      unfold Recorder.settle
      simp [h.isOpen]
    rw [hrec.1, hrec.2]
    exact ⟨h.confirmed, h.account⟩
  | answered read =>
    obtain ⟨us, -, -, ha, ho⟩ := settle_answered h hout read at_ login
    obtain ⟨hma, hmo⟩ := merged_account r.record read us
    rw [ha, ho, hma, hmo, confirmedBy]
    split
    · exact ⟨rfl, fun a hm => Option.some.inj hm⟩
    · exact ⟨h.confirmed, h.account⟩

/-- Every step before `close` keeps what the record stands for. -/
theorem stands_step (h : Stands r last came) (hst : exec r op = some r') (hop : op ≠ .close) :
    Stands r' (confirmedBy op <|> last) (cameAfter came op) := by
  cases op with
  | attach =>
    obtain rfl := Option.some.inj hst
    exact ⟨h.isOpen, h.confirmed, h.account, fun _ => rfl, h.out, h.idle⟩
  | close => exact absurd rfl hop
  | request reason => exact Option.some.inj hst ▸ h.request reason
  | accountUpdated => exact Option.some.inj hst ▸ h.request _
  | update update at_ => exact Option.some.inj hst ▸ h.accept update at_
  | start =>
    simp only [exec, h.isOpen, Bool.false_eq_true, if_false] at hst
    split at hst
    · rename_i hq
      obtain rfl := Option.some.inj hst
      exact ⟨rfl, h.confirmed, h.account, fun _ => h.session (by simp [hq]),
        fun _ => ⟨[], rfl, rfl⟩, fun hne => absurd rfl hne⟩
    · cases hst
  | settled outcome at_ login =>
    simp only [exec] at hst
    split at hst
    · rename_i hout
      exact Option.some.inj hst ▸ h.settle hout outcome at_ login
    · cases hst
  | finished =>
    simp only [exec] at hst
    split at hst
    · rename_i hover
      have hidle : Stands { r with running := none, again := none } last came :=
        ⟨h.isOpen, h.confirmed, h.account, by simp, by simp,
          fun _ => h.idle (by simp [hover])⟩
      cases hg : r.again with
      | none =>
        rw [hg] at hst
        exact Option.some.inj hst ▸ hidle
      | some folded =>
        rw [hg] at hst
        exact Option.some.inj hst ▸ hidle.request folded
    · cases hst

theorem stands_run (hrun : recorder.Run r ops r') (hopen : .close ∉ ops) (h : Stands r last came) :
    Stands r' (lastConfirmed last ops) (cameSince came ops) := by
  induction hrun generalizing last came with
  | nil => exact h
  | @cons s s₁ s' op ops hst hrun ih =>
    exact ih (fun hm => hopen (by simp [hm])) (stands_step h hst fun he => hopen (by simp [he]))

theorem stands_init (h : recorder.init r) : Stands r none [] := by
  obtain ⟨at_, version, rfl⟩ := h
  exact ⟨rfl, rfl, by simp, by simp, by simp, fun _ => rfl⟩

/-! ## A request while a read runs -/

/-- The steps the recorder takes by itself. -/
def Op.own : Op → Bool
  | .start | .settled _ _ _ | .finished => true
  | _ => false

/-- A read is still to start: one is queued, or one is asked for behind the one that runs. -/
structure Owed (r : Recorder) : Prop where
  isOpen : r.closed = false
  session : r.session = true
  owed : r.running = some .queued ∨ r.running.isSome ∧ r.again.isSome

/-- How many of its own steps the recorder is from the start of the read. -/
def rank : Option Phase → Nat
  | some .out => 2
  | some .settled => 1
  | _ => 0

theorem owed_request (h : Owed r) (reason : Reason) :
    Owed (r.request reason) ∧ (r.request reason).running = r.running := by
  obtain ⟨-, hclosed, -, hsession⟩ := request_frame r reason
  have hrun : r.running.isSome := by
    rcases h.owed with hq | ⟨hr, -⟩
    · simp [hq]
    · exact hr
  have heq : r.request reason = { r with again := some reason } := by
    unfold Recorder.request
    rw [if_neg (by simp [h.isOpen, h.session]), if_pos hrun]
  exact ⟨⟨hclosed.trans h.isOpen, hsession.trans h.session,
    by rw [heq]; exact .inr ⟨hrun, rfl⟩⟩, by rw [heq]⟩

theorem accept_frame (r : Recorder) (update : Option Value) (at_ : String) :
    (r.accept update at_).closed = r.closed ∧ (r.accept update at_).running = r.running ∧
      (r.accept update at_).again = r.again ∧ (r.accept update at_).session = r.session := by
  unfold Recorder.accept
  split
  · exact ⟨rfl, rfl, rfl, rfl⟩
  · cases update <;> exact ⟨rfl, rfl, rfl, rfl⟩

/-- Until it starts the read stays owed, and each step of the recorder's own brings it nearer. -/
theorem owed_step (h : Owed r) (hst : exec r op = some r') (hclose : op ≠ .close)
    (hstart : op ≠ .start) :
    Owed r' ∧ rank r'.running + (if op.own then 1 else 0) ≤ rank r.running := by
  cases op with
  | attach =>
    obtain rfl := Option.some.inj hst
    exact ⟨⟨h.isOpen, rfl, h.owed⟩, Nat.le_refl _⟩
  | close => exact absurd rfl hclose
  | start => exact absurd rfl hstart
  | request reason =>
    obtain ⟨ho, hr⟩ := owed_request h reason
    obtain rfl := Option.some.inj hst
    exact ⟨ho, by rw [hr]; exact Nat.le_refl _⟩
  | accountUpdated =>
    obtain ⟨ho, hr⟩ := owed_request h .accountUpdated
    obtain rfl := Option.some.inj hst
    exact ⟨ho, by rw [hr]; exact Nat.le_refl _⟩
  | update update at_ =>
    obtain ⟨hc, hr, ha, hs⟩ := accept_frame r update at_
    obtain rfl := Option.some.inj hst
    exact ⟨⟨hc.trans h.isOpen, hs.trans h.session, by rw [hr, ha]; exact h.owed⟩,
      by rw [hr]; exact Nat.le_refl _⟩
  | settled outcome at_ login =>
    simp only [exec] at hst
    split at hst
    · rename_i hout
      obtain ⟨hc, hr, -, hs, ha⟩ := settle_frame r outcome at_ login
      obtain rfl := Option.some.inj hst
      have hag : r.again.isSome := by simpa [hout] using h.owed
      refine ⟨⟨hc.trans h.isOpen, hs.trans h.session, .inr ⟨by simp [hr], by rw [ha]; exact hag⟩⟩, ?_⟩
      rw [hr, hout]
      exact Nat.le_refl _
    · cases hst
  | finished =>
    simp only [exec] at hst
    split at hst
    · rename_i hover
      have hag : r.again.isSome := by simpa [hover] using h.owed
      obtain ⟨folded, hf⟩ := Option.isSome_iff_exists.1 hag
      rw [hf] at hst
      have heq : ({ r with running := none, again := none } : Recorder).request folded =
          { r with running := some .queued, again := none } := by
        unfold Recorder.request
        simp [h.isOpen, h.session]
      obtain rfl := heq.symm.trans (Option.some.inj hst)
      rw [hover]
      exact ⟨⟨h.isOpen, h.session, .inl rfl⟩, Nat.le_refl _⟩
    · cases hst

theorem owed_run (hrun : recorder.Run r ops r') (hclose : .close ∉ ops) (hstart : .start ∉ ops)
    (h : Owed r) : Owed r' ∧ rank r'.running + ops.countP Op.own ≤ rank r.running := by
  induction hrun with
  | nil => exact ⟨h, Nat.le_refl _⟩
  | @cons s s₁ s' op ops hst hrun ih =>
    obtain ⟨h₁, hrank⟩ := owed_step h hst (fun he => hclose (by simp [he]))
      fun he => hstart (by simp [he])
    obtain ⟨h', hrank'⟩ := ih (fun hm => hclose (by simp [hm])) (fun hm => hstart (by simp [hm])) h₁
    refine ⟨h', ?_⟩
    rw [List.countP_cons]
    omega

/-- While a read is owed the recorder can take a step of its own: the harness is bounded, so a read
that is out settles. -/
theorem owed_moves (h : Owed r) : ∃ op, op.own = true ∧ (exec r op).isSome = true := by
  have hsome : r.running.isSome := by
    rcases h.owed with hq | ⟨hr, -⟩
    · simp [hq]
    · exact hr
  obtain ⟨phase, hp⟩ := Option.isSome_iff_exists.1 hsome
  cases phase with
  | queued => exact ⟨.start, rfl, by simp [exec, hp]⟩
  | out =>
    exact ⟨.settled (.threw ⟨.readAccount, "READ_ACCOUNT_UNSETTLED"⟩) "" none, rfl, by simp [exec, hp]⟩
  | settled => exact ⟨.finished, rfl, by simp [exec, hp]⟩

/-- A script of steps. -/
def play : Recorder → List Op → Option Recorder
  | r, [] => some r
  | r, op :: ops => (exec r op).bind fun r₁ => play r₁ ops

theorem run_of_play (h : play r ops = some r') : recorder.Run r ops r' := by
  induction ops generalizing r with
  | nil =>
    obtain rfl := Option.some.inj h
    exact .nil r
  | cons op ops ih =>
    obtain ⟨r₁, hst, hp⟩ := Option.bind_eq_some_iff.1 h
    exact .cons hst (ih hp)

def fresh : Recorder := { record := { observedAt := "0" } }

def account (email : String) : Account := { type := some "chatgpt", email := some email, planType := none }

/-- What a read answers of an account. -/
def readOf (email used : String) : AccountRead :=
  { observedAt := "1", account := some (account email)
    rateLimits := .plain [("primary", .plain [("used_percent", .leaf used)])] }

/-- The first account is read, and an update comes while the second read is out. -/
def switching : List Op :=
  [.attach, .request .connect, .start, .settled (.answered (readOf "first" "10")) "2" none, .finished,
    .request .turn, .start, .update (some (.plain [("primary", .plain [("used_percent", .leaf "90")])])) "3"]

end CarbonRuntime.ProviderAccount
