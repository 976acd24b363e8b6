import CarbonRuntime.Jobs.Claims

/-!
# An action that was reconciled cannot be tried again

`action_begin` adds an event row of kind `intent` for the job, the step and the source
(records/job-tools.ts:197), and the event rows of a SOP are unique in these
(records/migrate.ts:196). No row is ever taken away, so once a claim of a source was made no
other of the same job, step and source can be: not when `action_reconcile_absent` cleared it,
although the step is legal again and nothing is pending.

`retry_refused`: wherever the claim would allow it, the second claim runs into the unique key.

Counterexample: a quote is claimed, its process exits, the claim is reconciled; the reply that
asked for the quote cannot claim it again.
-/

open CarbonRuntime.Core CarbonRuntime.Stream

namespace CarbonRuntime.Bugs.SpentRetry

open Records Jobs

section Retry

variable {s s₁ s₂ : St} {ps ps' : Processes} {job step cause operation operation' : String}
  {owner owner' : Owner} {m m' : Mint} {ops : List Op}

/-- Event rows stay. -/
theorem run_events (hi : Jobs.Inv s) (h : jobs.Run s ops s₁)
    {k : String × String × String × EventKind} (hk : (s.db.events.find k).isSome) : (s₁.db.events.find k).isSome := by
  induction h with
  | nil => exact hk
  | cons hst _ ih => exact ih (inv_step hi hst) (events_step hi hst hk)

/-- The step is the operation's, legal from where the job is, with nothing pending on its track,
and the process that claims is there. -/
structure Open (ps : Processes) (db : Db) (job step operation : String) (owner : Owner) : Prop where
  args : isUuid job = true ∧ blank operation = false ∧ liveTurnOwner ps owner = .ok true
  legal : ∃ row sop event, db.readJob job = .ok row ∧ db.definitionFor row = .ok sop ∧
    stepOf sop step = .ok event ∧ event.kind = .intent ∧ mappedAction event operation = true ∧
    legality event row.positions = [] ∧ row.pending.truthy (event.claimKey step) = false

/-- A claim leaves its event row. -/
theorem begin_event (h : s.exec (.begin ps job step cause operation owner m) = .ok s₁) :
    isSourceId cause = true ∧ (s₁.db.events.find (uuid job, cause, step, .intent)).isSome := by
  simp only [St.exec, ok_bind] at h
  obtain ⟨_, -, ⟨db', claim⟩, hclaim, hs⟩ := h
  obtain ⟨row, sop, event, -, hcause, hrow, -, -, -, -, -, -, rfl⟩ := actionBegin_ok hclaim
  obtain ⟨-, hid⟩ := Db.readJob_ok hrow
  cases hs
  refine ⟨hcause, ?_⟩
  rw [← hid]
  exact Option.isSome_iff_exists.2 ⟨_, Table.find_put_self s.db.events
    { job := row.id, event := step, kind := .intent, sourceId := cause }⟩

/-- A row whose key is taken is refused. -/
theorem event_taken {db : Db} {r : EventRow} (h : (db.events.find r.key).isSome) :
    db.addEvent r = .error [eventTaken] := by
  obtain ⟨old, hold⟩ := Option.isSome_iff_exists.1 h
  rw [Db.addEvent, hold]
  rfl

/-- After a claim of a source no other one of its job, step and source is made, whatever happened
since and however free the way is: the event row of the first is there. -/
theorem retry_refused (hr : jobs.Reachable s)
    (hbegin : s.exec (.begin ps job step cause operation owner m) = .ok s₁)
    (hrun : jobs.Run s₁ ops s₂) (hopen : Open ps' s₂.db job step operation' owner') :
    actionBegin ps' s₂.db job step cause operation' owner' m' = .error [eventTaken] := by
  have hi := inv_reachable hr
  obtain ⟨hcause, hfirst⟩ := begin_event hbegin
  have htaken := run_events (inv_step hi hbegin) hrun hfirst
  obtain ⟨row, sop, event, hrow, hsop, hevent, hkind, hmapped, hlegal, hfree⟩ := hopen.legal
  obtain ⟨hjob, hblank, hlive⟩ := hopen.args
  obtain ⟨-, hid⟩ := Db.readJob_ok hrow
  rw [← hid] at htaken
  have hrefused : ∀ row₁ : Job, (s₂.db.putJob row₁).addEvent
      { job := row.id, event := step, kind := .intent, sourceId := cause } =
        .error [eventTaken] := fun row₁ => event_taken htaken
  simp only [actionBegin, check, hjob, hcause, hlive, hblank, hrow, hsop, hevent, hkind, hmapped,
    hlegal, hfree, bind, Except.bind, hrefused, if_true, decide_true, Bool.not_false, Bool.and_self]

end Retry

/-! ## A quote that never went out -/

open OneJob

/-- The job, before its quote is claimed. -/
def opened : St := (({} : St).run (claiming.take 2)).toOption.getD {}

/-- The process that claimed the quote is gone, and the client's system shows none. -/
def reconciling : List Op :=
  [.reconcile exited (drawn 1).id "send-quote" "read-1" (drawn 2).id ⟨"absent", "ev-1"⟩]

def reconciled : St := (claimed.run reconciling).toOption.getD {}

theorem opened_reachable : jobs.Reachable opened :=
  ⟨{}, claiming.take 2, rfl, run_runs (run_take claimed_ran {} 2)⟩

theorem claimed_begun :
    opened.exec (.begin running (drawn 1).id "send-quote" "req-1" "carbon-send" owner (drawn 2)) =
      .ok claimed := run_step claimed_ran {} (n := 2) (by decide)

/-- The claim is reconciled, and refused when it is made again. -/
theorem reconciled_refused : claimed.run reconciling = .ok reconciled ∧
    actionBegin running reconciled.db (drawn 1).id "send-quote" "req-1" "carbon-send" owner
        (drawn 3) = .error [eventTaken] := by decide +kernel

/-- Nothing stands in the way of the quote. -/
theorem reconciled_open :
    Open running reconciled.db (drawn 1).id "send-quote" "carbon-send" owner := by
  refine ⟨by decide +kernel, (reconciled.db.jobs.find (drawn 1).id).getD
    ⟨"", "", [], "", "", Table.empty, Table.empty, Table.empty⟩, tow "1" false,
    { sendQuote with retired := false }, ?_⟩
  decide +kernel

/-- The quote's claim was reconciled, and the reply cannot claim it again. -/
theorem retry_refused_quote :
    actionBegin running reconciled.db (drawn 1).id "send-quote" "req-1" "carbon-send" owner
        (drawn 3) = .error [eventTaken] := by
  exact retry_refused opened_reachable claimed_begun (run_runs reconciled_refused.1) reconciled_open

/-- **Counterexample**: the claim is made, its process exits and it is reconciled; the step is
legal, nothing is pending, and the same claim is refused. -/
theorem retry_taken :
    jobs.Reachable opened ∧
      opened.exec (.begin running (drawn 1).id "send-quote" "req-1" "carbon-send" owner (drawn 2)) =
        .ok claimed ∧
      jobs.Run claimed reconciling reconciled ∧
      Open running reconciled.db (drawn 1).id "send-quote" "carbon-send" owner ∧
      actionBegin running reconciled.db (drawn 1).id "send-quote" "req-1" "carbon-send" owner
        (drawn 3) = .error [eventTaken] :=
  ⟨opened_reachable, claimed_begun, run_runs reconciled_refused.1, reconciled_open,
    reconciled_refused.2⟩

end CarbonRuntime.Bugs.SpentRetry
