import CarbonRuntime.Jobs.Claims

/-!
# A claim whose step is retired under it

`action_finish` records the claim's observation by `job_record`, which looks the step up among
the live ones of the installed definition (records/job-tools.ts:316, sop-definition.ts:117-122),
while `forwardOnly` lets a version retire a step that a claim is pending for. From then on the
finish is refused, and what remains is to reconcile the claim, as if its effect were absent.
The observation of another step may take the claim away altogether
(records/job-tools.ts:361-364), and a version that gives the step another first track lets two
claims of it stand side by side, of which `job_record` finds one only.

`claims_end`: where observations leave the claims of other steps alone, an open claim can be
reconciled once its process is gone; where the installed versions also keep its step live and no
second claim of the step is made, it can be finished.

Counterexample: a quote is claimed, and a version retires its step.
-/

open CarbonRuntime.Core CarbonRuntime.Stream

namespace CarbonRuntime.Bugs.RetiredClaim

open Records Jobs

section Runs

variable {s s' : St} {op : Op} {c : Claimed}

/-- An observation takes no open claim away, but on the claim's own receipt. -/
def Spared (s : St) (op : Op) : Prop := ∀ c, s.Claim c → s.Spares c op

/-- The steps of open claims stay live, and are claimed once at a time. -/
def Carried (s : St) (op : Op) : Prop :=
  (∀ c, s.Claim c → s.Carries c op ∧ s.Separate c op) ∧ s.Unshared op

/-- The runs in which observations spare the claims. -/
def spareJobs : LTS St Op where
  init := jobs.init
  step s op s' := jobs.step s op s' ∧ Spared s op

/-- Those in which the steps of the claims stay as they are, too. -/
def carryJobs : LTS St Op where
  init := jobs.init
  step s op s' := jobs.step s op s' ∧ Spared s op ∧ Carried s op

/-- An open claim of the state after was open before, or is the one just made. -/
theorem claim_before (h : s.exec op = .ok s') (hc : s'.Claim c) :
    s.Claim c ∨ ∃ ps job step cause operation owner m,
      op = .begin ps job step cause operation owner m ∧ c = ⟨job, step, operation, m.id⟩ := by
  obtain ⟨hclosed, hmade⟩ := exec_calls h
  exact (hmade c hc.1).imp_left fun hold => ⟨hold, fun hin => hc.2 (hclosed _ hin)⟩

/-- A claim that is reconciled is open no more. -/
theorem claim_reconciled {ps : Processes} {job step cause : String} {read : ReadReceipt}
    (h : s.exec (.reconcile ps job step cause c.actionId read) = .ok s') : ¬ s'.Claim c := by
  simp only [St.exec, ok_bind] at h
  obtain ⟨db', -, hret⟩ := h
  cases hret
  exact fun hc => hc.2 List.mem_cons_self

/-- Every open claim is kept. -/
def Keeps (s : St) : Prop := ∀ c, s.Claim c → s.Kept c ∧ isUuid c.job = true

theorem keeps_step (hi : Jobs.Inv s) (h : s.exec op = .ok s') (hk : Keeps s) (hs : Spared s op) :
    Keeps s' := by
  intro c hc
  rcases claim_before h hc with hold | ⟨ps, job, step, cause, operation, owner, m, rfl, rfl⟩
  · obtain ⟨hkept, hjob⟩ := hk c hold
    rcases kept_step hi h hkept (hs c hold) (hi.made c hold.1) with hkept' | ⟨_, _, _, _, _, rfl⟩
    · exact ⟨hkept', hjob⟩
    · exact absurd hc (claim_reconciled h)
  · obtain ⟨row, sop, event, -, -, -, -, hjob, hx⟩ := begin_holds h
    exact ⟨.inl ⟨_, _, hx, rfl, rfl, rfl, rfl⟩, hjob⟩

/-- Every open claim's step is live, and the claim the only one of its step on the job. -/
def Carries (s : St) : Prop := ∀ c, s.Claim c → s.Live c ∧ s.Alone c

theorem carries_step (hi : Jobs.Inv s) (hv : s.db.Channelled) (h : s.exec op = .ok s')
    (hk : Carries s) (hc : Carried s op) : Carries s' := by
  intro c hclaim
  rcases claim_before h hclaim with hold | ⟨ps, job, step, cause, operation, owner, m, rfl, rfl⟩
  · obtain ⟨hlive, halone⟩ := hk c hold
    obtain ⟨hcarry, hsep⟩ := hc.1 c hold
    exact ⟨live_step hi h hlive hcarry, alone_step hi h (hi.made c hold.1) halone hsep⟩
  · exact ⟨live_step hi h (begin_live hv h) trivial, begin_alone hi h hc.2⟩

theorem spare_reachable (h : spareJobs.Reachable s) : Jobs.Inv s ∧ Keeps s := by
  have hind : spareJobs.Inductive fun s => Jobs.Inv s ∧ Keeps s := by
    refine ⟨fun s hs => ?_, fun s op s' hI hst => ?_⟩
    · have hs : s = {} := hs
      subst hs
      exact ⟨inv_init, fun c hc => nomatch hc.1⟩
    · exact ⟨inv_step hI.1 hst.1, keeps_step hI.1 hst.1 hI.2 hst.2⟩
  exact hind.reachable s h

theorem carry_reachable (h : carryJobs.Reachable s) : Jobs.Inv s ∧ Keeps s ∧ Carries s := by
  have hind : carryJobs.Inductive fun s =>
      Jobs.Inv s ∧ s.db.Channelled ∧ Keeps s ∧ Carries s := by
    refine ⟨fun s hs => ?_, fun s op s' hI hst => ?_⟩
    · have hs : s = {} := hs
      subst hs
      refine ⟨inv_init, ?_, ?_, ?_⟩
      · exact fun d hd => nomatch hd
      · exact fun c hc => nomatch hc.1
      · exact fun c hc => nomatch hc.1
    · obtain ⟨hi, hv, hkeeps, hcarries⟩ := hI
      exact ⟨inv_step hi hst.1, channelled_step hv hst.1, keeps_step hi hst.1 hkeeps hst.2.1,
        carries_step hi hv hst.1 hcarries hst.2.2⟩
  obtain ⟨hi, -, hkeeps, hcarries⟩ := hind.reachable s h
  exact ⟨hi, hkeeps, hcarries⟩

/-- An open claim can be reconciled when its process is gone, unless its observation is recorded
already: so in every run in which observations spare the claims. Where their steps stay live and
are claimed once at a time, `action_finish` goes through, too: its receipt is written under any
source, or under the one there is, and once there is one its observation is recorded. -/
theorem claims_end :
    (spareJobs.Reachable s → ∀ c, s.Claim c → s.Noted c ∨ ∀ ps cause read, s.Exited ps c →
      isSourceId cause = true → read.effect = "absent" → isSourceId read.evidenceId = true →
      s.db.events.find (uuid c.job, cause, c.step, .reconciledAbsent) = none →
      ∃ db', actionReconcileAbsent ps s.db c.job c.step cause c.actionId read = .ok db') ∧
    (carryJobs.Reachable s → ∀ c, s.Claim c →
      (∀ cause, isSourceId cause = true →
        (∀ r, s.db.receipts.find c.actionId = some r → r.sourceId = cause) →
        ∃ db', finishReceipt s.db c.job c.step cause c.actionId = .ok db' ∧
          ({ s with db := db' } : St).Receipted c cause) ∧
      ∀ cause, s.Receipted c cause → ∀ verified m, ∃ db' rec,
        jobRecord s.db c.job c.step .observation cause verified m = .ok (db', rec)) := by
  constructor
  · intro hr c hc
    obtain ⟨hi, hkeeps⟩ := spare_reachable hr
    obtain ⟨hkept, hjob⟩ := hkeeps c hc
    rcases hkept with hp | ⟨hnoted, -⟩
    · exact .inr fun ps cause read hps hcause habsent hevidence hnew =>
        reconcile_goes hi hp hjob hcause hps ⟨habsent, hevidence⟩ hnew
    · exact .inl hnoted
  · intro hr c hc
    obtain ⟨hi, hkeeps, hcarries⟩ := carry_reachable hr
    obtain ⟨hkept, hjob⟩ := hkeeps c hc
    obtain ⟨hlive, halone⟩ := hcarries c hc
    have hmint := hi.made c hc.1
    refine ⟨fun cause hcause hsource => ?_, fun cause hreceipt verified m => ?_⟩
    · obtain ⟨db', hdb'⟩ := receipt_goes hi hkept hlive hjob hmint hcause hsource
      exact ⟨db', hdb', receipt_left hi hmint hsource hdb'⟩
    · obtain ⟨r, hfind, -, -, rfl⟩ := id hreceipt
      exact record_goes hi hkept hlive halone hjob (hi.receipts r (Table.find_mem hfind)).2.1 hreceipt
        verified m

end Runs

/-! ## A quote whose step is retired -/

open OneJob

def quoted : Claimed := ⟨(drawn 1).id, "send-quote", "carbon-send", (drawn 2).id⟩

/-- A step while there is no claim. -/
theorem unclaimed (s : St) (op : Op) (hmade : s.made = []) (hu : s.Unshared op) : Spared s op ∧ Carried s op := by
  have hno : ∀ c, ¬ s.Claim c := by
    rintro c ⟨hc, -⟩
    rw [hmade] at hc
    cases hc
  exact ⟨fun c hc => (hno c hc).elim, fun c hc => (hno c hc).elim, hu⟩

/-- The box after the first steps towards the claim. -/
def after (n : Nat) : St := (({} : St).run (claiming.take n)).toOption.getD {}

/-- Nothing is claimed before the quote, nor pending on the job that is opened. Of the quote once it
is claimed, its claim is open, and a read of the client's system can be noted. -/
theorem quoted_claimed :
    ((after 1).made = [] ∧ (after 2).made = [] ∧
      ((after 2).db.jobs.find (uuid (drawn 1).id)).map (·.pending.rows) = some []) ∧
    (quoted ∈ claimed.made ∧ quoted.actionId ∉ claimed.closed) ∧
    isSourceId "read-1" = true ∧ isSourceId "ev-1" = true ∧ isSourceId "carbon-send:1" = true ∧
    claimed.db.events.find (uuid quoted.job, "read-1", quoted.step, .reconciledAbsent) = none ∧
    claimed.db.receipts.find quoted.actionId = none := by decide +kernel

theorem opened_unshared :
    (after 2).Unshared (.begin running (drawn 1).id "send-quote" "req-1" "carbon-send" owner
      (drawn 2)) := by
  obtain ⟨⟨-, -, hnone⟩, -⟩ := quoted_claimed
  rintro sop x ⟨row, hrow, -, hx⟩
  rw [hrow] at hnone
  rw [show row.pending.rows = [] from Option.some.inj hnone] at hx
  cases hx

/-- The steps up to the claim are of the runs the theorem is about. -/
theorem claimed_carried : spareJobs.Reachable claimed ∧ carryJobs.Reachable claimed := by
  have h₁ : (after 0).exec (version "1" false) = .ok (after 1) :=
    run_step claimed_ran {} (by decide)
  have h₂ : (after 1).exec (.opens (some ⟨"rel-1", "unit-1", ["m1"], owner⟩) "tow" "unit-1" [] "m1"
      (drawn 1)) = .ok (after 2) := run_step claimed_ran {} (by decide)
  have h₃ : (after 2).exec (.begin running (drawn 1).id "send-quote" "req-1" "carbon-send" owner
      (drawn 2)) = .ok (after 3) := run_step claimed_ran {} (by decide)
  obtain ⟨hmade₁, hmade₂, -⟩ := quoted_claimed.1
  have hc₁ := unclaimed (after 0) (version "1" false) rfl trivial
  have hc₂ := unclaimed (after 1) (.opens (some ⟨"rel-1", "unit-1", ["m1"], owner⟩) "tow" "unit-1" []
    "m1" (drawn 1)) hmade₁ trivial
  have hc₃ := unclaimed (after 2) _ hmade₂ opened_unshared
  have hstart : ({} : St) = after 0 := rfl
  have hend : claimed = after 3 := rfl
  rw [hend]
  exact ⟨⟨after 0, claiming, hstart.symm,
      .cons ⟨h₁, hc₁.1⟩ (.cons ⟨h₂, hc₂.1⟩ (.cons ⟨h₃, hc₃.1⟩ (.nil _)))⟩,
    after 0, claiming, hstart.symm, .cons ⟨h₁, hc₁⟩ (.cons ⟨h₂, hc₂⟩ (.cons ⟨h₃, hc₃⟩ (.nil _)))⟩

/-- The quote can be finished, and can be reconciled when its process is gone. -/
theorem claims_end_quoted :
    (claimed.Noted quoted ∨ ∃ db', actionReconcileAbsent exited claimed.db quoted.job quoted.step
      "read-1" quoted.actionId ⟨"absent", "ev-1"⟩ = .ok db') ∧
    ∃ db', finishReceipt claimed.db quoted.job quoted.step "carbon-send:1" quoted.actionId =
      .ok db' := by
  obtain ⟨hclear, hfinish⟩ := claims_end (s := claimed)
  obtain ⟨hopen, hread, hevidence, hsource, hfresh, hnone⟩ := quoted_claimed.2
  have hexited : claimed.Exited exited quoted := fun _ _ owner _ _ _ => ⟨none, rfl, nofun⟩
  constructor
  · exact (hclear claimed_carried.1 quoted hopen).imp_right fun h =>
      h exited "read-1" ⟨"absent", "ev-1"⟩ hexited hread rfl hevidence hfresh
  · obtain ⟨db', hdb', -⟩ := (hfinish claimed_carried.2 quoted hopen).1 "carbon-send:1" hsource
      fun r hr => by
        rw [hnone] at hr
        cases hr
    exact ⟨db', hdb'⟩

/-- The version that retires the step. -/
def retired : St := (claimed.run [version "2" true]).toOption.getD {}

/-- The client cancels before it. -/
def cancelling : List Op :=
  [.collect "m2" "email" "unit-1",
    .record (drawn 1).id "client-cancels" .observation "m2" (.ok false) (drawn 3),
    version "2" true]

def cancelled : St := (claimed.run cancelling).toOption.getD {}

/-- The step is retired under the claim, and the job holds the version without it. -/
theorem retired_claimed : claimed.run [version "2" true] = .ok retired ∧
    (quoted ∈ retired.made ∧ quoted.actionId ∉ retired.closed) ∧
    (retired.db.readJob quoted.job >>= retired.db.definitionFor) = .ok (tow "2" true) ∧
    stepOf (tow "2" true) quoted.step = .error [stepInvalid (tow "2" true) "send-quote"] ∧
    actionReconcileAbsent running retired.db quoted.job quoted.step "read-1" quoted.actionId
      ⟨"absent", "ev-1"⟩ = .error [ownerActive "send-quote"] := by decide +kernel

-- A step that is retired is not begun again.
example : (retired.exec (.begin running (drawn 1).id "send-quote" "req-2" "carbon-send" owner
    (drawn 4))).toOption = none := by decide +kernel

/-- Where the client cancelled, the job has no pending action any more and the claim no receipt. -/
theorem cancelled_claimed : claimed.run cancelling = .ok cancelled ∧
    (quoted ∈ cancelled.made ∧ quoted.actionId ∉ cancelled.closed) ∧
    (cancelled.db.readJob quoted.job).map Job.actions = .ok [] ∧
    cancelled.db.receipts.find (uuid quoted.actionId) = none := by decide +kernel

/-- **Counterexample**: a version that is accepted retires the step of the quote, and whatever its
source no `action_finish` of the claim is recorded, while the process that made it is refused the
reconciliation; and where the client cancelled first neither call goes through, whatever it is
made with. -/
theorem claim_retired :
    jobs.Reachable claimed ∧ (jobs.Run claimed [version "2" true] retired ∧ retired.Claim quoted ∧
      (∀ cause verified m r,
        jobRecord retired.db quoted.job quoted.step .observation cause verified m ≠ .ok r) ∧
      actionReconcileAbsent running retired.db quoted.job quoted.step "read-1" quoted.actionId
        ⟨"absent", "ev-1"⟩ = .error [ownerActive "send-quote"]) ∧
    jobs.Run claimed cancelling cancelled ∧ cancelled.Claim quoted ∧
      (∀ cause db', finishReceipt cancelled.db quoted.job quoted.step cause quoted.actionId ≠ .ok db') ∧
      ∀ ps cause read db', actionReconcileAbsent ps cancelled.db quoted.job quoted.step cause
        quoted.actionId read ≠ .ok db' := by
  obtain ⟨hretired, hopen, hread, hgone, hactive⟩ := retired_claimed
  obtain ⟨hcancelled, hopen', hpending, hnone⟩ := cancelled_claimed
  refine ⟨⟨{}, claiming, rfl, run_runs claimed_ran⟩, ⟨run_runs hretired, hopen, ?_, hactive⟩,
    run_runs hcancelled, hopen', ?_, ?_⟩
  · rintro cause verified m ⟨db', rec⟩ h
    obtain ⟨row, sop, event, hrow, hsop, hevent, -⟩ := jobRecord_ok h
    rw [hrow] at hread
    cases hsop.symm.trans hread
    rw [hgone] at hevent
    cases hevent
  · intro cause db' h
    obtain ⟨-, -, row, hrow, hcase⟩ := finishReceipt_ok h
    rw [hrow] at hpending
    have hnil : row.actions = [] := Except.ok.inj hpending
    rcases hcase with ⟨r, hr, -⟩ | ⟨track, action, hfound, -⟩
    · rw [hr] at hnone
      cases hnone
    · rw [hnil] at hfound
      cases hfound
  · intro ps cause read db' h
    obtain ⟨row, track, action, hrow, hfound, -⟩ := actionReconcileAbsent_ok h
    rw [hrow] at hpending
    have hnil : row.actions = [] := Except.ok.inj hpending
    rw [hnil] at hfound
    cases hfound

end CarbonRuntime.Bugs.RetiredClaim
