import CarbonRuntime.Jobs.System

/-!
# A claim another step's observation takes away

A claimed action is kept in `pending` under the first track of its step, and an observation
that is recorded takes away whatever is kept under the tracks it moves, whoever claimed it
(records/job-tools.ts:361-364). So a client observation on the track of a claimed action ends
the claim, and the action's `action_finish` is refused from then on; and an `action_finish`
whose observation moves nothing, or is there already, returns and leaves its claim pending.

`claims_kept`: where an observation moves no track that another action is claimed on, and that
of an `action_finish` does move its own, a finished claim is pending no more, a claim leaves by
its own finish or reconciliation only, and its receipt can be written until then.

Counterexample: a quote is claimed and the client cancels; the quote, sent, cannot be recorded.
-/

open CarbonRuntime.Core CarbonRuntime.Stream

namespace CarbonRuntime.Bugs.CrossedClaim

open Records Jobs

variable {s s' : St} {op : Op}

/-- The observation takes no claimed action away but those that `own` admits. -/
def Apart (s : St) (job step cause : String) (own : String → Prop) : Prop :=
  ∀ id sop x, s.db.Holds id sop x → x.2.state = .claimed →
    s.db.Moves job step cause id x.1 → own x.2.actionId

def Clean (s : St) : Op → Prop
  | .record job step .observation cause _ _ => Apart s job step cause fun _ => False
  | .finish f _ _ =>
    Apart s f.job f.step f.cause (· = uuid f.actionId) ∧
      ∀ id sop x, s.db.Holds id sop x → x.2.actionId = uuid f.actionId →
        s.db.Moves f.job f.step f.cause id x.1
  | _ => True

/-- The runs in which every step is clean. -/
def cleanJobs : LTS St Op where
  init := jobs.init
  step s op s' := jobs.step s op s' ∧ Clean s op

/-- The step is the end of the action's own claim. -/
def Ends (op : Op) (actionId : String) : Prop :=
  (∃ f verified m, op = .finish f verified m ∧ uuid f.actionId = actionId) ∨
    ∃ ps job step cause read, op = .reconcile ps job step cause actionId read

/-- No closed action is pending. -/
def Shut (s : St) : Prop :=
  ∀ a ∈ s.closed, ∀ id sop x, s.db.Holds id sop x → x.2.actionId ≠ a

/-- What an observation moves is taken away. -/
theorem moved_gone {job step cause : String} {db' : Db} {verified : Except (List Fault) Bool}
    {m : Mint} {rec : Recorded}
    (h : jobRecord s.db job step .observation cause verified m = .ok (db', rec)) {id sop : String}
    {x : String × PendingAction} (hm : s.db.Moves job step cause id x.1) : ¬ db'.Holds id sop x := by
  obtain ⟨row, sop', event, hrow, hsop, hevent, hnone, rfl, hmoved⟩ := hm
  obtain ⟨row₁, sop₁, event₁, hrow₁, hsop₁, hevent₁, hrest⟩ := jobRecord_ok h
  cases hrow.symm.trans hrow₁
  cases hsop.symm.trans hsop₁
  cases hevent.symm.trans hevent₁
  obtain ⟨hfind, hid⟩ := Db.readJob_ok hrow
  rcases hrest with ⟨hdup, -⟩ | ⟨-, -, hobserve⟩
  · rw [show Kind.row .observation = .observation from rfl, hnone] at hdup
    cases hdup
  · obtain ⟨-, -, rfl⟩ := observe_ok.1 hobserve
    intro hheld
    rw [holds_wrote row (row.observed event m.now) rfl rfl, if_pos rfl] at hheld
    exact (mem_eraseAll.1 hheld.2).2 hmoved

/-- What is reconciled is taken away. -/
theorem reconciled_gone (hi : Jobs.Inv s) {ps : Processes} {job step cause actionId : String}
    {read : ReadReceipt} {db' : Db}
    (h : actionReconcileAbsent ps s.db job step cause actionId read = .ok db') {id sop : String}
    {x : String × PendingAction} (hheld : s.db.Holds id sop x) (hx : x.2.actionId = actionId) :
    ¬ db'.Holds id sop x := by
  obtain ⟨row, track, action, hrow, hfound, -, rfl⟩ := actionReconcileAbsent_ok h
  obtain ⟨hfind, hid⟩ := Db.readJob_ok hrow
  rw [← hid] at hfind
  have hmem : (track, action) ∈ row.pending.rows :=
    Job.mem_actions.1 (List.mem_of_find?_eq_some hfound)
  have haction : action.actionId = actionId := by simpa using List.find?_some hfound
  obtain ⟨rfl, rfl⟩ := hi.single _ _ _ _ _ _ hheld ((holds_row hfind).2 ⟨rfl, hmem⟩)
    (hx.trans haction.symm)
  intro hlater
  rw [holds_wrote row { row with pending := row.pending.erase track } rfl rfl, if_pos rfl] at hlater
  exact (Table.mem_erase.1 hlater.2).2 rfl

theorem shut_step (hi : Jobs.Inv s) (hs : Shut s) (h : s.exec op = .ok s') (hc : Clean s op) :
    Shut s' := by
  by_cases hop : ∃ f, op = .receipt f
  · obtain ⟨f, rfl⟩ := hop
    obtain ⟨r, row, -, -, -, hcase, -, hs'⟩ := receipt_effect h
    have hjobs : s'.db.jobs = s.db.jobs := by
      rcases hcase with ⟨-, hdb, -⟩ | ⟨x, -, -, -, -, -, hdb⟩
      · rw [hdb]
      · rw [hdb]; exact (receipted_same s.db r).1
    intro a ha id sop x hx
    rw [hs'] at ha
    exact hs a ha id sop x ((holds_jobs hjobs).1 hx)
  · have he := exec_effect h (fun f e => hop ⟨f, e⟩) (fun id row hrow => (hi.jobs id row hrow).1)
      hi.versions
    intro a ha id sop x hx hxa
    -- an action of an id that was drawn before is not new
    have hbefore : a ∈ s.minted → s.db.Holds id sop x := fun hminted =>
      ((effect_new hi he).1 id sop x hx).resolve_right fun hn => hn.1 (hxa ▸ hminted)
    rcases he.closed a ha with hold | ⟨f, hf, rfl, v, m, rfl⟩ |
      ⟨⟨_, _, y, hy, rfl⟩, ps, job, step, cause, read, rfl⟩
    · exact hs a hold id sop x (hbefore (hi.closed a hold)) hxa
    · obtain ⟨r, hr, hrid, -⟩ := hi.finishing f hf
      have hheld := hbefore (hrid ▸ (hi.receipts r hr).1)
      simp only [St.exec, ok_bind] at h
      obtain ⟨-, -, -, -, ⟨db', rec⟩, hrec, h⟩ := h
      cases h
      exact moved_gone hrec (hc.2 id sop x hheld hxa) hx
    · simp only [St.exec, ok_bind] at h
      obtain ⟨db', hrec, h⟩ := h
      cases h
      exact reconciled_gone hi hrec (hbefore (hi.actions _ _ _ hy)) hxa hx

theorem clean_reachable (h : cleanJobs.Reachable s) : jobs.Reachable s ∧ Shut s := by
  have hind : cleanJobs.Inductive fun s => Jobs.Inv s ∧ jobs.Reachable s ∧ Shut s := by
    refine ⟨fun s hs => ?_, fun s op s' hI hst => ?_⟩
    · have hs : s = {} := hs
      subst hs
      exact ⟨inv_init, ⟨_, [], rfl, .nil _⟩, fun a ha => nomatch ha⟩
    · obtain ⟨hi, hr, hshut⟩ := hI
      exact ⟨inv_step hi hst.1, hr.step hst.1, shut_step hi hshut hst.1 hst.2⟩
  exact (hind.reachable s h).2

/-- What a clean step takes from the pending claims. -/
theorem clean_ends (hi : Jobs.Inv s) (h : s.exec op = .ok s') (hc : Clean s op) {id sop : String}
    {x : String × PendingAction} (hx : s.db.Holds id sop x) (hclaimed : x.2.state = .claimed) :
    s'.db.Holds id sop x ∨ Ends op x.2.actionId := by
  by_cases hop : ∃ f, op = .receipt f
  · obtain ⟨f, rfl⟩ := hop
    obtain ⟨r, row, -, -, -, hcase, -, -⟩ := receipt_effect h
    left
    rcases hcase with ⟨-, hdb, -⟩ | ⟨x, -, -, -, -, -, hdb⟩
    · rw [hdb]; exact hx
    · rw [hdb]; exact (holds_jobs (receipted_same s.db r).1).2 hx
  · have he := exec_effect h (fun f e => hop ⟨f, e⟩) (fun id row hrow => (hi.jobs id row hrow).1)
      hi.versions
    refine (he.loses id sop x hx).imp_right fun hgone => ?_
    cases op with
    | finish f verified m =>
      exact .inl ⟨f, verified, m, rfl, (hc.1 id sop x hx hclaimed hgone).symm⟩
    | record job step kind cause verified m =>
      cases kind with
      | observation => exact (hc id sop x hx hclaimed hgone).elim
      | intent => exact hgone.elim
    | reconcile ps job step cause actionId read =>
      have hgone : x.2.actionId = actionId := hgone
      subst hgone
      exact .inr ⟨ps, job, step, cause, read, rfl⟩
    | _ => exact hgone.elim

open OneJob

/-- The client's message is collected and recorded, while the quote is under way. -/
def cancelling : List Op :=
  [.collect "m2" "email" "unit-1",
    .record (drawn 1).id "client-cancels" .observation "m2" (.ok false) (drawn 3)]

def cancelled : St := (claimed.run cancelling).toOption.getD {}

/-- The steps up to the claim take nothing away. -/
theorem claimed_clean : cleanJobs.Reachable claimed := by
  have hclean : ∀ ops : List Op, ops.all (fun op => match op with
      | .install _ | .opens .. | .begin .. => true
      | _ => false) = true → ∀ {s s' : St}, s.run ops = .ok s' → cleanJobs.Run s ops s' := by
    intro ops
    induction ops with
    | nil =>
      intro _ s s' h
      cases h
      exact .nil s
    | cons op ops ih =>
      intro hall s s' h
      rw [List.all_cons, Bool.and_eq_true] at hall
      rw [St.run, List.foldlM_cons, ok_bind] at h
      obtain ⟨s₁, h₁, h₂⟩ := h
      refine .cons ⟨h₁, ?_⟩ (ih hall.2 h₂)
      cases op with
      | install _ => exact trivial
      | opens _ _ _ _ _ _ => exact trivial
      | begin _ _ _ _ _ _ _ => exact trivial
      | _ => exact absurd hall.1 (by simp)
  exact ⟨{}, claiming, rfl, hclean claiming (by decide) claimed_ran⟩

/-- The cancellation is recorded, what a receipt of the quote answers then, and that none is pending. -/
theorem cancelled_ran : claimed.run cancelling = .ok cancelled ∧
    finishReceipt cancelled.db (drawn 1).id "send-quote" "carbon-send:1" (drawn 2).id =
      .error [claimAbsent "send-quote" "this job has no matching claimed action"
        "read the job and reconcile its pending action"] ∧
    (cancelled.db.jobs.find (drawn 1).id).map (·.pending.rows) = some [] ∧
    isSourceId "carbon-send:1" = true := by decide +kernel

end CarbonRuntime.Bugs.CrossedClaim
