import CarbonRuntime.Runtime.Closing
import CarbonRuntime.Runtime.Process

/-!
# A follow-up that did not complete condemns the message

`releaseTurn` closes a release by how its turn ended (runtime/loop.ts:1556-1595): a turn
that failed marks its records and latches, one that was interrupted leaves the release
open for the next start. `ensureReply` and `ensureTeachCheck` take a second turn through
the same `takeTurn` and look at its `agent_message` only (loop.ts:1806-1829, 1905-1941).
A follow-up that was interrupted or failed without a word parks the message as
unanswered, with the fault "the turn completed and the follow-up completed", and the
release is completed.

Counterexample: the turn of a message completes without a reply and its follow-up is
interrupted.
-/

open CarbonRuntime.Core CarbonRuntime.Stream

namespace CarbonRuntime.Bugs.InterruptedFollowUp

open Moves Store Turn Release

variable {L : Loop} {s s' : World}

/-- A follow-up turn of the release `R` ended so. -/
def FollowedUp (R : String) (status : TurnStatus) (e : Event) : Prop :=
  ∃ c said, (c = R ++ "-follow-up" ∨ c = R ++ "-teach-check") ∧ e = .turned R c status said

/-- The records of the group are within reach, their release is open and their delivery no
less certain. A browser input whose delivery is uncertain every closing leaves as it is. -/
def LeftOpen (records : List MessageRecord) (d : Disk) : Prop :=
  ∀ one ∈ records, one.uncertain = false → ∃ x, d.records.find one.id = some x ∧
    x.openRelease.isSome = true ∧ x.disposition ≠ .parked ∧ x.uncertain = false

/-- A release that was closed was judged by its follow-ups as by its turn: none failed,
which latches, and after one that was interrupted it is open. -/
def Judged (R : String) (records : List MessageRecord) (s s' : World) : Prop :=
  ¬ Logged s s' (FollowedUp R .failed) ∧
    (Logged s s' (FollowedUp R .interrupted) → LeftOpen records s'.disk)

/-- Every follow-up completed, or was interrupted where there was nothing to close. -/
def Completed (R : String) (records : List MessageRecord) (s s' : World) : Prop :=
  ¬ Logged s s' (FollowedUp R .failed) ∧
    (Logged s s' (FollowedUp R .interrupted) → ∀ one ∈ records, one.uncertain = true)

/-- No turn ended since `s`. -/
def Unturned (s s' : World) : Prop :=
  ∃ new, s'.hist = new ++ s.hist ∧ ∀ t ∈ new, ∀ R c status said, t.event ≠ .turned R c status said

theorem Unturned.trans {s₁ : World} (h : Unturned s s₁) (h' : Unturned s₁ s') : Unturned s s' := by
  obtain ⟨new, hnew, hno⟩ := h
  obtain ⟨new', hnew', hno'⟩ := h'
  refine ⟨new' ++ new, by rw [hnew', hnew, List.append_assoc], fun t ht => ?_⟩
  exact (List.mem_append.1 ht).elim (hno' t) (hno t)

theorem annotate_unturned (i : Identity) (f : AdapterFields → AdapterFields) (s : World) :
    Prog.wp (plain L) (annotate L i f) (fun _ => Unturned s) (fun _ _ => True) s := by
  refine wp_rewrite i _ trivial trivial (fun _ => trivial) fun old new s₁ _ _ hs₁ _ =>
    ⟨trivial, fun _ => ⟨_, (World.putRecord_hist s₁ new).trans (by rw [hs₁.hist]), ?_⟩⟩
  intro t ht R c status said he
  rw [Option.mem_toList, Option.map_eq_some_iff] at ht
  obtain ⟨e, hlog, rfl⟩ := ht
  subst he
  simp only [writeEvents] at hlog
  split at hlog
  · cases hlog
  · split at hlog <;> cases hlog

/-- A turn that was interrupted is followed by no other. -/
theorem closeGroup_interrupted {record : MessageRecord} {records : List MessageRecord}
    {unitId threadId R at_ : String} {result : TurnResult} (hres : result.status = .interrupted)
    (s : World) :
    Prog.wp (plain L) (closeGroup L record records unitId threadId R result at_)
      (fun _ => Unturned s) (fun _ _ => True) s := by
  have hself : ∀ s : World, Unturned s s := fun s => ⟨[], rfl, fun t ht => by cases ht⟩
  simp only [closeGroup, hres]
  split
  · unfold Calls.noteBrowserEffect Store.rebuild
    rw [Prog.wp_bind]
    refine plain_ask fun listed _ => ?_
    refine Prog.wp_each (P := plain L) (X := fun _ _ => True) (J := fun _ => Unturned s) _
      (fun r _ s₁ h => ?_) _ _ (hself s)
    split
    · rw [Prog.wp_bind]
      exact Prog.wp_mono _ (annotate_unturned _ _ s₁) (fun _ _ h' => (Prog.wp_pure _).2 (h.trans h'))
        fun _ _ hx => hx
    · exact (Prog.wp_pure _).2 h
  · exact (Prog.wp_pure _).2 (hself s)

theorem closeGroup_failed {record : MessageRecord} {records : List MessageRecord}
    {unitId threadId R at_ : String} {result : TurnResult} (hres : result.status = .failed)
    (s : World) :
    Prog.wp (plain L) (closeGroup L record records unitId threadId R result at_)
      (fun _ _ => False) (fun _ _ => True) s := by
  simp only [closeGroup, hres, latch, Prog.wp_bind, wp_fetch]
  refine Prog.wp_mono _ (plain_any _ s) (fun _ s₁ _ => ?_) fun _ _ hx => hx
  split
  · rw [Prog.wp_bind]
    exact Prog.wp_mono _ (plain_any _ s₁) (fun _ _ _ => (wp_raise _).2 trivial) fun _ _ hx => hx
  · exact (wp_raise _).2 trivial

/-- A release that was closed was judged by its follow-ups exactly where every follow-up it
took completed, or was interrupted with nothing to close. -/
theorem judged_iff {record : MessageRecord} {records : List MessageRecord}
    {unitId threadId R at_ : String} {result : TurnResult}
    (h : Prog.Runs (closeGroup L record records unitId threadId R result at_) s (.ok ()) s') :
    Judged R records s s' ↔ Completed R records s s' := by
  refine and_congr_right fun _ => imp_congr_right fun hint => ?_
  constructor
  · intro hopen one hone
    by_contra hu
    rw [Bool.not_eq_true] at hu
    obtain ⟨x, hx, hx₁, _, hx₂⟩ := hopen one hone hu
    have hclosed : Closed one.id s' := by
      cases hres : result.status with
      | completed => exact plain_runs h (closeGroup_closed hres s) one hone hu
      -- A turn that was interrupted is followed by nothing, and one that failed latches.
      | interrupted =>
        obtain ⟨new, hnew, hno⟩ := plain_runs h (closeGroup_interrupted hres s)
        obtain ⟨new', hnew', t, ht, c, said, _, he⟩ := hint
        rw [hnew, List.append_cancel_right_eq] at hnew'
        exact absurd he (hno t (by rw [hnew']; exact ht) _ _ _ _)
      | failed => exact (plain_runs h (closeGroup_failed hres s)).elim
    obtain ⟨y, hy, hy'⟩ := hclosed
    rw [hx] at hy
    cases hy
    rcases hy' with hnone | hunc
    · rw [hnone] at hx₁
      cases hx₁
    · rw [hx₂] at hunc
      cases hunc
  · intro hall one hone hu
    rw [hall one hone] at hu
    cases hu

/-! ## The follow-up that is interrupted -/

abbrev mail : Channel := { kind := "email", account := "agent@example.org" }

abbrev mailLoop : Loop := oneLoop mail { channels := [mail] }

def R : String := "release-client-0"

/-- The turn completes without a reply, and its follow-up ends so. -/
def followedUp (status : TurnStatus) (text : Option String) : Given :=
  { batch := { entries := [{ record := inboundMessage mail "client" "1" }] }
    turn := fun c =>
      { result := .ok (if c = R then { status := .completed } else { status, agentMessage := text }) } }

/-- A client's message is parked, and its release completed. -/
def Condemned (w : World) : Prop :=
  ∃ x ∈ w.disk.records.rows, x.direction = .inbound ∧ x.disposition = .parked ∧
    (x.release.bind (·.completedAt)).isSome = true

instance (w : World) : Decidable (Condemned w) := by
  unfold Condemned
  infer_instance

/-- A release whose turn was interrupted, closed as one that completed. -/
def closing : Option (World × MessageRecord × World) :=
  match (Pass.service mailLoop).play (false, {}) [.boot (Given.answer {}),
      .job .pass { followedUp .completed none with
        turn := fun _ => { result := .ok { status := .interrupted } } }.answer] with
  | some (_, s) => do
    let r ← s.disk.records.rows.head?
    let s' ← Prog.after (followedUp .completed (some "NO_REPLY")).answer
      (closeGroup mailLoop r [r] "c" "thread" R { status := .completed } "3") s
    pure (s, r, s')
  | none => none

def newer (s s' : World) : List Entry := s'.hist.take (s'.hist.length - s.hist.length)

/-- A follow-up that did not complete was taken. -/
def unfinished (s s' : World) : Bool :=
  (newer s s').any fun t => match t.event with
    | .turned _ _ status _ => decide (status ≠ .completed)
    | _ => false

/-- The follow-up interrupted in the pass, and completed in the closing. -/
theorem followUps_run :
    ((Pass.service mailLoop).play (false, {})
      [.boot (Given.answer {}), .job .pass (followedUp .interrupted none).answer]).any (fun c =>
        (c.2.hist.any fun t => decide (t.event = .turned R (R ++ "-follow-up") .interrupted none)) &&
          decide (Condemned c.2)) = true ∧
    closing.any (fun (s, _, s') => !unfinished s s' && (newer s s').any fun t =>
      decide (t.event = .turned R (R ++ "-follow-up") .completed (some "NO_REPLY"))) = true := by
  decide +kernel

/-- The process goes on after a follow-up that was interrupted, and no start will
re-issue the release. -/
theorem interrupted_condemns : ∃ c : Service.State (sig mailLoop),
    (Pass.process mailLoop).Reachable c ∧
      (∃ t ∈ c.st.hist, ∃ said, t.event = .turned R (R ++ "-follow-up") .interrupted said) ∧
      Condemned c.st := by
  obtain ⟨c, hc, hbad⟩ := played (L := mailLoop)
    (fun w => (w.hist.any fun t =>
      decide (t.event = .turned R (R ++ "-follow-up") .interrupted none)) && decide (Condemned w))
    ([.boot (Given.answer {}), .job .pass (followedUp .interrupted none).answer]) followUps_run.1
  simp only [Bool.and_eq_true, List.any_eq_true, decide_eq_true_eq] at hbad
  obtain ⟨⟨t, ht, he⟩, hcond⟩ := hbad
  exact ⟨c, hc, ⟨t, ht, none, he⟩, hcond⟩

theorem closing_runs {r : MessageRecord} (h : closing = some (s, r, s')) :
    Prog.Runs (closeGroup mailLoop r [r] "c" "thread" R { status := .completed } "3") s (.ok ()) s' := by
  unfold closing at h
  split at h
  · simp only [Option.bind_eq_bind, Option.bind_eq_some_iff, Option.pure_def, Option.some.injEq,
      Prod.mk.injEq] at h
    obtain ⟨_, _, _, hrun, rfl, rfl, rfl⟩ := h
    exact Prog.after_runs hrun
  · cases h

theorem completed_of_unfinished {records : List MessageRecord} (h : unfinished s s' = false) :
    Completed R records s s' := by
  have hno : ∀ status : TurnStatus, status ≠ .completed → ¬ Logged s s' (FollowedUp R status) := by
    intro status hne hlog
    obtain ⟨t, ht, _, _, _, he⟩ := Logged.of_take hlog
    have := List.any_eq_false.1 h t ht
    simp [he, hne] at this
  exact ⟨hno _ (by simp), fun hint => absurd hint (hno _ (by simp))⟩

/-- The follow-up completes and answers that there is no reply to write. -/
theorem judged_run : ∃ s r s',
    Prog.Runs (closeGroup mailLoop r [r] "c" "thread" R { status := .completed } "3") s (.ok ()) s' ∧
      (∃ t ∈ newer s s', ∃ said, t.event = .turned R (R ++ "-follow-up") .completed said) ∧
      Judged R [r] s s' := by
  obtain ⟨⟨s, r, s'⟩, hs, hcheck⟩ := (Option.any_eq_true _ _).1 followUps_run.2
  simp only [Bool.and_eq_true, Bool.not_eq_true', List.any_eq_true, decide_eq_true_eq] at hcheck
  obtain ⟨hfin, t, ht, he⟩ := hcheck
  have hruns := closing_runs hs
  exact ⟨s, r, s', hruns, ⟨t, ht, _, he⟩, (judged_iff hruns).2 (completed_of_unfinished hfin)⟩

end CarbonRuntime.Bugs.InterruptedFollowUp
