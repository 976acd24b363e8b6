import CarbonRuntime.Runtime.Process

/-!
# A retried reply is merged into the one that failed

The store allows one retry: a request id whose send failed takes a reply again
(stream/store.ts:640-642). `reply` captures the record it is given, and `capture` merges
a record whose message id is there already instead of writing it over (store.ts:304-312,
802-816): the attachments are united and everything else stays. A reply's message id
is made of its conversation and its request id, and its revision is 0 on every channel
but the browser's (runtime/reply-tool.ts:262-303), so the retry is merged into the failed
record. The fence says `pending`, the record `failed` and the first body.

Counterexample: a reply's send fails, and the model answers again under the
same request id.
-/

open CarbonRuntime.Core CarbonRuntime.Stream

namespace CarbonRuntime.Bugs.RetriedReply

open Moves Pass Store

variable {L : Loop} {s s' : World} {record : MessageRecord} {status : Status}

/-- The record at the reply's path is the reply at the status that was asked for. -/
def Stands (d : Disk) (record : MessageRecord) (status : Status) : Prop :=
  ∃ x, d.records.find record.id = some x ∧ x.direction = .outbound ∧ x.status = some status ∧
    x.body = record.body

/-- There was no record at the reply's path, or one that says the same. -/
def Untaken (d : Disk) (record : MessageRecord) (status : Status) : Prop :=
  ∀ old, d.records.find record.id = some old →
    old.direction = .outbound ∧ old.status = some status ∧ old.body = record.body

/-- Every delivery that begins with the record `x` on disk, with nothing left to
re-issue, hands its body to the adapter. -/
def HandsOver (L : Loop) (x : MessageRecord) : Prop :=
  ∀ s₁ s₂, (process L).Reachable ⟨.idle, s₁⟩ → s₁.mem.recovering = none →
    s₁.disk.records.find x.id = some x → Prog.Runs (deliver L) s₁ (.ok ()) s₂ → ∃ r, Logged s₁ s₂ (· = .send r) ∧ r.id = x.id ∧
      r.body = x.body

/-- What is at the reply's path after it was captured. -/
def landed (d : Disk) (r : MessageRecord) : MessageRecord :=
  match d.records.find r.id with
  | none => r
  | some old => mergeRecords old r

theorem mergeRecords_id (old r : MessageRecord) : (mergeRecords old r).id = old.id := rfl

theorem capture_landed {r : MessageRecord} (hdir : r.direction = .outbound) (s : World) :
    Prog.wp (plain L) (capture L r)
      (fun _ s' => s'.disk.records.find r.id = some (landed s.disk r)) (fun _ _ => True) s := by
  refine wp_captureOutbound r hdir trivial (fun _ _ _ => trivial)
    (fun old s₁ hold hs₁ _ => ?_) fun seq s₁ hnone hs₁ _ => ?_
  · have hid : old.id = r.id := Table.find_key hold
    refine ⟨fun _ => ⟨trivial, fun _ => ?_⟩, fun hsame => ?_⟩
    · rw [landed, hold, Act.apply, World.putRecord_disk, ← hid, ← mergeRecords_id old r]
      exact Table.find_put_self _ _
    · rw [landed, hold, hs₁.records]
      exact hold.trans (congrArg some hsame.symm)
  · refine ⟨trivial, fun _ => ⟨trivial, fun _ => ?_⟩⟩
    rw [landed, hnone]
    simp only [Act.apply, World.putRecord_disk]
    exact Table.find_put_self _ _

/-- A reply that is answered `fenced: null` is captured with the delivery it came with. -/
theorem reply_landed {w : MessageRecord}
    (h : Prog.Runs (reply L record status) s (.ok (.written w)) s') :
    record.direction = .outbound ∧ ∃ d, record.delivery = some d ∧
      s'.disk.records.find record.id = some (landed s.disk (replyRecord record d status)) := by
  have hwrite : ∀ d, record.delivery = some d → record.direction = .outbound → ∀ s₁ : World,
      s₁.disk = s.disk → Prog.wp (plain L) (do
        let written ← replyWrite L record d status
        Pure.pure (ReplyOutcome.written written))
        (fun _ s' => record.direction = .outbound ∧ ∃ d, record.delivery = some d ∧
          s'.disk.records.find record.id = some (landed s.disk (replyRecord record d status)))
        (fun _ _ => True) s₁ := by
    intro d hd hdir s₁ hs₁
    simp only [replyWrite, Prog.wp_bind, wp_write, Prog.wp_pure]
    refine Prog.wp_mono _ (capture_landed (r := replyRecord record d status) hdir s₁)
      (fun _ s₂ h₂ => ⟨trivial, fun _ => ⟨hdir, d, hd, ?_⟩⟩) fun _ _ _ => trivial
    rw [hs₁] at h₂
    exact h₂
  have hwp : Prog.wp (plain L) (reply L record status)
      (fun o s' => o = .written w → record.direction = .outbound ∧ ∃ d, record.delivery = some d ∧
        s'.disk.records.find record.id = some (landed s.disk (replyRecord record d status)))
      (fun _ _ => True) s := by
    unfold reply recordsIn
    simp only [Prog.wp_bind, wp_refuse]
    refine ⟨fun _ => plain_ask fun records _ => ?_, fun _ => trivial⟩
    simp only [Prog.wp_pure]
    refine ⟨fun hfaults => ?_, fun _ => trivial⟩
    have hdir := outbound_of_replyFaults (List.append_eq_nil_iff.1 hfaults).2
    split
    · exact (wp_raise _).2 trivial
    · rename_i d hd
      unfold readRequest
      simp only [Prog.wp_bind, wp_refuse, wp_fetch, Prog.wp_pure]
      refine ⟨fun _ => ?_, fun _ => trivial⟩
      have hgo := hwrite d hd hdir (Ask.after .listing records s) rfl
      split
      · split
        · exact (Prog.wp_pure _).2 fun he => by cases he
        · exact (wp_raise _).2 trivial
        · exact (wp_raise _).2 trivial
        · exact (wp_raise _).2 trivial
        · exact Prog.wp_mono _ hgo (fun _ _ h _ => h) fun _ _ h => h
      · exact Prog.wp_mono _ hgo (fun _ _ h _ => h) fun _ _ h => h
  exact plain_runs h hwp rfl

/-- A delivery hands over every reply that is pending as it begins. -/
theorem handsOver {x : MessageRecord} (hdir : x.direction = .outbound)
    (hst : x.status = some .pending) : HandsOver L x := by
  intro s₁ s₂ hs₁ hrec hx hrun
  obtain ⟨hbase, hidle⟩ := resting hs₁
  have hend := (Prog.wp_runs (moves_valid L True) hrun hbase
    (Safe.deliver_wp hidle.replying hidle.sending hrec)).2
  obtain ⟨r, hsent, hk, _⟩ := hend.sends trivial x.id x hx hdir hst
  exact ⟨r, hsent, hk.id, hk.body⟩

theorem landed_stands {d : Delivery} (hdir : record.direction = .outbound) {old : Disk}
    {new : Disk} (h : new.records.find record.id = some (landed old (replyRecord record d status))) :
    Stands new record status ↔ Untaken old record status := by
  have hid : (replyRecord record d status).id = record.id := rfl
  cases hold : old.records.find record.id with
  | none =>
    rw [landed, hid, hold] at h
    refine ⟨fun _ x hx => ?_, fun _ => ⟨_, h, hdir, rfl, rfl⟩⟩
    rw [hold] at hx
    cases hx
  | some x =>
    rw [landed, hid, hold] at h
    constructor
    · rintro ⟨y, hy, hy₁, hy₂, hy₃⟩ x' hx'
      rw [h] at hy
      cases hy
      rw [hold] at hx'
      cases hx'
      exact ⟨hy₁, hy₂, hy₃⟩
    · intro hall
      obtain ⟨h₁, h₂, h₃⟩ := hall x hold
      exact ⟨_, h, h₁, h₂, h₃⟩

/-- A reply that is answered `fenced: null` stands on disk as it was asked for exactly
where there was no other record at its path, and a pending one that stands is handed over. -/
theorem reply_stands {w : MessageRecord}
    (h : Prog.Runs (reply L record status) s (.ok (.written w)) s') :
    (Stands s'.disk record status ↔ Untaken s.disk record status) ∧
      (Untaken s.disk record status → status = .pending →
        ∃ x, s'.disk.records.find record.id = some x ∧ x.body = record.body ∧ HandsOver L x) := by
  obtain ⟨hdir, d, _, hland⟩ := reply_landed h
  have hiff : Stands s'.disk record status ↔ Untaken s.disk record status :=
    landed_stands hdir hland
  refine ⟨hiff, fun hun hpend => ?_⟩
  obtain ⟨x, hx, hxdir, hxst, hbody⟩ := hiff.2 hun
  exact ⟨x, hx, hbody, handsOver hxdir (by rw [hxst, hpend])⟩

/-! ## The run that loses a retry -/

abbrev mail : Channel := { kind := "email", account := "agent@example.org" }

abbrev mailLoop : Loop := oneLoop mail { channels := [mail] }

def answered (text : String) : ReplyArgs :=
  { conversationId := "c", requestId := "release-client-0", text }

/-- The client's message is answered, and the channel refuses the reply. -/
def refused : Given :=
  { batch := { entries := [{ record := inboundMessage mail "client" "1" }] }
    turn := fun _ => { calls := [.reply (answered "first") (.ok none)]
                       result := .ok { status := .completed } }
    send := .ok (some { status := .other }) }

/-- The reply tool builds the record of an answer and the store takes it. -/
def retried (s : World) (text : String) : Option (MessageRecord × MessageRecord × World) :=
  match Prog.finishWith (𝔖 := sig mailLoop) (Given.answer {}) 0
      (Tools.outboundRecord mailLoop (answered text) "2") s with
  | some (.ok record, _) =>
    match Prog.finishWith (𝔖 := sig mailLoop) (Given.answer {}) 0 (reply mailLoop record) s with
    | some (.ok (.written w), s') => some (record, w, s')
    | _ => none
  | _ => none

theorem retried_runs {s : World} {text : String} {record w : MessageRecord} {s' : World}
    (h : retried s text = some (record, w, s')) :
    Prog.Runs (reply mailLoop record) s (.ok (.written w)) s' := by
  unfold retried at h
  split at h
  · split at h
    · rename_i hrun
      cases h
      exact Prog.finishWith_runs _ hrun
    · cases h
  · cases h

/-- An answer under the release of the message, on the store one pass leaves. -/
def afterPass (g : Given) (text : String) : Option (World × MessageRecord × MessageRecord × World) :=
  match (service mailLoop).play (false, {}) [.boot (Given.answer {}), .job .pass g.answer] with
  | some (true, s) => (retried s text).map (s, ·)
  | _ => none

-- The pass leaves a reply that was refused.
example : (afterPass refused "first").isSome = true := by decide +kernel

theorem afterPass_runs {g : Given} {text : String} {s : World} {record w : MessageRecord}
    {s' : World} (h : afterPass g text = some (s, record, w, s')) :
    (process mailLoop).Reachable ⟨.idle, s⟩ ∧
      Prog.Runs (reply mailLoop record) s (.ok (.written w)) s' := by
  unfold afterPass at h
  split at h
  · rename_i hplay
    obtain ⟨⟨a, b, c⟩, hr, he⟩ := Option.map_eq_some_iff.1 h
    cases he
    exact ⟨played_idle hplay, retried_runs hr⟩
  · cases h

theorem retry_lost : ∃ s record w s', (process mailLoop).Reachable ⟨.idle, s⟩ ∧
    record.body = "second" ∧ Prog.Runs (reply mailLoop record) s (.ok (.written w)) s' ∧
    ∃ x, s'.disk.records.find record.id = some x ∧ x.body = "first" ∧ x.status = some .failed := by
  have hrun : (afterPass refused "second").any (fun (_, record, _, s') =>
      decide (record.body = "second") && (s'.disk.records.find record.id).any fun x =>
        decide (x.body = "first" ∧ x.status = some .failed)) = true := by decide +kernel
  obtain ⟨⟨s, record, w, s'⟩, hs, hcheck⟩ := (Option.any_eq_true _ _).1 hrun
  obtain ⟨hreach, hr⟩ := afterPass_runs hs
  simp only [Bool.and_eq_true, decide_eq_true_eq, Option.any_eq_true] at hcheck
  obtain ⟨hbody, x, hx, hsays⟩ := hcheck
  exact ⟨s, record, w, s', hreach, hbody, hr, x, hx, hsays⟩

/-- A reply to a message that was not answered stands. -/
theorem reply_stands_run : ∃ s record w s',
    Prog.Runs (reply mailLoop record) s (.ok (.written w)) s' ∧ Stands s'.disk record .pending := by
  have hrun : (afterPass { refused with turn := fun _ => { result := .ok { status := .completed } } }
      "first").any (fun (s, record, _, _) => (s.disk.records.find record.id).isNone) = true := by
    decide +kernel
  obtain ⟨⟨s, record, w, s'⟩, hs, hnone⟩ := (Option.any_eq_true _ _).1 hrun
  obtain ⟨_, hr⟩ := afterPass_runs hs
  refine ⟨s, record, w, s', hr, (reply_stands hr).1.2 fun old hold => ?_⟩
  simp only [hold, Option.isNone_some] at hnone
  cases hnone

end CarbonRuntime.Bugs.RetriedReply
