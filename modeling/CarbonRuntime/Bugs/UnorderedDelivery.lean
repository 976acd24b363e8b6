import CarbonRuntime.Runtime.Process

/-!
# A delivery sends in the order the directories are listed

`releasePass` sorts what it lists by the time received and the index sequence
(runtime/loop.ts:1306-1313). `deliver` goes through `rebuild` as it is (loop.ts:1934-1936), and
`rebuild` lists directories (stream/store.ts:478-490), whose file names are encoded
or hashed message ids. Two replies of one conversation that wait together leave in
that order.

Counterexample: a reply is written and the process dies before its delivery; the
next process writes a second one, and its delivery lists the second reply first.
-/

open CarbonRuntime.Core CarbonRuntime.Stream

namespace CarbonRuntime.Bugs.UnorderedDelivery

open Moves Pass Release

variable {L : Loop} {s s' : World}

/-- No reply stands behind one of its conversation that was written after it. -/
def InOrder (index : List IndexEntry) (replies : List MessageRecord) : Prop :=
  replies.Pairwise fun a b => a.conversationId = b.conversationId →
    ∀ m ∈ seqOf index a.id, ∀ n ∈ seqOf index b.id, m ≤ n

instance (index : List IndexEntry) (replies : List MessageRecord) :
    Decidable (InOrder index replies) := by
  unfold InOrder
  infer_instance

/-- The records the last delivery went through, as they were listed. -/
def listing (s : World) : List MessageRecord := ((underway s.hist).map (·.1)).getD []

/-- What the last delivery handed to the adapter, in that order. -/
def sent (s : World) : List MessageRecord := ((underway s.hist).map (·.2)).getD []

theorem sent_eq (hm : s.mem = {}) (hg : s.ghost = {}) (h : Prog.Runs (deliver L) s (.ok ()) s') :
    sent s' = (listing s').filter toSend := by
  have hend := (Prog.wp_runs (moves_valid L True) h (base_start hm hg)
    (Safe.deliver_wp (by rw [hg]) (by rw [hg]) (by rw [hm]))).2
  obtain ⟨records, hunder⟩ := hend.listed
  rw [sent, listing, hunder]
  rfl

/-- A delivery on any store sends the replies of each conversation in the order they were
written exactly where the listing it goes through has them in that order. -/
theorem sent_inOrder_iff (hm : s.mem = {}) (hg : s.ghost = {})
    (h : Prog.Runs (deliver L) s (.ok ()) s') :
    InOrder s'.disk.index (sent s') ↔ InOrder s'.disk.index ((listing s').filter toSend) := by
  rw [sent_eq hm hg h]

/-! ## The delivery that reverses two replies -/

abbrev mail : Channel := { kind := "email", account := "agent@example.org" }

abbrev mailLoop : Loop := oneLoop mail { channels := [mail] }

/-- The message is captured, and the model answers it in its turn. -/
def answers (messageId receivedAt : String) : Given :=
  { batch := { entries := [{ record := inboundMessage mail messageId receivedAt }] }
    turn := fun _ =>
      { calls := [.reply { conversationId := "c", requestId := "release-" ++ messageId ++ "-0"
                           text := messageId } (.ok none)]
        result := .ok { status := .completed } } }

/-- Directories are listed newest file first. -/
def reversed (g : Given) (n : Nat) (w : World) : (q : Ask) → q.Answer
  | .listing => w.disk.records.rows.reverse
  | q => g.answer n w q

/-- The first process dies with its reply written, before the delivery. -/
def written : List (Service.Episode (sig mailLoop) Job) :=
  [.boot (Given.answer {}), .cut .pass 75 (answers "1" "1").answer]

/-- The delivery of the written reply, from the store the first process leaves. -/
def deliverWritten : Option (World × World) :=
  match (service mailLoop).play (false, {}) written with
  | some (_, s) => (Prog.after (Given.answer {}) (deliver mailLoop) s).map (s, ·)
  | none => none

/-- The second reply overtakes the written one, which is sent in order where it is alone. -/
theorem written_sent :
    ((service mailLoop).play (false, {})
      (written ++ [.boot (Given.answer {}), .job .pass (reversed (answers "2" "2"))])).any
        (fun c => !decide (InOrder c.2.disk.index (sent c.2))) = true ∧
    deliverWritten.any (fun (s, s') => decide (s.mem = {} ∧ s.ghost = {} ∧ sent s' ≠ [] ∧
      InOrder s'.disk.index ((listing s').filter toSend))) = true := by decide +kernel

theorem reply_overtakes : ∃ c : Service.State (sig mailLoop), (process mailLoop).Reachable c ∧
    ¬ InOrder c.st.disk.index (sent c.st) := by
  obtain ⟨c, hc, hbad⟩ := played (L := mailLoop)
    (fun w => !decide (InOrder w.disk.index (sent w)))
    (written ++ [.boot (Given.answer {}), .job .pass (reversed (answers "2" "2"))]) written_sent.1
  exact ⟨c, hc, by simpa using hbad⟩

theorem deliverWritten_runs (h : deliverWritten = some (s, s')) :
    Prog.Runs (deliver mailLoop) s (.ok ()) s' := by
  unfold deliverWritten at h
  split at h
  · obtain ⟨_, hrun, he⟩ := Option.map_eq_some_iff.1 h
    cases he
    exact Prog.after_runs hrun
  · cases h

/-- One reply is sent, and in order. -/
theorem sent_inOrder_run : ∃ s s', Prog.Runs (deliver mailLoop) s (.ok ()) s' ∧
    sent s' ≠ [] ∧ InOrder s'.disk.index (sent s') := by
  obtain ⟨⟨s, s'⟩, hs, hcheck⟩ := (Option.any_eq_true _ _).1 written_sent.2
  have hruns := deliverWritten_runs hs
  obtain ⟨hm, hg, hne, hin⟩ := of_decide_eq_true hcheck
  exact ⟨s, s', hruns, hne, (sent_inOrder_iff hm hg hruns).2 hin⟩

end CarbonRuntime.Bugs.UnorderedDelivery
