import CarbonRuntime.Runtime.Process

/-!
# A re-issued release ignores the operator's hold

`releaseDecision` refuses a held conversation (runtime/loop.ts:169-172) and
`Store.release` refuses it again as the release is written (stream/store.ts:589-604).
A release id a start answered to re-issue passes both by: `releasePass` groups it
without the decision (loop.ts:1328-1331) and `releaseTurn` skips the write
(loop.ts:1504). An operator message captured between the crash and the first
pass's groups, or in that pass's own capture, holds the conversation and is
overridden.

Counterexample: a message is released, the process dies while the turn runs,
and the first pass of the next process captures the operator's message before
it re-issues the release.
-/

open CarbonRuntime.Core CarbonRuntime.Stream

namespace CarbonRuntime.Bugs.HeldReissue

open Moves Pass

/-- The release of `r` begins while an operator's hold governs its conversation. -/
def Overridden (L : Loop) (t : Entry) (r : MessageRecord) : Prop :=
  Held L t.disk t.clock r.conversationId

instance (L : Loop) (d : Disk) (t : Int) (c : String) : Decidable (Held L d t c) := by
  unfold Held
  infer_instance

instance (L : Loop) (t : Entry) (r : MessageRecord) : Decidable (Overridden L t r) := by
  unfold Overridden
  infer_instance

/-- No release that was written, and not re-issued, overrides a hold. -/
def Written (L : Loop) (s : World) : Prop :=
  ∀ t ∈ s.hist, ∀ r R, t.event = .begun r R false → ¬ Overridden L t r

theorem written_lasts (L : Loop) : Lasting L (Written L) where
  act a s _ hj hm t ht r R he := by
    rcases World.mem_hist_apply ht with ht | ⟨e, hlog, rfl⟩
    · exact hj t ht r R he
    · subst he
      cases a with
      | mark e =>
        cases hlog
        cases hm with
        | begun _ _ _ _ hfree => exact hfree rfl
      | record x =>
        simp only [Act.logs, writeEvents] at hlog
        split at hlog
        · cases hlog
        · split at hlog <;> cases hlog
      | take | hand | seq | raw | index | request | teaching | cursor | thread | poll | latch | mem => cases hlog
  clock _ _ hj := hj
  tend s s' hj ht := by
    rw [ht]
    exact hj
  dies s hj t ht r R he := by
    rcases List.mem_cons.1 ht with rfl | ht
    · cases he
    · exact hj t ht r R he

variable {L : Loop}

abbrev mail : Channel := { kind := "email", account := "agent@example.org" }

abbrev mailLoop : Loop := oneLoop mail { channels := [mail] }

/-- The operator takes the conversation over. -/
def operatorMessage : MessageRecord :=
  { inboundMessage mail "operator" "2" with
    role := .operator, hold := some { reason := "operator", setAt := "2" } }

/-- The first process dies in the turn of the client's message; the second
captures the operator's message in its first pass. -/
def script : List (Service.Episode (sig mailLoop) Job) :=
  [.boot (Given.answer {}),
    .cut .pass 60 (Given.answer { batch := { entries := [{ record := inboundMessage mail "client" "1" }] } }),
    .boot (Given.answer {}),
    .job .pass (Given.answer { batch := { entries := [{ record := operatorMessage }] } })]

def overridden (w : World) : Bool :=
  w.hist.any fun t => match t.event with
    | .begun r _ true => decide (Overridden mailLoop t r)
    | _ => false

def begins (w : World) : Bool :=
  w.hist.any fun t => match t.event with
    | .begun _ _ _ => true
    | _ => false

/-- The client's message is answered before the operator takes over. -/
def answeredScript : List (Service.Episode (sig mailLoop) Job) :=
  [.boot (Given.answer {}),
    .job .pass (Given.answer { batch := { entries := [{ record := inboundMessage mail "client" "1" }] } }),
    .job .pass (Given.answer { batch := { entries := [{ record := operatorMessage }] } })]

theorem scripts_play :
    ((Pass.service mailLoop).play (false, {}) script).any (fun c => overridden c.2) = true ∧
    ((Pass.service mailLoop).play (false, {}) answeredScript).any
      (fun c => begins c.2 && !overridden c.2) = true := by decide +kernel

end CarbonRuntime.Bugs.HeldReissue
