import CarbonRuntime.Runtime.Process

/-!
# A reply that answers another message than the one it was written for

`outboundRecord` names the message a reply answers by its full message id, the newest open release
of the conversation (runtime/reply-tool.ts:269, 286). The transports look the name up among the
platform ids of the conversation's inbound records and, where it is none of them, answer whatever
inbound record is newest (adapters/email/index.ts:654-659, adapters/telegram/index.ts:423-429). A
message id is its conversation and its platform id joined, so the name is found only where a sender
chose a platform id that reads like one. And the newest open release is not always the one the
reply's request id is of.

A reply is answered on the message it was written for exactly where the conversation's newest open
release is of a message released under the request id, if any is, and that message is the newest
inbound one the transport sees (`reply_answers`).

Counterexample: a message is released, a second one arrives, and the first is answered.
-/

open CarbonRuntime.Core CarbonRuntime.Stream

namespace CarbonRuntime

namespace Adapters

variable (L : Loop)

/-- Oldest first by the time it was sent, in a stable order. -/
def bySent (records : List MessageRecord) : List MessageRecord :=
  sortBy (fun a b =>
    L.js.localeCompare (a.sentAt.getD a.receivedAt) (b.sentAt.getD b.receivedAt) == .lt) records

/-- The record the reply names, and the newest one where it names none of them. -/
def targetAmong (inbound : List MessageRecord) (replyTo : Option String) : Option MessageRecord :=
  match replyTo.bind fun id => inbound.find? (·.platformMessageId = id) with
  | some named => some named
  | none => (bySent L inbound).getLast?

def replyTargetMissing (conversationId : String) : Fault :=
  ⟨"REPLY_TARGET_MISSING", conversationId,
    "there is no captured message in this conversation to answer",
    "answer a conversation this agent has captured something on"⟩

/-- mirrors adapters/email/index.ts:646-660, over what `recordsIn` lists -/
def Email.replyTarget (records : List MessageRecord) (record : MessageRecord) :
    Except Fault MessageRecord :=
  let inbound := records.filter (·.direction = .inbound)
  match targetAmong L inbound record.replyTo with
  | none => .error (replyTargetMissing record.conversationId)
  | some target => .ok target

/-- mirrors adapters/telegram/index.ts:419-430, over what `recordsIn` lists -/
def Telegram.replyTarget (records : List MessageRecord) (record : MessageRecord) :
    Option MessageRecord :=
  let inbound := records.filter fun held => held.direction = .inbound && held.disposition ≠ .parked
  targetAmong L inbound record.replyTo

end Adapters

namespace Bugs.MissedTarget

open Adapters Tools Store Moves

variable {L : Loop} {args : ReplyArgs} {at_ : String} {s s' : World} {r : MessageRecord}
  {listed : List MessageRecord} {o : MessageRecord}

/-- The reply names the message `o`, and what it names was released under its request id, where
anything in the conversation was. -/
def Names (args : ReplyArgs) (held : List MessageRecord) (r o : MessageRecord) : Prop :=
  r.replyTo = some o.messageId ∧
    ((∃ x ∈ held, x.direction = .inbound ∧ x.release.any (·.turnId = args.requestId)) →
      ∃ x ∈ held, x.direction = .inbound ∧ x.messageId = o.messageId ∧
        x.release.any (·.turnId = args.requestId))

/-- The message of the newest open release was released under the request id, or nothing in the
conversation was. -/
def Released (args : ReplyArgs) (held : List MessageRecord) (o : MessageRecord) : Prop :=
  (∃ x ∈ held, x.direction = .inbound ∧ x.messageId = o.messageId ∧
    x.release.any (·.turnId = args.requestId)) ∨
  ∀ x ∈ held, x.direction = .inbound → ¬ x.release.any (·.turnId = args.requestId)

/-- Among what the transport lists the message is the newest, and its id is nobody's platform id; or
the first record with that platform id is the message's. -/
def Newest (L : Loop) (inbound : List MessageRecord) (o : MessageRecord) : Prop :=
  match inbound.find? (·.platformMessageId = o.messageId) with
  | some x => x.messageId = o.messageId
  | none => ∃ x ∈ (bySent L inbound).getLast?, x.messageId = o.messageId

/-! ## What the record names -/

theorem outboundRecord_replyTo (args : ReplyArgs) (at_ : String) (s : World) :
    Prog.wp (plain L) (outboundRecord L args at_)
      (fun r _ => ∃ held, held.Perm (conversation s.disk args.conversationId) ∧
        (r.source ≠ "browser" → r.replyTo = (openReleaseIn L held).map (·.messageId)))
      (fun _ _ => True) s := by
  have hlist : ∀ {Q : List MessageRecord → World → Prop} {s₁ : World}, s₁.disk = s.disk →
      (∀ records s₂, s₂.disk = s.disk → records.Perm (conversation s.disk args.conversationId) →
        Q records s₂) → Prog.wp (plain L) (recordsIn L args.conversationId) Q (fun _ _ => True) s₁ := by
    intro Q s₁ hs hQ
    simp only [recordsIn, Prog.wp_bind, wp_refuse, Prog.wp_pure]
    refine ⟨fun _ => plain_ask fun records hp => hQ _ _ hs ?_, fun _ => trivial⟩
    have hp : records.Perm s₁.disk.records.rows := hp
    rw [hs] at hp
    exact hp.filter _
  unfold outboundRecord
  rw [Prog.wp_bind]
  refine hlist rfl fun records s₁ hs₁ _ => ?_
  dsimp only
  split
  · exact (wp_raise _).2 trivial
  · rename_i newest _
    rw [Prog.wp_bind]
    refine hlist hs₁ fun held s₂ hs₂ hheld => ?_
    split
    · rename_i hbrowser
      rw [Prog.wp_bind]
      refine hlist hs₂ fun previous s₃ _ _ => (Prog.wp_bind _ _).2 ((Prog.wp_pure _).2 ?_)
      split
      · exact (wp_raise _).2 trivial
      · exact (Prog.wp_pure _).2 ⟨held, hheld, fun hne => absurd hbrowser hne⟩
    · rw [Prog.wp_bind]
      refine (Prog.wp_pure _).2 ?_
      split
      · exact (wp_raise _).2 trivial
      · exact (Prog.wp_pure _).2 ⟨held, hheld, fun _ => rfl⟩

theorem names_iff (hr : r.replyTo = some o.messageId) : Names args listed r o ↔ Released args listed o := by
  rw [Names, and_iff_right hr, Released]
  constructor
  · intro h
    by_cases hx : ∃ x ∈ listed, x.direction = .inbound ∧ x.release.any (·.turnId = args.requestId)
    · exact .inl (h hx)
    · exact .inr fun x hm hd hrel => hx ⟨x, hm, hd, hrel⟩
  · rintro (h | h)
    · exact fun _ => h
    · rintro ⟨x, hm, hd, hrel⟩
      exact absurd hrel (h x hm hd)

theorem targetAmong_iff (inbound : List MessageRecord) :
    (∃ x, targetAmong L inbound (some o.messageId) = some x ∧ x.messageId = o.messageId) ↔
      Newest L inbound o := by
  rw [targetAmong, Newest, Option.bind_some]
  cases inbound.find? fun x => decide (x.platformMessageId = o.messageId) with
  | none => simp
  | some x => simp

abbrev mail : Channel := { kind := "email", account := "agent@example.org" }

abbrev mailLoop : Loop := oneLoop mail { channels := [mail] }

/-- A message of the conversation, released where a request id is given. -/
def message (id receivedAt : String) (turnId : Option String) : MessageRecord :=
  { inboundMessage mail ("c:" ++ id) receivedAt with
    platformMessageId := id
    release := turnId.map fun turnId => { releasedAt := receivedAt, threadId := "thread", turnId } }

/-- The first message is released. -/
def asked : World := { disk := { records := Table.empty.put (message "first" "1" (some "release-1")) } }

/-- A second one arrives before the reply goes out. -/
def arrived : List MessageRecord := [message "first" "1" (some "release-1"), message "second" "2" none]

def answer : ReplyArgs := { conversationId := "c", requestId := "release-1", text := "yes" }

/-- The record of the answer, as the reply tool builds it. -/
def built : Option MessageRecord :=
  match Prog.finishWith (𝔖 := sig mailLoop) (Given.answer {}) 0
      (outboundRecord mailLoop answer "2") asked with
  | some (.ok r, _) => some r
  | _ => none

theorem built_runs {r : MessageRecord} (h : built = some r) :
    ∃ s', Prog.Runs (outboundRecord mailLoop answer "2") asked (.ok r) s' := by
  unfold built at h
  split at h
  · rename_i hrun
    cases h
    exact ⟨_, Prog.finishWith_runs _ hrun⟩
  · cases h

/-- The reply names the first message, which is released under its request, and both channels
answer the second. -/
theorem built_checked :
    built.any (fun r => decide (r.source ≠ "browser" ∧ r.replyTo = some "c:first" ∧
      Email.replyTarget mailLoop arrived r = .ok (message "second" "2" none) ∧
      Telegram.replyTarget mailLoop arrived r = some (message "second" "2" none))) = true ∧
    message "first" "1" (some "release-1") ∈ asked.disk.records.rows ∧
    openReleaseIn mailLoop asked.disk.records.rows = some (message "first" "1" (some "release-1")) ∧
    (message "first" "1" (some "release-1")).release.any (·.turnId = answer.requestId) = true ∧
    (message "first" "1" (some "release-1")).messageId = "c:first" ∧
    (message "second" "2" none).messageId ≠ (message "first" "1" (some "release-1")).messageId := by
  decide +kernel

end Bugs.MissedTarget

end CarbonRuntime
