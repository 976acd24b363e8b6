import CarbonRuntime.Adapters.Email.Adapter
import CarbonRuntime.Bugs.HeldReissue

/-!
# An operator's message with a Date nobody can read holds nothing

The email adapter keeps a Date header it cannot read as it is (adapters/email/index.ts:496-499)
and sets the operator's hold at it, `set_at: record.sent_at ?? record.received_at`
(index.ts:506-511). `heldUntil` skips a hold whose `set_at` is no date (stream/store.ts:546-556):
the operator has written and the agent goes on answering. Only a message with no Date at all
counts from the moment it was received.

Counterexample: the operator's message is dated `yesterday`, and the client's message is
answered in the pass that captures both.
-/

open CarbonRuntime.Core CarbonRuntime.Stream

namespace CarbonRuntime.Bugs.UnreadDate

open Store Adapters Adapters.Email Moves Pass

variable {L : Loop} {M : Mail} {d : Disk} {at_ : Int} {x : Item}

/-! ## One message -/

/-- The record an item comes to, at a reading of the clock. -/
def recordFor (L : Loop) (M : Mail) (d : Disk) (at_ : Int) (x : Item) : MessageRecord :=
  (candidateOf M L.js d (L.js.iso at_) x).1.record

/-- The Date header of an item. -/
def dateOf (L : Loop) (M : Mail) (d : Disk) (x : Item) : Option String :=
  header (readItem M L.js d x).headers "date"

/-- The Date header is absent, or a date. -/
def DateRead (J : Js) (date : Option String) : Prop := ∀ text, date = some text → J.parse text ≠ none

/-- `heldUntil` is no earlier than `t` after `ms`, and no time at all where there is no `ms`. -/
def Lasts (u : Until) (t : Int) : Option Nat → Prop
  | none => u = .forever
  | some ms => ∀ v, u = .time v → t + ms ≤ v

/-- The hold of `r` counts from a time, the moment it was received where the message gives no
readable one, and holds every conversation `r` is a record of. -/
def Holds (L : Loop) (received : Int) (date : Option String) (r : MessageRecord) : Prop :=
  ∃ hold t, r.hold = some hold ∧ L.js.parse hold.setAt = some t ∧
    (date.bind L.js.parse = none → t = received) ∧
    ∀ records, r ∈ records → ∃ u, heldUntil L none records = some u ∧ Lasts u t hold.releaseAfterMs

theorem lasts_of_held {records : List MessageRecord} {t : Int} {ms : Option Nat}
    (h : ∀ now, (∀ n, ms = some n → now < t + n) → isHeld L records now = true) :
    ∃ u, heldUntil L none records = some u ∧ Lasts u t ms := by
  unfold isHeld at h
  cases hu : heldUntil L none records with
  | none =>
    have := h (t - 1) fun n _ => by omega
    rw [hu] at this
    cases this
  | some u =>
    refine ⟨u, rfl, ?_⟩
    cases u with
    | forever => cases ms <;> simp [Lasts]
    | time v =>
      cases ms with
      | none =>
        have := h v fun n hn => by cases hn
        simp [hu, Until.after] at this
      | some n =>
        intro w hw
        cases hw
        by_contra hlt
        have := h v fun m hm => by cases hm; omega
        simp [hu, Until.after] at this

/-- An operator's message is one that was read. -/
theorem recordFor_operator (hop : (recordFor L M d at_ x).role = .operator) :
    (recordFor L M d at_ x).hold =
        some (holdOf M (recordFor L M d at_ x).sentAt (L.js.iso at_)) ∧
      (recordFor L M d at_ x).sentAt = sentAt L.js (readItem M L.js d x).headers ∧
      (recordFor L M d at_ x).receivedAt = L.js.iso at_ := by
  unfold recordFor at hop ⊢
  cases hc : (readItem M L.js d x).content with
  | error reason =>
    rw [candidateOf_error hc] at hop
    cases hop
  | ok message =>
    rw [candidateOf_ok hc] at hop ⊢
    simp only [recordOf] at hop ⊢
    exact ⟨if_pos hop, trivial, trivial⟩

/-- The date as it is recorded. -/
def dated (J : Js) (date : String) : String :=
  match J.parse date with
  | none => date
  | some t => J.iso t

/-- The hold of an operator's message holds exactly where its date is absent or read. -/
theorem holds_iff (hdates : ∀ text t, L.js.parse text = some t → L.js.parse (L.js.iso t) = some t)
    (hnow : L.js.parse (L.js.iso at_) = some at_)
    (hop : (recordFor L M d at_ x).role = .operator) :
    Holds L at_ (dateOf L M d x) (recordFor L M d at_ x) ↔ DateRead L.js (dateOf L M d x) := by
  obtain ⟨hhold, hsent, -⟩ := recordFor_operator hop
  have hsent : (recordFor L M d at_ x).sentAt = (dateOf L M d x).map (dated L.js) := hsent
  rw [hsent] at hhold
  generalize dateOf L M d x = date at hhold ⊢
  generalize recordFor L M d at_ x = r at hhold ⊢
  constructor
  · rintro ⟨hold, t, hh, hparse, -⟩ text rfl hnone
    rw [hhold] at hh
    cases hh
    simp [dated, holdOf, hnone] at hparse
  · intro hread
    -- The time it counts from.
    have hset : ∃ t, L.js.parse (holdOf M (date.map (dated L.js)) (L.js.iso at_)).setAt = some t ∧
        (date.bind L.js.parse = none → t = at_) := by
      cases date with
      | none => exact ⟨at_, by simpa [holdOf] using hnow, fun _ => rfl⟩
      | some text =>
        cases hp : L.js.parse text with
        | none => exact absurd hp (hread text rfl)
        | some t =>
          refine ⟨t, by simpa [dated, holdOf, hp] using hdates text t hp, fun hn => ?_⟩
          simp [hp] at hn
    obtain ⟨t, ht, hcount⟩ := hset
    refine ⟨_, t, hhold, ht, hcount, fun records hr => lasts_of_held fun now hlt => ?_⟩
    refine (isHeld_iff records now).2 ⟨r, hr, _, t, hhold, ht, fun ms hms => ?_⟩
    exact Int.lt_of_lt_of_le (hlt ms hms) (Int.le_max_right _ _)

/-! ## A run -/

/-- An operator's message on disk as the adapter writes it, with no date that can be read. -/
structure Undated (L : Loop) (M : Mail) (r : MessageRecord) : Prop where
  role : r.role = .operator
  hold : r.hold = some (holdOf M r.sentAt r.receivedAt)
  undated : r.sentAt.bind L.js.parse = none

/-- A turn that starts in the conversation now, starts too soon after the operator's message. -/
def TooSoon (L : Loop) (M : Mail) (t : Entry) (conversationId : String) : Prop :=
  Policy.holdApplies L.channel conversationId = true ∧ ∃ r ∈ t.disk.records.rows,
    r.conversationId = conversationId ∧ Undated L M r ∧
    ∃ received, L.js.parse r.receivedAt = some received ∧
      ∀ ms, M.channel.releaseAfterMs = some ms → t.clock < received + ms

/-- An operator's message that gives no date at all holds its conversation from the moment it was
received. -/
theorem held_of_tooSoon {t : Entry} {conversationId : String} (h : TooSoon L M t conversationId)
    (hdated : ∀ r ∈ t.disk.records.rows, Undated L M r → r.sentAt = none) :
    Held L t.disk t.clock conversationId := by
  obtain ⟨happlies, r, hr, hconv, hu, received, hp, hlt⟩ := h
  refine ⟨happlies, (isHeld_iff _ _).2 ⟨r, ?_, _, received, hu.hold, ?_, fun ms hms => ?_⟩⟩
  · simp [conversation, hr, hconv]
  · simpa [holdOf, hdated r hr hu] using hp
  · exact Int.lt_of_lt_of_le (hlt ms hms) (Int.le_max_right _ _)

/-- The records the adapter writes of such messages. -/
theorem recordFor_undated (hop : (recordFor L M d at_ x).role = .operator)
    (hdate : (dateOf L M d x).bind L.js.parse = none) : Undated L M (recordFor L M d at_ x) := by
  obtain ⟨hhold, hsent, hreceived⟩ := recordFor_operator hop
  refine ⟨hop, by rw [hreceived]; exact hhold, ?_⟩
  rw [hsent, sentAt]
  unfold dateOf at hdate
  cases hd : header (readItem M L.js d x).headers "date" with
  | none => rfl
  | some text =>
    rw [hd] at hdate
    have hp : L.js.parse text = none := hdate
    simp [hp]

/-- One message of the operator's holds exactly where its Date is absent or read. Those that
give no time are written `Undated`; in a run in which every one of these has no Date at all, and
no re-issued release overrides a hold, no turn starts too soon after one. -/
theorem operator_holds
    (hdates : ∀ text t, L.js.parse text = some t → L.js.parse (L.js.iso t) = some t) (M : Mail) :
    (∀ d at_ x, L.js.parse (L.js.iso at_) = some at_ → (recordFor L M d at_ x).role = .operator →
      (Holds L at_ (dateOf L M d x) (recordFor L M d at_ x) ↔ DateRead L.js (dateOf L M d x)) ∧
        ((dateOf L M d x).bind L.js.parse = none → Undated L M (recordFor L M d at_ x))) ∧
    ∀ c, (process L).Reachable c →
      (∀ t ∈ c.st.hist, ∀ r R, t.event = .begun r R true → ¬ HeldReissue.Overridden L t r) →
      (∀ t ∈ c.st.hist, ∀ r ∈ t.disk.records.rows, Undated L M r → r.sentAt = none) →
      ∀ t ∈ c.st.hist, ∀ r R reissue, t.event = .begun r R reissue →
        ¬ TooSoon L M t r.conversationId := by
  refine ⟨fun d at_ x hnow hop => ⟨holds_iff hdates hnow hop, recordFor_undated hop⟩,
    fun c hc hre hdated t ht r R reissue he hsoon => ?_⟩
  have hheld : HeldReissue.Overridden L t r := held_of_tooSoon hsoon (hdated t ht)
  cases reissue with
  | true => exact hre t ht r R he hheld
  | false =>
    exact (HeldReissue.written_lasts L).reachable
      (fun s h t ht => by rw [h.2.2.2.1] at ht; cases ht) hc t ht r R he hheld

/-! ## The operator writes, and the client is answered -/

def epoch : String := "1970-01-01T00:00:00.000Z"

/-- `Date` at the epoch. -/
def epochJs : Js :=
  { plainJs with
    parse := fun text => if text = epoch then some 0 else none
    iso := fun t => if t = 0 then epoch else "" }

abbrev mail : Channel := { kind := "email", account := "a@b" }

def mailbox : Mail := { agent := "agent", account := "a@b" }

abbrev mailLoop : Loop := { oneLoop mail { channels := [mail] } with js := epochJs }

instance (q : Ask) (a : q.Answer) (w : World) : Decidable (mailLoop.outside q a w) :=
  inferInstanceAs (Decidable True)

def headersOf (fields : List (String × String)) : List Header :=
  fields.map fun (name, text) => { name, value := text, raw := text }

def item (position : String) (fields : List (String × String)) : Item :=
  { position, message := .ok { headers := headersOf fields } }

def fromOperator (date : List (String × String)) : Item :=
  item "1" ([("message-id", "<o>"), ("references", "<r>"), ("from", "a@b"), ("to", "c@d")] ++ date)

def fromClient (root : String) : Item :=
  item "2" [("message-id", "<m>"), ("references", root), ("from", "c@d"), ("to", "a@b")]

/-- A pass captures the items and releases what it may. -/
def script (items : List Item) : List (Service.Episode (sig mailLoop) Job) :=
  let payload := payloadOf mailbox epochJs {} epoch items
  [.boot (Given.answer {}), .job .pass (Given.answer { batch := { entries := payload.entries } })]

def soon (t : Entry) (conversationId : String) : Bool :=
  Policy.holdApplies mail conversationId && t.disk.records.rows.any fun r =>
    r.conversationId = conversationId && r.role = .operator &&
      r.hold = some (holdOf mailbox r.sentAt r.receivedAt) &&
      (r.sentAt.bind epochJs.parse).isNone && r.receivedAt = epoch && t.clock < 3600000

theorem tooSoon_of_soon {t : Entry} {conversationId : String} (h : soon t conversationId = true) :
    TooSoon mailLoop mailbox t conversationId := by
  simp only [soon, Bool.and_eq_true, List.any_eq_true, decide_eq_true_eq, Option.isNone_iff_eq_none]
    at h
  obtain ⟨happlies, r, hr, ⟨⟨⟨⟨hc, hrole⟩, hhold⟩, hundated⟩, hreceived⟩, hclock⟩ := h
  refine ⟨happlies, r, hr, hc, ⟨hrole, hhold, hundated⟩, 0, ?_, fun ms hms => ?_⟩
  · rw [hreceived]
    rfl
  · cases hms
    simpa using hclock

def answeredSoon (w : World) : Bool :=
  w.hist.any fun t => match t.event with
    | .begun r _ false => soon t r.conversationId
    | _ => false

theorem unread_date_answered : ∃ c : Service.State (sig mailLoop), (process mailLoop).Reachable c ∧
    ∃ t ∈ c.st.hist, ∃ r R, t.event = .begun r R false ∧
      TooSoon mailLoop mailbox t r.conversationId := by
  obtain ⟨c, hc, hrun⟩ := played (L := mailLoop) answeredSoon
    (script [fromOperator [("date", "yesterday")], fromClient "<r>"]) (by decide +kernel)
  obtain ⟨t, ht, hrun⟩ := List.any_eq_true.1 hrun
  refine ⟨c, hc, t, ht, ?_⟩
  split at hrun
  · rename_i r R he
    exact ⟨r, R, he, tooSoon_of_soon hrun⟩
  · cases hrun

theorem epochJs_dates (text : String) (t : Int) (h : epochJs.parse text = some t) :
    epochJs.parse (epochJs.iso t) = some t := by
  simp only [epochJs] at h
  split at h
  · cases h
    rfl
  · cases h

def begins (w : World) : Bool :=
  w.hist.any fun t => match t.event with
    | .begun _ _ _ => true
    | _ => false

def reissues (e : Event) : Bool :=
  match e with
  | .begun _ _ true => true
  | _ => false

/-- The operator writes in one conversation, and a client is answered in another. -/
theorem operator_holds_run :
    Holds mailLoop 0 none (recordFor mailLoop mailbox {} 0 (fromOperator [])) ∧
      ∃ c : Service.State (sig mailLoop), (process mailLoop).Reachable c ∧ begins c.st = true ∧
        ∀ t ∈ c.st.hist, ∀ r R reissue, t.event = .begun r R reissue →
          ¬ TooSoon mailLoop mailbox t r.conversationId := by
  obtain ⟨c, hc, hrun⟩ := played (L := mailLoop) (fun w => begins w &&
      w.hist.all fun t =>
        !reissues t.event && t.disk.records.rows.all fun r => r.role ≠ .operator || r.sentAt = none)
    (script [fromOperator [], fromClient "<s>"]) (by decide +kernel)
  simp only [Bool.and_eq_true, Bool.not_eq_true', List.all_eq_true, Bool.or_eq_true,
    decide_eq_true_eq] at hrun
  obtain ⟨hbegins, hall⟩ := hrun
  have hholds := operator_holds (L := mailLoop) epochJs_dates mailbox
  refine ⟨(hholds.1 {} 0 (fromOperator []) rfl (by decide +kernel)).1.2 (fun text h => ?_), c, hc,
    hbegins, hholds.2 c hc (fun t ht r R he => ?_) fun t ht r hr hu => ?_⟩
  · have : dateOf mailLoop mailbox {} (fromOperator []) = none := by decide +kernel
    rw [this] at h
    cases h
  · have := (hall t ht).1
    rw [he] at this
    cases this
  · rcases (hall t ht).2 r hr with h | h
    · exact absurd hu.role h
    · exact h

end CarbonRuntime.Bugs.UnreadDate
