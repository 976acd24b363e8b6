import CarbonRuntime.Adapters.Email.AgentMail
import CarbonRuntime.Runtime.Process
import Mathlib.Data.List.Pairwise

/-!
# Two messages of a thread within one millisecond

Over the AgentMail API the position of a message in its conversation is its timestamp, cut to
the millisecond (adapters/email/agentmail-api.ts:317), and a conversation's cursor is compared
strictly (stream/store.ts:528-539, adapters/email/index.ts:420-431). A message that becomes
visible after another of its thread with the same millisecond was captured is listed by every
poll from then on and pending in none.

Where every message a poll lists is either captured and not pending, or pending and captured
as a record nothing else is read as, every poll leaves exactly one record of its own for each
message the inbox has, wherever the polls cut it and whatever dies between a capture and the
cursors (`captured_once`).

Counterexample: two messages of a thread with one timestamp, the second of them there from the
second poll on.
-/

open CarbonRuntime.Core CarbonRuntime.Stream

namespace CarbonRuntime.Bugs.TiedTimestamps

open Store Adapters Adapters.Email

variable {M : Mail} {J : Js} {d d' : Disk} {items : List Item} {x y : Item} {m : Provided}
  {l : List Provided} {k : String × String} {t : Table MessageRecord.id} {r : MessageRecord}

/-! ## The records of a message -/

/-- The record is the one a readable message was captured as. -/
def isOwn (k : String × String) (r : MessageRecord) : Bool :=
  r.conversationId = k.1 && r.platformMessageId = k.2 && r.disposition ≠ .parked

/-- The bodies of the records of a message's own. -/
def ownBodies (t : Table MessageRecord.id) (k : String × String) : List String :=
  (t.rows.filter (isOwn k)).map (·.body)

/-- A merge adds attachments only. -/
theorem ownBodies_old {old : MessageRecord} (h : t.find r.id = some old) :
    ownBodies (stored t r) k = ownBodies t k := by
  unfold stored
  rw [h]
  dsimp only
  split
  · rfl
  · split
    · have hold : old.id = r.id := Table.find_key h
      have hid : (mergeRecords old r).id = r.id := hold
      have hrows := Table.map_rows_put (fun r : MessageRecord => (isOwn k r, r.body))
        (t := t) (a := mergeRecords old r) (b := old) (by rw [hid, h]) rfl
      have hall : ∀ rows : List MessageRecord, (rows.filter (isOwn k)).map (·.body) =
          ((rows.map fun r => (isOwn k r, r.body)).filter (·.1)).map (·.2) := by
        intro rows
        rw [List.filter_map, List.map_map]
        rfl
      rw [ownBodies, ownBodies, hall, hrows, hall]
    · rfl

theorem ownBodies_new (h : t.find r.id = none) :
    ownBodies (stored t r) k = ownBodies t k ++ if isOwn k r then [r.body] else [] := by
  unfold stored
  rw [h]
  dsimp only
  rw [ownBodies, Table.rows_put_new h, List.filter_append, List.map_append]
  congr 1
  rw [List.filter_cons]
  split <;> rfl

/-- Records that are nowhere yet, one a path. -/
theorem ownBodies_fresh : ∀ {rs : List MessageRecord} {t : Table MessageRecord.id},
    (∀ r ∈ rs, t.find r.id = none) → (rs.Pairwise fun r r' => r.id ≠ r'.id) →
    ownBodies (rs.foldl stored t) k = ownBodies t k ++ (rs.filter (isOwn k)).map (·.body)
  | [], t, _, _ => by simp
  | r :: rs, t, hnew, hapart => by
    rw [List.pairwise_cons] at hapart
    rw [List.foldl_cons, ownBodies_fresh (t := stored t r) (fun r' hr' => ?_) hapart.2,
      ownBodies_new (hnew r List.mem_cons_self), List.append_assoc, List.filter_cons]
    · congr 1
      split <;> simp
    · rw [find_stored, if_neg (Ne.symm (hapart.1 r' hr'))]
      exact hnew r' (List.mem_cons_of_mem _ hr')

/-- What is nobody's own. -/
theorem ownBodies_others : ∀ {rs : List MessageRecord} {t : Table MessageRecord.id},
    (∀ r ∈ rs, isOwn k r = false) → ownBodies (rs.foldl stored t) k = ownBodies t k
  | [], _, _ => rfl
  | r :: rs, t, h => by
    rw [List.foldl_cons, ownBodies_others fun r' hr' => h r' (List.mem_cons_of_mem _ hr')]
    cases hr : t.find r.id with
    | none => rw [ownBodies_new hr, h r List.mem_cons_self]; simp
    | some old => exact ownBodies_old hr

/-! ## The writes of a batch -/

variable {batch : Payload} {receivedAt : String}

/-- However far the parking comes, what it writes is parked. -/
theorem parked_own (cs : List (Candidate × String)) (d : Disk) :
    ownBodies (Task.each (parking J) cs d).2.records k = ownBodies d.records k := by
  refine Task.each_keeps (K := fun d' => ownBodies d'.records k = ownBodies d.records k)
    (fun c _ d' h => ?_) d rfl
  rw [parking_disk, captured_records]
  split
  · have hnone : ∀ r ∈ [parkedRecord c.1.record c.2], isOwn k r = false := by
      simp [isOwn, parkedRecord]
    exact (ownBodies_others (t := d'.records) hnone).trans h
  · exact h

/-! ## The watermark -/

/-- Where the next poll lists from. -/
def held (M : Mail) (d : Disk) : Option String :=
  (d.cursorsOf (pollWatermarkConversation M M.channel.mailbox)).message

/-- The watermark stays, or is at one of the items. -/
def HeldAt (M : Mail) (before : Option String) (items : List Item) (d : Disk) : Prop :=
  held M d = before ∨ ∃ x ∈ items, held M d = some x.position

theorem heldAt_advance {before : Option String} (h : HeldAt M before items d) (hx : x ∈ items)
    (c : String) (kind : CursorKind) : HeldAt M before items (d.advance c kind x.position) := by
  have hat : held M (d.advance c kind x.position) = some x.position ∨
      held M (d.advance c kind x.position) = held M d := by
    have := at_advance d c (pollWatermarkConversation M M.channel.mailbox) kind .message x.position
    by_cases hc : pollWatermarkConversation M M.channel.mailbox = c ∧ .message = kind ∧
        past x.position ((d.cursorsOf c).at' kind) = true
    · exact .inl (this.trans (if_pos hc))
    · exact .inr (this.trans (if_neg hc))
  rcases hat with hat | hat
  · exact .inr ⟨x, hx, hat⟩
  · rw [HeldAt, hat]
    exact h

theorem heldAt_captured {before : Option String} {kind : CursorKind} {typeFaults : List Fault}
    {raw : Option String} (h : HeldAt M before items d) (hx : x ∈ items) :
    HeldAt M before items (captured J r (some (kind, x.position)) typeFaults raw d).2 := by
  have hcur := captured_cursors (J := J) (r := r) (d := d) (some (kind, x.position)) typeFaults raw
  unfold HeldAt held Disk.cursorsOf at *
  rw [hcur]
  split
  · exact heldAt_advance (M := M) h hx _ _
  · exact h

/-- Every cursor of a candidate is the position of its item. -/
theorem candidate_cursor (receivedAt : String) (x : Item) : ∃ kind,
    (candidateOf M J d receivedAt x).1.cursor = some (kind, x.position) := by
  cases hc : (readItem M J d x).content with
  | ok message => exact ⟨_, by rw [candidateOf_ok hc]⟩
  | error reason => exact ⟨_, by rw [candidateOf_error hc]⟩

theorem mem_entries {c : Candidate} (h : c ∈ (payloadOf M J d receivedAt items).entries) :
    ∃ x ∈ items, c = (candidateOf M J d receivedAt x).1 ∧
      (candidateOf M J d receivedAt x).2 = none := by
  simp only [Email.payloadOf, List.mem_map, List.mem_filter] at h
  obtain ⟨_, ⟨⟨x, hx, rfl⟩, hn⟩, rfl⟩ := h
  exact ⟨x, hx, rfl, Option.isNone_iff_eq_none.1 hn⟩

theorem mem_parked {c : Candidate × String} (h : c ∈ (payloadOf M J d receivedAt items).parked) :
    ∃ x ∈ items, c.1 = (candidateOf M J d receivedAt x).1 := by
  simp only [Email.payloadOf, List.mem_filterMap, List.mem_map] at h
  obtain ⟨_, ⟨x, hx, rfl⟩, hc⟩ := h
  obtain ⟨reason, -, rfl⟩ := Option.map_eq_some_iff.1 hc
  exact ⟨x, hx, rfl⟩

/-- What a poll's items are: each is placed in the mailbox as in its conversation. -/
def Placed (items : List Item) : Prop := ∀ x ∈ items, x.mailboxPosition.getD x.position = x.position

theorem heldAt_captureTo (n : Nat) (listed at_ : Int) (hp : Placed items) :
    HeldAt M (held M d) (items.filter (isPending M J d))
      ((adapter M J).captureTo J n listed at_ items d) := by
  unfold Adapter.captureTo
  simp only [adapter, listPending]
  split
  · exact .inl rfl
  · refine Task.bind_keeps (K := HeldAt M (held M d) (items.filter (isPending M J d)))
      (Task.bind_keeps (K := HeldAt M (held M d) (items.filter (isPending M J d)))
        (Task.each_keeps (fun c hc d₁ h₁ => ?_) d (.inl rfl)) fun _ d₁ h₁ =>
          Task.each_keeps (fun c hc d₂ h₂ => ?_) d₁ h₁) fun _ d₁ h₁ =>
      Task.each_keeps (fun x hx d₂ h₂ => ?_) d₁ h₁
    · obtain ⟨x, hx, rfl, -⟩ := mem_entries hc
      unfold entry
      split
      · exact h₁
      · obtain ⟨kind, hcur⟩ := candidate_cursor (M := M) (J := J) (d := d) (J.iso at_) x
        rw [hcur]
        exact heldAt_captured h₁ hx
    · obtain ⟨x, hx, hcx⟩ := mem_parked hc
      obtain ⟨kind, hcur⟩ := candidate_cursor (M := M) (J := J) (d := d) (J.iso at_) x
      rw [parking_disk, hcx, hcur]
      exact heldAt_captured h₂ hx
    · have hx := List.mem_of_mem_take hx
      refine consuming_keeps h₂ fun c hc d₃ h₃ => ?_
      have hplace : c.2.2 = x.position := by
        simp only [consume, hp x (List.mem_of_mem_filter hx), List.mem_cons, List.not_mem_nil,
          or_false] at hc
        rcases hc with rfl | rfl <;> rfl
      rw [hplace]
      exact heldAt_advance h₃ hx _ _

/-! ## One poll -/

/-- The readable messages of a poll that are pending. -/
def pendingOf (M : Mail) (J : Js) (d : Disk) (items : List Item) : List Item :=
  items.filter fun x => isPending M J d x && (keyOf M x).isSome

/-- A readable message a poll lists is captured and not pending, or it is pending, the store
takes it, and nothing is where it is read as and nothing of the poll is read as the same. -/
structure Clear (M : Mail) (J : Js) (d : Disk) (items : List Item) : Prop where
  left : ∀ x ∈ items, ∀ k, keyOf M x = some k → ownBodies d.records k ≠ [] →
    isPending M J d x = false
  taken : ∀ x ∈ items, ∀ k, keyOf M x = some k → ownBodies d.records k = [] →
    isPending M J d x = true ∧ d.records.find (readItem M J d x).id = none ∧
      ∀ at_, captureFaults J (candidateOf M J d (J.iso at_) x).1.record [] = []
  apart : (pendingOf M J d items).Pairwise fun x y => (readItem M J d x).id ≠ (readItem M J d y).id

theorem mem_pendingOf (h : x ∈ pendingOf M J d items) :
    x ∈ items ∧ isPending M J d x = true ∧ ∃ k, keyOf M x = some k := by
  simpa [pendingOf, Option.isSome_iff_exists] using h

theorem Clear.fresh (h : Clear M J d items) (hx : x ∈ pendingOf M J d items) :
    d.records.find (readItem M J d x).id = none ∧
      ∀ at_, captureFaults J (candidateOf M J d (J.iso at_) x).1.record [] = [] := by
  obtain ⟨hi, hpend, k, hk⟩ := mem_pendingOf hx
  by_cases hown : ownBodies d.records k = []
  · exact (h.taken x hi k hk hown).2
  · rw [h.left x hi k hk hown] at hpend
    cases hpend

theorem candidate_readable : (candidateOf M J d receivedAt x).2.isNone = (keyOf M x).isSome := by
  cases hk : keyOf M x with
  | some k =>
    rw [(candidate_entry (readable_of_keyOf hk) receivedAt).1]
    rfl
  | none =>
    have herror : ∃ reason, (readItem M J d x).content = .error reason := by
      cases hm : x.message with
      | error reason => exact ⟨_, by simp only [readItem, hm, unreadable]; split <;> rfl⟩
      | ok message =>
        have hid : ownIdOf message.headers = none := by simpa [keyOf, hm] using hk
        have hid : ownIdOf (x.with_ message).headers = none := hid
        exact ⟨noMessageId, by simp only [readItem, hm, hid, unreadable]⟩
    obtain ⟨reason, hreason⟩ := herror
    rw [candidateOf_error hreason]
    rfl

theorem payload_pending : (payloadOf M J d receivedAt (items.filter (isPending M J d))).entries =
    (pendingOf M J d items).map fun x => (candidateOf M J d receivedAt x).1 := by
  simp only [Email.payloadOf, List.filter_map, List.map_map, Function.comp_def, candidate_readable,
    List.filter_filter, pendingOf, Bool.and_comm]

theorem isOwn_iff : isOwn k r = true ↔
    (r.conversationId, r.platformMessageId) = k ∧ r.disposition ≠ .parked := by
  simp [isOwn, Prod.ext_iff]

theorem candidate_own {k' : String × String} (receivedAt : String) (h : keyOf M x = some k') :
    isOwn k (candidateOf M J d receivedAt x).1.record = decide (keyOf M x = some k) := by
  obtain ⟨message, -, hc⟩ := readItem_content (M := M) (J := J) (d := d) (readable_of_keyOf h)
  have hkey := readItem_key (J := J) (d := d) h
  have hd : (recordOf M J d receivedAt (readItem M J d x) (x.with_ message)).disposition ≠
      .parked := by
    simp only [recordOf]
    split <;> simp
  rw [Bool.eq_iff_iff, isOwn_iff, candidateOf_ok hc, decide_eq_true_iff, h, ← hkey]
  constructor
  · intro hk
    rw [← hk.1]
    rfl
  · intro hk
    exact ⟨Option.some.inj hk, hd⟩

theorem records_own (receivedAt : String) : ((((pendingOf M J d items).map fun x =>
      (candidateOf M J d receivedAt x).1).map (·.record)).filter (isOwn k)).map (·.body) =
    (items.filter fun x => isPending M J d x && decide (keyOf M x = some k)).map bodyOf := by
  have hcongr : ∀ x ∈ items, (isOwn k (candidateOf M J d receivedAt x).1.record &&
      (isPending M J d x && (keyOf M x).isSome)) =
        (isPending M J d x && decide (keyOf M x = some k)) := by
    intro x _
    cases hk : keyOf M x with
    | none => simp
    | some k' =>
      rw [candidate_own receivedAt hk, hk]
      simp [Bool.and_comm]
  rw [List.map_map, List.filter_map, List.map_map, pendingOf, List.filter_filter]
  simp only [Function.comp_def]
  rw [List.filter_congr hcongr]
  refine List.map_congr_left fun x hx => ?_
  simp only [List.mem_filter, Bool.and_eq_true, decide_eq_true_eq] at hx
  exact (candidate_entry (readable_of_keyOf hx.2.2) receivedAt).2.2.1

/-- What a poll adds: a record for each message that is pending, and no other. -/
theorem captureTo_own (n : Nat) (listed at_ : Int) (h : Clear M J d items) :
    ownBodies ((adapter M J).captureTo J n listed at_ items d).records k =
      ownBodies d.records k ++
        (items.filter fun x => isPending M J d x && decide (keyOf M x = some k)).map bodyOf := by
  have hentry : ∀ x ∈ pendingOf M J d items,
      (candidateOf M J d (J.iso at_) x).1.record.id = (readItem M J d x).id ∧
        (candidateOf M J d (J.iso at_) x).1.typeFaults = [] := by
    intro x hx
    obtain ⟨-, -, k', hk'⟩ := mem_pendingOf hx
    obtain ⟨-, hid, -, -, htype⟩ := candidate_entry (M := M) (J := J) (d := d)
      (readable_of_keyOf hk') (J.iso at_)
    exact ⟨hid, htype⟩
  have hfaults : ∀ c ∈ (pendingOf M J d items).map fun x => (candidateOf M J d (J.iso at_) x).1,
      captureFaults J c.record c.typeFaults = [] := by
    intro c hc
    obtain ⟨x, hx, rfl⟩ := List.mem_map.1 hc
    rw [(hentry x hx).2]
    exact (h.fresh hx).2 at_
  obtain ⟨hok, hrecords⟩ := entries_stored (d := d) hfaults
  have hputting : ownBodies (putting J (payloadOf M J d (J.iso at_)
      (items.filter (isPending M J d))) d).2.records k = ownBodies d.records k ++
        (items.filter fun x => isPending M J d x && decide (keyOf M x = some k)).map bodyOf := by
    rw [putting, payload_pending, Task.bind_of_ok (Prod.ext hok rfl), parked_own, hrecords,
      ownBodies_fresh, records_own]
    · intro r hr
      rw [List.map_map] at hr
      obtain ⟨x, hx, rfl⟩ := List.mem_map.1 hr
      rw [Function.comp_apply, (hentry x hx).1]
      exact (h.fresh hx).1
    · rw [List.pairwise_map, List.pairwise_map]
      exact h.apart.imp_of_mem fun hx hy hne => by rwa [(hentry _ hx).1, (hentry _ hy).1]
  unfold Adapter.captureTo
  simp only [adapter, listPending]
  split
  · rename_i hempty
    have hnone : ∀ x ∈ items, isPending M J d x = false := by
      simpa [List.isEmpty_iff] using hempty
    rw [List.filter_eq_nil_iff.2 fun x hx => by simp [hnone x hx], List.map_nil, List.append_nil]
  · refine Task.bind_keeps (K := fun d' : Disk => ownBodies d'.records k = _) hputting fun _ d₁ h₁ => ?_
    rw [consuming_records]
    exact h₁

/-! ## The inbox and the polls -/

/-- The provider's inbox, as it is at the end: messages are only added behind. -/
structure Inbox (J : Js) (l : List Provided) : Prop where
  dated : ∀ m ∈ l, ∃ t, J.parse m.timestamp = some t
  ordered : l.Pairwise fun m m' => ∀ t t', J.parse m.timestamp = some t →
    J.parse m'.timestamp = some t' → t ≤ t'
  distinct : l.Pairwise fun m m' => ∀ message message' ownId, m.message = .ok message →
    m'.message = .ok message' → ownIdOf message.headers = some ownId →
      ownIdOf message'.headers ≠ some ownId

/-- A poll: how many messages the inbox has by then, the pages of the answer, the clock, and how
many items are consumed before the process dies, all of them where it does not. -/
structure Poll where
  arrived : Nat
  pages : List (List Provided)
  listed : Int
  at_ : Int
  consumed : Nat

/-- The message is at or after the moment the list call is given. -/
def atOrAfter (J : Js) (after : Option String) (m : Provided) : Bool :=
  match after.bind J.parse, J.parse m.timestamp with
  | some t, some t' => t ≤ t'
  | _, _ => true

def Poll.handed (M : Mail) (J : Js) (p : Poll) : Option (List Item) :=
  pollAgentMail J M.channel.mailbox p.pages

def Poll.leaves (M : Mail) (J : Js) (p : Poll) (d : Disk) : Disk :=
  match p.handed M J with
  | none => d
  | some items => (adapter M J).captureTo J p.consumed p.listed p.at_ items d

/-- The store after the polls, the last of them first: each is answered every message at or
after the watermark, and each meets a clear store. -/
inductive Run (M : Mail) (J : Js) (l : List Provided) : List Poll → Disk → Prop
  | start : Run M J l [] {}
  | poll {polls d} (p : Poll) : Run M J l polls d →
      p.pages.flatten = (l.take p.arrived).filter (atOrAfter J (held M d)) →
      (∀ items, p.handed M J = some items → Clear M J d items) →
      Run M J l (p :: polls) (p.leaves M J d)

/-- The item of a message, whose timestamp is a date. -/
def itemOf (M : Mail) (J : Js) (m : Provided) : Item :=
  { mailbox := some M.channel.mailbox, mailboxPosition := some (J.iso ((J.parse m.timestamp).getD 0))
    position := J.iso ((J.parse m.timestamp).getD 0), raw := m.raw, message := m.message
    agentmailAttachments := some m.attachments }

theorem items_eq (h : ∀ m ∈ l, ∃ t, J.parse m.timestamp = some t) :
    l.mapM (itemFor J M.channel.mailbox) = some (l.map (itemOf M J)) := by
  induction l with
  | nil => rfl
  | cons m l ih =>
    obtain ⟨t, ht⟩ := h m List.mem_cons_self
    have hm : itemFor J M.channel.mailbox m = some (itemOf M J m) := by
      simp [itemFor, itemOf, ht]
    rw [List.mapM_cons, hm, ih fun m' hm' => h m' (List.mem_cons_of_mem _ hm')]
    rfl

/-- Every message is on the record at most once, and the watermark has left none behind. -/
structure Kept (M : Mail) (J : Js) (l : List Provided) (d : Disk) : Prop where
  once : ∀ m ∈ l, ∀ k, keyOf M (itemOf M J m) = some k →
    ownBodies d.records k = [] ∨ ownBodies d.records k = [bodyOf (itemOf M J m)]
  behind : ∀ text, held M d = some text → ∃ t, J.parse text = some t ∧
    ∀ m ∈ l, ∀ t', J.parse m.timestamp = some t' → t' < t →
      ∀ k, keyOf M (itemOf M J m) = some k → ownBodies d.records k ≠ []

theorem filter_one {α : Type} {q : α → Bool} : ∀ {l : List α},
    (l.Pairwise fun x y => q x = true → ¬ q y = true) →
    l.filter q = [] ∨ ∃ x ∈ l, q x = true ∧ l.filter q = [x]
  | [], _ => .inl rfl
  | x :: l, h => by
    rw [List.pairwise_cons] at h
    by_cases hx : q x = true
    · rw [List.filter_cons_of_pos hx, List.filter_eq_nil_iff.2 fun y hy => h.1 y hy hx]
      exact .inr ⟨x, List.mem_cons_self, hx, rfl⟩
    · rw [List.filter_cons_of_neg hx]
      rcases filter_one h.2 with h | ⟨y, hy, hq, h⟩
      · exact .inl h
      · exact .inr ⟨y, List.mem_cons_of_mem _ hy, hq, h⟩

theorem keyOf_ownId {m : Provided} (h : keyOf M (itemOf M J m) = some k) :
    ∃ message, m.message = .ok message ∧ ownIdOf message.headers = some k.2 := by
  have hm : (itemOf M J m).message = m.message := rfl
  unfold keyOf at h
  rw [hm] at h
  split at h
  · rename_i message hm
    obtain ⟨own, hid, rfl⟩ := Option.map_eq_some_iff.1 h
    exact ⟨message, hm, hid⟩
  · cases h

theorem Inbox.apart (hl : Inbox J l) : l.Pairwise fun m m' => ∀ k,
    keyOf M (itemOf M J m) = some k → ¬ keyOf M (itemOf M J m') = some k := by
  refine hl.distinct.imp fun h k hk hk' => ?_
  obtain ⟨message, hm, hid⟩ := keyOf_ownId hk
  obtain ⟨message', hm', hid'⟩ := keyOf_ownId hk'
  exact h message message' k.2 hm hm' hid hid'

theorem Inbox.unique (hl : Inbox J l) {m m' : Provided} (hm : m ∈ l) (hm' : m' ∈ l)
    (hk : keyOf M (itemOf M J m) = some k) (hk' : keyOf M (itemOf M J m') = some k) : m = m' := by
  by_contra hne
  have hsymm : Std.Symm fun m m' => ∀ k, keyOf M (itemOf M J m) = some k →
      ¬ keyOf M (itemOf M J m') = some k := ⟨fun _ _ h k hk' hk => h k hk hk'⟩
  exact hl.apart.forall hm hm' hne k hk hk'

section poll
variable {p : Poll} (hl : Inbox J l)
include hl

/-- What is answered is in the inbox, and handed over as it is. -/
theorem handed_eq (hanswer : p.pages.flatten = (l.take p.arrived).filter (atOrAfter J (held M d))) :
    p.pages.flatten.Sublist l ∧ p.handed M J = some (p.pages.flatten.map (itemOf M J)) := by
  have hsub : p.pages.flatten.Sublist l :=
    hanswer ▸ List.filter_sublist.trans (List.take_sublist _ _)
  exact ⟨hsub, items_eq fun m hm => hl.dated m (hsub.subset hm)⟩

/-- A poll adds at most the one record of a message that is not captured. -/
theorem poll_own (hanswer : p.pages.flatten = (l.take p.arrived).filter (atOrAfter J (held M d)))
    (hclear : Clear M J d (p.pages.flatten.map (itemOf M J))) {m : Provided} (hm : m ∈ l)
    (hk : keyOf M (itemOf M J m) = some k) :
    ownBodies (p.leaves M J d).records k = ownBodies d.records k ∨
      ownBodies d.records k = [] ∧
        ownBodies (p.leaves M J d).records k = [bodyOf (itemOf M J m)] := by
  obtain ⟨hsub, hhanded⟩ := handed_eq (M := M) hl hanswer
  have hown := captureTo_own (k := k) p.consumed p.listed p.at_ hclear
  rw [Poll.leaves, hhanded]
  dsimp only
  rw [hown]
  have hone : (p.pages.flatten.map (itemOf M J)).Pairwise fun x y =>
      (isPending M J d x && decide (keyOf M x = some k)) = true →
        ¬ (isPending M J d y && decide (keyOf M y = some k)) = true := by
    rw [List.pairwise_map]
    refine ((hl.apart (M := M)).sublist hsub).imp fun h hx hy => ?_
    simp only [Bool.and_eq_true, decide_eq_true_eq] at hx hy
    exact h k hx.2 hy.2
  rcases filter_one hone with hnone | ⟨x, hx, hq, hfilter⟩
  · rw [hnone]
    exact .inl (by simp)
  · simp only [Bool.and_eq_true, decide_eq_true_eq] at hq
    obtain ⟨m', hm', rfl⟩ := List.mem_map.1 hx
    have hempty : ownBodies d.records k = [] := by
      by_contra hne
      have := hclear.left _ hx k hq.2 hne
      rw [hq.1] at this
      cases this
    rw [hfilter, hempty, hl.unique hm (hsub.subset hm') hk hq.2]
    exact .inr ⟨rfl, by simp⟩

theorem poll_once (h : Kept M J l d)
    (hanswer : p.pages.flatten = (l.take p.arrived).filter (atOrAfter J (held M d)))
    (hclear : Clear M J d (p.pages.flatten.map (itemOf M J))) {m : Provided}
    (hm : m ∈ l.take p.arrived) (hk : keyOf M (itemOf M J m) = some k) :
    ownBodies (p.leaves M J d).records k = [bodyOf (itemOf M J m)] := by
  have hml := List.mem_of_mem_take hm
  rcases poll_own hl hanswer hclear hml hk with hsame | ⟨-, hnew⟩
  · rw [hsame]
    refine (h.once m hml k hk).resolve_left fun hempty => ?_
    by_cases hafter : atOrAfter J (held M d) m = true
    · -- It is listed, so it is pending.
      have hmem : m ∈ p.pages.flatten := hanswer ▸ List.mem_filter.2 ⟨hm, hafter⟩
      have hx := List.mem_map_of_mem (f := itemOf M J) hmem
      have hpend := (hclear.taken _ hx k hk hempty).1
      obtain ⟨-, hhanded⟩ := handed_eq (M := M) hl hanswer
      have hown := captureTo_own (k := k) p.consumed p.listed p.at_ hclear
      have hin : itemOf M J m ∈ (p.pages.flatten.map (itemOf M J)).filter fun x =>
          isPending M J d x && decide (keyOf M x = some k) :=
        List.mem_filter.2 ⟨hx, by simp [hpend, hk]⟩
      rw [Poll.leaves, hhanded] at hsame
      dsimp only at hsame
      rw [hown, hempty, List.nil_append, List.map_eq_nil_iff] at hsame
      rw [hsame] at hin
      cases hin
    · -- It is behind the watermark, so it is captured.
      unfold atOrAfter at hafter
      split at hafter
      · rename_i t t' ht ht'
        obtain ⟨text, htext, hparse⟩ := Option.bind_eq_some_iff.1 ht
        obtain ⟨u, hu, hall⟩ := h.behind text htext
        rw [hparse] at hu
        cases hu
        exact hall m hml t' ht' (by simpa using hafter) k hk hempty
      · exact hafter rfl
  · exact hnew

/-- One poll. -/
theorem poll_kept (hJ : ∀ text t, J.parse text = some t → J.parse (J.iso t) = some t)
    (h : Kept M J l d)
    (hanswer : p.pages.flatten = (l.take p.arrived).filter (atOrAfter J (held M d)))
    (hclear : Clear M J d (p.pages.flatten.map (itemOf M J))) :
    Kept M J l (p.leaves M J d) where
  once m hm k hk := by
    rcases poll_own hl hanswer hclear hm hk with hsame | ⟨-, hnew⟩
    · rw [hsame]
      exact h.once m hm k hk
    · exact .inr hnew
  behind text htext := by
    obtain ⟨hsub, hhanded⟩ := handed_eq (M := M) hl hanswer
    have hplaced : Placed (p.pages.flatten.map (itemOf M J)) := by
      intro x hx
      obtain ⟨m, -, rfl⟩ := List.mem_map.1 hx
      rfl
    have hheld := heldAt_captureTo (d := d) (J := J) (M := M) p.consumed p.listed p.at_ hplaced
    have hleaves : p.leaves M J d = (adapter M J).captureTo J p.consumed p.listed p.at_
        (p.pages.flatten.map (itemOf M J)) d := by rw [Poll.leaves, hhanded]
    rw [← hleaves] at hheld
    rcases hheld with hsame | ⟨x, hx, hat⟩
    · obtain ⟨t, ht, hall⟩ := h.behind text (hsame ▸ htext)
      refine ⟨t, ht, fun m hm t' ht' hlt k hk hempty => ?_⟩
      have hbefore := hall m hm t' ht' hlt k hk
      rcases poll_own hl hanswer hclear hm hk with hsame | ⟨hnone, -⟩
      · exact hbefore (hsame ▸ hempty)
      · exact hbefore hnone
    · -- The watermark is at a message of this poll, and what is older was there with it.
      obtain ⟨m₀, hm₀, rfl⟩ := List.mem_map.1 (List.mem_of_mem_filter hx)
      obtain ⟨t, ht⟩ := hl.dated m₀ (hsub.subset hm₀)
      have hpos : (itemOf M J m₀).position = J.iso t := by simp [itemOf, ht]
      rw [htext, hpos] at hat
      cases hat
      refine ⟨t, hJ _ _ ht, fun m hm t' ht' hlt k hk => ?_⟩
      have hm₀' : m₀ ∈ l.take p.arrived := List.mem_of_mem_filter (hanswer ▸ hm₀)
      have hin : m ∈ l.take p.arrived := by
        rw [← List.take_append_drop p.arrived l, List.mem_append] at hm
        rcases hm with hm | hm
        · exact hm
        · have := hl.ordered.rel_of_mem_take_of_mem_drop hm₀' hm t t' ht ht'
          omega
      rw [poll_once hl h hanswer hclear hin hk]
      simp

end poll

/-- After every poll each readable message the inbox has is on one record of its own, and none
is ever on two. -/
theorem captured_once (hJ : ∀ text t, J.parse text = some t → J.parse (J.iso t) = some t)
    (hl : Inbox J l) {polls : List Poll} (h : Run M J l polls d) :
    (∀ m ∈ l, ∀ k, keyOf M (itemOf M J m) = some k →
      ownBodies d.records k = [] ∨ ownBodies d.records k = [bodyOf (itemOf M J m)]) ∧
    ∀ p ∈ polls, ∀ m ∈ l.take p.arrived, ∀ k, keyOf M (itemOf M J m) = some k →
      ownBodies d.records k = [bodyOf (itemOf M J m)] := by
  suffices hall : Kept M J l d ∧ ∀ p ∈ polls, ∀ m ∈ l.take p.arrived, ∀ k,
      keyOf M (itemOf M J m) = some k → ownBodies d.records k = [bodyOf (itemOf M J m)] from
    ⟨hall.1.once, hall.2⟩
  induction h with
  | start =>
    refine ⟨⟨fun _ _ _ _ => .inl rfl, fun text htext => ?_⟩, by simp⟩
    cases htext
  | @poll polls d p _ hanswer hclear ih =>
    obtain ⟨-, hhanded⟩ := handed_eq (M := M) hl hanswer
    have hclear := hclear _ hhanded
    refine ⟨poll_kept hl hJ ih.1 hanswer hclear, fun q hq m hm k hk => ?_⟩
    rcases List.mem_cons.1 hq with rfl | hq
    · exact poll_once hl ih.1 hanswer hclear hm hk
    · rcases poll_own hl hanswer hclear (List.mem_of_mem_take hm) hk with hsame | ⟨-, hnew⟩
      · rw [hsame]
        exact ih.2 q hq m hm k hk
      · exact hnew

/-! ## An inbox of two messages -/

def epoch : String := "1970-01-01T00:00:00.000Z"

def later : String := "1970-01-01T00:00:00.001Z"

/-- `Date` in the first two milliseconds. -/
def clockJs : Js :=
  { plainJs with
    parse := fun text => if text = epoch then some 0 else if text = later then some 1 else none
    iso := fun t => if t = 0 then epoch else later }

def box : Mail := { agent := "agent", account := "a@b", channel := { inbound := some agentmailApi } }

def mailAt (timestamp : String) (headers : List (String × String)) (body : String) : Provided :=
  { messageId := "", timestamp
    message := .ok
      { headers := (("from", "c@d") :: ("to", "a@b") :: headers).map fun (name, text) =>
          { name, value := text, raw := text }
        body } }

def hello : Provided := mailAt epoch [("message-id", "<m>")] "hello"

def again (timestamp : String) : Provided :=
  mailAt timestamp [("message-id", "<n>"), ("references", "<m>")] "and again"

/-- A poll of what the first `n` of the messages are, all on one page. -/
def pollOf (n : Nat) (listed : List Provided) (consumed : Nat) : Poll :=
  { arrived := n, pages := [listed], listed := 0, at_ := 0, consumed }

/-- The store after a poll of the first message, and one when both are there. -/
def twoPolls (timestamp : String) (consumed : Nat) : Disk :=
  (pollOf 2 [hello, again timestamp] 2).leaves box clockJs
    ((pollOf 1 [hello] consumed).leaves box clockJs {})

def headersOf (m : Provided) : List Header :=
  match m.message with
  | .ok message => message.headers
  | .error _ => []

theorem clockJs_dates (text : String) (t : Int) (h : clockJs.parse text = some t) :
    (t = 0 ∨ t = 1) ∧ clockJs.parse (clockJs.iso t) = some t := by
  simp only [clockJs] at h
  split at h
  · cases h
    exact ⟨.inl rfl, by decide +kernel⟩
  · split at h
    · cases h
      exact ⟨.inr rfl, by decide +kernel⟩
    · cases h

theorem inbox_of {timestamp : String} (h : timestamp = epoch ∨ timestamp = later) :
    Inbox clockJs [hello, again timestamp] where
  dated m hm := by
    simp only [List.mem_cons, List.not_mem_nil, or_false] at hm
    rcases hm with rfl | rfl
    · exact ⟨0, by decide +kernel⟩
    · rcases h with rfl | rfl
      · exact ⟨0, by decide +kernel⟩
      · exact ⟨1, by decide +kernel⟩
  ordered := by
    simp only [List.pairwise_cons, List.mem_cons, List.not_mem_nil, or_false, forall_eq,
      false_implies, implies_true, List.Pairwise.nil, and_true]
    intro t t' ht ht'
    have h0 : clockJs.parse hello.timestamp = some 0 := by decide +kernel
    have := (clockJs_dates _ _ ht').1
    rw [h0] at ht
    cases ht
    omega
  distinct := by
    simp only [List.pairwise_cons, List.mem_cons, List.not_mem_nil, or_false, forall_eq,
      false_implies, implies_true, List.Pairwise.nil, and_true]
    intro message message' ownId hm hm' hid
    cases hm
    cases hm'
    have hfirst : ownIdOf (headersOf hello) = some "m" := by decide +kernel
    have hid : ownIdOf (headersOf hello) = some ownId := hid
    rw [hfirst] at hid
    cases hid
    exact (by decide +kernel : ownIdOf (headersOf (again epoch)) ≠ some "m")

example : keyOf box (itemOf box clockJs hello) = some ("a@b:m", "m") := by decide +kernel

/-- The second message is there for the second poll, and is not captured by it or by any later. -/
theorem tie_lost : Inbox clockJs [hello, again epoch] ∧
    ([hello, again epoch].take 1).filter (atOrAfter clockJs (held box {})) = [hello] ∧
    ([hello, again epoch].take 2).filter (atOrAfter clockJs (held box
      ((pollOf 1 [hello] 1).leaves box clockJs {}))) = [hello, again epoch] ∧
    keyOf box (itemOf box clockJs (again epoch)) = some ("a@b:m", "n") ∧
    ownBodies (twoPolls epoch 1).records ("a@b:m", "n") = [] ∧
    listPending box clockJs (twoPolls epoch 1)
      ([hello, again epoch].map (itemOf box clockJs)) = [] :=
  ⟨inbox_of (.inl rfl), by decide +kernel, by decide +kernel, by decide +kernel, by decide +kernel,
    by decide +kernel⟩

/-- What `Clear` asks, where the clock writes two texts only. -/
def clears (d : Disk) (items : List Item) : Bool :=
  (items.all fun x =>
    match keyOf box x with
    | none => true
    | some k =>
      if ownBodies d.records k = [] then
        isPending box clockJs d x && (d.records.find (readItem box clockJs d x).id).isNone &&
          [epoch, later].all fun text =>
            captureFaults clockJs (candidateOf box clockJs d text x).1.record [] = []
      else !isPending box clockJs d x) &&
  (pendingOf box clockJs d items).length ≤ 1

theorem clear_of_clears {items : List Item} (h : clears d items = true) :
    Clear box clockJs d items := by
  simp only [clears, Bool.and_eq_true, List.all_eq_true, decide_eq_true_eq] at h
  obtain ⟨hall, hone⟩ := h
  refine ⟨fun x hx k hk hne => ?_, fun x hx k hk hnil => ?_, ?_⟩
  · have := hall x hx
    simp only [hk, hne, if_false, Bool.not_eq_true'] at this
    exact this
  · have := hall x hx
    simp only [hk, hnil, if_true, Bool.and_eq_true, List.all_cons, List.all_nil, Bool.and_true,
      decide_eq_true_eq, Option.isNone_iff_eq_none] at this
    refine ⟨this.1.1, this.1.2, fun at_ => ?_⟩
    simp only [clockJs]
    split
    · exact this.2.1
    · exact this.2.2
  · match hp : pendingOf box clockJs d items with
    | [] => exact .nil
    | [x] => exact List.pairwise_singleton _ x
    | _ :: _ :: _ =>
      rw [hp] at hone
      simp at hone

/-- The process dies before the first message is consumed. -/
theorem twoPolls_run : Run box clockJs [hello, again later]
    [pollOf 2 [hello, again later] 2, pollOf 1 [hello] 0] (twoPolls later 0) := by
  refine .poll _ (.poll _ .start (by decide +kernel) fun items h => ?_) (by decide +kernel)
    fun items h => ?_
  · have h' : (pollOf 1 [hello] 0).handed box clockJs = some ([hello].map (itemOf box clockJs)) := by
      decide +kernel
    rw [h'] at h
    cases h
    exact clear_of_clears (by decide +kernel)
  · have h' : (pollOf 2 [hello, again later] 2).handed box clockJs =
        some ([hello, again later].map (itemOf box clockJs)) := by decide +kernel
    rw [h'] at h
    cases h
    exact clear_of_clears (by decide +kernel)

theorem captured_once_run :
    ownBodies (twoPolls later 0).records ("a@b:m", "m") = [bodyOf (itemOf box clockJs hello)] ∧
      ownBodies (twoPolls later 0).records ("a@b:m", "n") =
        [bodyOf (itemOf box clockJs (again later))] := by
  have h := (captured_once (fun text t h => (clockJs_dates text t h).2) (inbox_of (.inr rfl))
    twoPolls_run).2 (pollOf 2 [hello, again later] 2) (by simp)
  exact ⟨h hello List.mem_cons_self _ (by decide +kernel),
    h (again later) (List.mem_cons_of_mem _ List.mem_cons_self) _ (by decide +kernel)⟩

end CarbonRuntime.Bugs.TiedTimestamps
