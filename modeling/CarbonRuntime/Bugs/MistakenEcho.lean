import CarbonRuntime.Adapters.WhatsApp.Edits
import CarbonRuntime.Adapters.WhatsApp.Send
import CarbonRuntime.Core.LTS
import CarbonRuntime.Runtime.Process
import CarbonRuntime.Stream.Changes

/-!
# An echo taken for the operator

What an account says itself comes back to the channel, and so does each message of the agent's. `isOwnSend` of
adapters/whatsapp/index.ts:306-328 leaves out the agent's: an event with one of the ids that a delivery keeps, or
with the digest of a reply's text. An id is kept where the whole send ended `sent`: `markUnknown` drops the ids of
the pieces that went out before an error, and a piece has not the text of the reply. The digest has no end in time
either: whatever says the same as a reply is left out with it.

`channel` is a channel on which replies are written, sent and settled while polls are captured. `inv_inductive`: in
every run the ids on disk are those of the pieces of the whole sends, and the digests those of the replies.
`told_apart_iff`: in every state of every run, of each event that the account said, exactly the echoes are left out
if and only if it is `Plain`.
-/

open CarbonRuntime.Core CarbonRuntime.Stream

namespace CarbonRuntime.Bugs.MistakenEcho

open Store Adapters.WhatsApp

variable {L : Loop} {J : Js} {W : Account} {max : Nat} {t t' : Table MessageRecord.id} {d d' : Disk}
  {r w : MessageRecord} {c : String} {δ : Delivery} {x : Item}

/-! ## The sends on disk -/

/-- An outbound record of the conversation has this delivery. -/
def Has (t : Table MessageRecord.id) (c : String) (δ : Delivery) : Prop :=
  ∃ r ∈ t.rows, r.conversationId = c ∧ r.direction = .outbound ∧ r.delivery = some δ

/-- Deliveries come and change, but neither their digests nor their chunk ids, and none is open that was not. -/
structure Frame (t t' : Table MessageRecord.id) : Prop where
  old : ∀ c δ', Has t' c δ' → ∃ δ, Has t c δ ∧ δ'.textSha256 = δ.textSha256 ∧ δ'.chunkIds = δ.chunkIds ∧
    (δ'.status.live = true → δ.status.live = true)
  new : ∀ c δ, Has t c δ → ∃ δ', Has t' c δ' ∧ δ'.textSha256 = δ.textSha256 ∧ δ'.chunkIds = δ.chunkIds

theorem Frame.of_iff (h : ∀ c δ, Has t' c δ ↔ Has t c δ) : Frame t t' where
  old c δ hd := ⟨δ, (h c δ).1 hd, rfl, rfl, id⟩
  new c δ hd := ⟨δ, (h c δ).2 hd, rfl, rfl⟩

/-- A capture adds the delivery of its record where the path is free, and changes none. -/
theorem has_stored : Has (stored t r) c δ ↔
    Has t c δ ∨ t.find r.id = none ∧ r.conversationId = c ∧ r.direction = .outbound ∧ r.delivery = some δ := by
  -- What is found at the record's path has the delivery of what was there.
  have hlanded : ∀ old, t.find r.id = some old → (landed t r).conversationId = old.conversationId ∧
      (landed t r).direction = old.direction ∧ (landed t r).delivery = old.delivery := by
    intro old hold
    unfold landed
    rw [hold]
    dsimp only
    split <;> exact ⟨rfl, rfl, rfl⟩
  constructor
  · rintro ⟨x, hx, hconv, hdir, hdel⟩
    rw [Table.mem_iff_find, find_stored] at hx
    split at hx
    · obtain rfl := Option.some.inj hx
      cases hold : t.find r.id with
      | none =>
        have : landed t r = r := by rw [landed, hold]
        rw [this] at hconv hdir hdel
        exact .inr ⟨rfl, hconv, hdir, hdel⟩
      | some old =>
        obtain ⟨h1, h2, h3⟩ := hlanded old hold
        exact .inl ⟨old, Table.find_mem hold, h1 ▸ hconv, h2 ▸ hdir, h3 ▸ hdel⟩
    · exact .inl ⟨x, Table.find_mem hx, hconv, hdir, hdel⟩
  · rintro (⟨x, hx, hconv, hdir, hdel⟩ | ⟨hnone, hconv, hdir, hdel⟩)
    · by_cases hid : x.id = r.id
      · have hold : t.find r.id = some x := hid ▸ Table.mem_find hx
        obtain ⟨h1, h2, h3⟩ := hlanded x hold
        have hfind : (stored t r).find r.id = some (landed t r) := by rw [find_stored, if_pos rfl]
        exact ⟨_, Table.find_mem hfind, h1.trans hconv, h2.trans hdir, h3.trans hdel⟩
      · have hfind : (stored t r).find x.id = some x := by rw [find_stored, if_neg hid, Table.mem_find hx]
        exact ⟨x, Table.find_mem hfind, hconv, hdir, hdel⟩
    · have hfind : (stored t r).find r.id = some r := by rw [find_stored, if_pos rfl, landed, hnone]
      exact ⟨r, Table.find_mem hfind, hconv, hdir, hdel⟩

theorem has_stored_inbound (h : r.direction = .inbound) : Has (stored t r) c δ ↔ Has t c δ := by
  rw [has_stored, h]
  simp

/-- A record that is written over takes the place of the one that was there. -/
theorem has_put (hr : t.find w.id = some r) (hdir : w.direction = r.direction) : Has (t.put w) c δ ↔
    (w.conversationId = c ∧ r.direction = .outbound ∧ w.delivery = some δ) ∨
    ∃ x ∈ t.rows, x.id ≠ r.id ∧ x.conversationId = c ∧ x.direction = .outbound ∧ x.delivery = some δ := by
  have hid : r.id = w.id := Table.find_key hr
  constructor
  · rintro ⟨x, hx, hconv, hout, hdel⟩
    obtain rfl | ⟨hx, hne⟩ := Table.mem_put.1 hx
    · exact .inl ⟨hconv, hdir ▸ hout, hdel⟩
    · exact .inr ⟨x, hx, hid ▸ hne, hconv, hout, hdel⟩
  · rintro (⟨hconv, hout, hdel⟩ | ⟨x, hx, hne, hconv, hout, hdel⟩)
    · exact ⟨w, Table.mem_put.2 (.inl rfl), hconv, hdir.trans hout, hdel⟩
    · exact ⟨x, Table.mem_put.2 (.inr ⟨hx, hid ▸ hne⟩), hconv, hout, hdel⟩

/-- The agent's own send, as far as the sends of the conversation on disk tell. -/
theorem isOwnSend_iff : isOwnSend J d c x = true ↔ componentFaults J "conversation_id" c = [] ∧
    ∃ δ, Has d.records c δ ∧ (x.event.id ∈ δ.chunkIds.getD [] ∨
      δ.textSha256 ≠ "" ∧ δ.textSha256 = J.sha256 x.event.content.text) := by
  unfold isOwnSend
  by_cases hc : componentFaults J "conversation_id" c = []
  · simp only [if_pos hc, Bool.or_eq_true, List.any_eq_true, List.mem_filterMap, List.mem_filter,
      Adapters.WhatsApp.recordsIn, decide_eq_true_eq, Bool.and_eq_true, List.contains_iff_mem, Has]
    refine Iff.trans ?_ (and_iff_right hc).symm
    constructor
    · rintro (⟨δ, ⟨r, ⟨⟨hr, hconv⟩, hdir⟩, hdel⟩, hid⟩ | ⟨δ, ⟨r, ⟨⟨hr, hconv⟩, hdir⟩, hdel⟩, htext⟩)
      · exact ⟨δ, ⟨r, hr, hconv, hdir, hdel⟩, .inl hid⟩
      · exact ⟨δ, ⟨r, hr, hconv, hdir, hdel⟩, .inr htext⟩
    · rintro ⟨δ, ⟨r, hr, hconv, hdir, hdel⟩, hid | htext⟩
      · exact .inl ⟨δ, ⟨r, ⟨⟨hr, hconv⟩, hdir⟩, hdel⟩, hid⟩
      · exact .inr ⟨δ, ⟨r, ⟨⟨hr, hconv⟩, hdir⟩, hdel⟩, htext⟩
  · simp [hc]

/-! ## Runs of a channel -/

/-- A message that a send left on the channel; it is kept where its id was returned and the send ended `sent`. -/
structure Chunk where
  conversationId : String
  id : String
  kept : Bool

structure Chat where
  disk : Disk := {}
  /-- Of each reply that was written its conversation and its text. -/
  replies : List (String × String) := []
  chunks : List Chunk := []

/-- A reply that is captured, and its fence. -/
def replied (J : Js) (r : MessageRecord) (delivery : Delivery) (status : Status) (d : Disk) : Disk :=
  match captured J (replyRecord r delivery status) none [] none d with
  | (.ok _, d') => { d' with requests := d'.requests.put (replyRequest r delivery status) }
  | (.error _, d') => d'

/-- A reply's record is written, and does not meet another at its path. -/
def Lands (J : Js) (r : MessageRecord) (delivery : Delivery) (status : Status) (d : Disk) : Prop :=
  captureFaults J (replyRecord r delivery status) [] = [] ∧ d.records.find r.id = none

/-- `reply` does not refuse it, store.ts:660-705. -/
structure Writable (r : MessageRecord) (delivery : Delivery) (d : Disk) : Prop where
  carries : r.delivery = some delivery
  faults : replyFaults r
    (d.records.rows.filter fun x => x.conversationId = r.conversationId ∧ x.direction = .inbound) = []
  fence : ∀ q ∈ d.requests.find delivery.requestId, q.status = .failed

open Classical in
/-- What happens on a channel: a reply that `reply` does not refuse is written; `deliver` sends one that is pending and settles it; a poll is
captured; and anything else that leaves the sends alone. -/
inductive Step (L : Loop) (W : Account) (max : Nat) : Chat → Unit → Chat → Prop
  | replied {σ : Chat} (r : MessageRecord) (delivery : Delivery) (status : Status) : Writable r delivery σ.disk →
      delivery.textSha256 = L.js.sha256 r.body → delivery.chunkIds = none → status.live = true →
      Step L W max σ () { σ with
        disk := replied L.js r delivery status σ.disk
        replies := if Lands L.js r delivery status σ.disk then (r.conversationId, r.body) :: σ.replies
          else σ.replies }
  | delivered {σ : Chat} {s s' : World} {q : ReplyRequest} {r y : MessageRecord} {δ : Delivery}
      {chunks : List Utf16.Text} (answer : Nat → Answer) : s.disk = σ.disk →
      σ.disk.requests.find q.requestId = some q → σ.disk.records.find q.names = some r →
      r.direction = .outbound → r.delivery = some δ → δ.status = .pending →
      Adapters.Chunks.splitBody (some (Utf16.ofString r.body)) max = some chunks →
      Prog.Runs (Pass.settleOutcome L q.requestId (sendLive answer chunks)) s (.ok y) s' →
      Step L W max σ () { σ with
        disk := s'.disk
        chunks := (accepted answer chunks).map (fun a =>
          ⟨r.conversationId, a.1, a.2 && decide ((sendLive answer chunks).status = .sent)⟩) ++ σ.chunks }
  | polled {σ : Chat} (listed at_ : Int) (items : List Item) :
      Step L W max σ () { σ with disk := ((adapter W L.js).capture L.js listed at_ items σ.disk).2 }
  | other {σ : Chat} (d : Disk) : Frame σ.disk.records d.records → Step L W max σ () { σ with disk := d }

def channel (L : Loop) (W : Account) (max : Nat) : LTS Chat Unit where
  init σ := σ = {}
  step := Step L W max

/-! ## What a settlement writes -/

theorem wp_settleDelivery {s : World} {q : ReplyRequest} {status : Status} {ids : Option (List String)} {at_ : String}
    (hq : s.disk.requests.find q.requestId = some q) (hr : s.disk.records.find q.names = some r)
    (hδ : r.delivery = some δ) :
    Prog.wp (plain L) (settleDelivery L q.requestId status ids (some at_))
      (fun _ s' => ∃ w, s'.disk.records = s.disk.records.put w ∧ w.id = r.id ∧ w.direction = r.direction ∧
        ∃ δ', w.delivery = some δ' ∧ δ'.status = status ∧ δ'.textSha256 = δ.textSha256 ∧
          δ'.chunkIds = (ids <|> δ.chunkIds)) (fun _ _ => True) s := by
  simp only [settleDelivery, readRequest, Store.read, Prog.wp_bind, wp_refuse, wp_fetch, Prog.wp_pure]
  refine ⟨fun _ => ?_, fun _ => trivial⟩
  rw [hq]
  simp only [Prog.wp_bind, wp_refuse, wp_fetch, Prog.wp_pure]
  refine ⟨fun _ => ?_, fun _ => trivial⟩
  rw [hr]
  simp only [Prog.wp_bind]
  have hdelivery : (settled status ids (some at_) r).delivery =
      some (settledDelivery (some δ) status ids (some at_)) := by rw [settled, hδ]
  refine wp_stamp _ trivial trivial fun w s₁ hw hs₁ _ => ?_
  simp only [wp_write, Prog.wp_pure]
  refine ⟨trivial, fun _ => ⟨trivial, fun _ => ⟨w, ?_, hw.id, ?_,
    settledDelivery (some δ) status ids (some at_), ?_, rfl, rfl, rfl⟩⟩⟩
  · simp [Act.apply, hs₁.records]
  · rw [hw.eq]
    rfl
  · rw [hw.eq]
    exact hdelivery

/-- The settlement of a send: the ids are kept where it ended `sent`. -/
theorem wp_settleOutcome {s : World} {q : ReplyRequest} (o : SendOutcome)
    (hq : s.disk.requests.find q.requestId = some q) (hr : s.disk.records.find q.names = some r)
    (hδ : r.delivery = some δ) :
    Prog.wp (plain L) (Pass.settleOutcome L q.requestId o)
      (fun _ s' => ∃ w, s'.disk.records = s.disk.records.put w ∧ w.id = r.id ∧ w.direction = r.direction ∧
        ∃ δ', w.delivery = some δ' ∧ δ'.status.live = false ∧ δ'.textSha256 = δ.textSha256 ∧
          δ'.chunkIds = if o.status = .sent then some o.chunkIds else δ.chunkIds) (fun _ _ => True) s := by
  -- The reading of the clock changes nothing on disk.
  have hnow : ∀ (status : Status) (ids : Option (List String)), status.live = false →
      (ids <|> δ.chunkIds) = (if o.status = .sent then some o.chunkIds else δ.chunkIds) →
      Prog.wp (plain L) (do
        let at_ ← isoNow L
        settleDelivery L q.requestId status ids (some at_))
        (fun _ s' => ∃ w, s'.disk.records = s.disk.records.put w ∧ w.id = r.id ∧ w.direction = r.direction ∧
          ∃ δ', w.delivery = some δ' ∧ δ'.status.live = false ∧ δ'.textSha256 = δ.textSha256 ∧
            δ'.chunkIds = if o.status = .sent then some o.chunkIds else δ.chunkIds) (fun _ _ => True) s := by
    intro status ids hlive hids
    simp only [isoNow, Store.now, Prog.wp_bind, Prog.wp_pure]
    refine plain_ask fun at_ _ => ?_
    refine Prog.wp_mono _ (wp_settleDelivery (s := Ask.after .now at_ s) hq hr hδ) ?_ fun _ _ h => h
    rintro _ s' ⟨w, hrecords, hid, hdir, δ', hw, hstatus, htext, hchunks⟩
    exact ⟨w, hrecords, hid, hdir, δ', hw, hstatus ▸ hlive, htext, hchunks.trans hids⟩
  obtain ⟨status, chunkIds⟩ := o
  cases status with
  | sent => exact hnow .sent (some chunkIds) rfl rfl
  | unknown => exact hnow .unknown none rfl rfl
  | other => exact hnow .failed none rfl rfl

/-! ## What each step leaves of the sends -/

/-- A poll captures what arrives. -/
theorem payload_inbound {now : String} {items : List Item} : ∀ {revisions : Numbered} {all},
    readAll W J d now revisions items = .ok all → ∀ c ∈ all, c.1.record.direction = .inbound := by
  induction items with
  | nil =>
    intro revisions all h c hc
    cases h
    cases hc
  | cons x items ih =>
    intro revisions all h c hc
    rw [readAll] at h
    split at h
    · exact ih h c hc
    · split at h
      · cases h
      · rename_i chat hchat
        split at h
        · exact ih h c hc
        · dsimp only at h
          cases hmore : readAll W J d now (numberOf J d revisions x (W.account ++ ":" ++ chat)).2 items with
          | error e =>
            rw [hmore] at h
            cases h
          | ok more =>
            rw [hmore] at h
            obtain rfl := Except.ok.inj h
            obtain rfl | hc := List.mem_cons.1 hc
            · unfold candidateOf
              dsimp only
              split <;> rfl
            · exact ih hmore c hc

/-- The disk has these sends. -/
def SameSends (t : Table MessageRecord.id) (d : Disk) : Prop := ∀ c δ, Has d.records c δ ↔ Has t c δ

theorem frame_polled (listed at_ : Int) (items : List Item) :
    Frame d.records ((adapter W J).capture J listed at_ items d).2.records := by
  refine .of_iff (Adapters.capture_keeps (K := SameSends d.records)
    (fun _ _ => Iff.rfl) fun pending batch _ hbatch => ?_)
  have hinbound : (∀ c ∈ batch.entries, c.record.direction = .inbound) ∧
      ∀ c ∈ batch.parked, c.1.record.direction = .inbound := by
    change payloadOf W J d (J.iso at_) pending = .ok batch at hbatch
    unfold payloadOf at hbatch
    cases hall : readAll W J d (J.iso at_) [] pending with
    | error e =>
      rw [hall] at hbatch
      cases hbatch
    | ok all =>
      rw [hall] at hbatch
      obtain rfl := Except.ok.inj hbatch
      refine ⟨fun c hc => ?_, fun c hc => ?_⟩
      · obtain ⟨a, ha, rfl⟩ := List.mem_map.1 hc
        exact payload_inbound hall a (List.mem_of_mem_filter ha)
      · obtain ⟨a, ha, hsome⟩ := List.mem_filterMap.1 hc
        obtain ⟨reason, -, rfl⟩ := Option.map_eq_some_iff.1 hsome
        exact payload_inbound hall a ha
  refine Adapters.take_keeps (K := SameSends d.records) (fun c hc d' h => ?_) (fun c hc d' h => ?_)
    (fun c d' h => ?_) fun _ _ => Iff.rfl
  · obtain hrecords | hrecords := Adapters.entry_records (J := J) c d'
    · rwa [SameSends, hrecords]
    · rw [SameSends, hrecords]
      exact fun c' δ => (has_stored_inbound (hinbound.1 c hc)).trans (h c' δ)
  · rw [Adapters.parking_disk, SameSends, captured_records]
    split
    · have hdir : (Adapters.parkedRecord c.1.record c.2).direction = .inbound := hinbound.2 c hc
      exact fun c' δ => (has_stored_inbound hdir).trans (h c' δ)
    · exact h
  · rwa [SameSends, advance_records]

theorem replied_records {delivery : Delivery} {status : Status} :
    (replied J r delivery status d).records = if captureFaults J (replyRecord r delivery status) [] = [] then
      stored d.records (replyRecord r delivery status) else d.records := by
  rw [← captured_records none [] none]
  unfold replied
  split <;> rename_i h <;> rw [h]

/-- A reply that lands is one more send; any other changes none. -/
theorem has_replied {delivery : Delivery} {status : Status} (hdir : r.direction = .outbound) :
    Has (replied J r delivery status d).records c δ ↔
      Has d.records c δ ∨ Lands J r delivery status d ∧ r.conversationId = c ∧ { delivery with status } = δ := by
  rw [replied_records]
  split
  · rename_i hf
    rw [has_stored]
    refine or_congr_right ⟨?_, ?_⟩
    · rintro ⟨hnone, hconv, -, hdel⟩
      exact ⟨⟨hf, hnone⟩, hconv, Option.some.inj hdel⟩
    · rintro ⟨⟨-, hnone⟩, hconv, rfl⟩
      exact ⟨hnone, hconv, hdir, rfl⟩
  · rename_i hf
    refine ⟨.inl, fun h => h.resolve_right fun hl => hf hl.1.1⟩

/-! ## What holds in every run -/

/-- The sends on disk are those of the run: the ids are those of the chunks that are kept, and the digests those
of the replies that were written. -/
structure Inv (J : Js) (σ : Chat) : Prop where
  kept : ∀ k ∈ σ.chunks, k.kept = true → ∃ δ, Has σ.disk.records k.conversationId δ ∧ k.id ∈ δ.chunkIds.getD []
  known : ∀ c δ, Has σ.disk.records c δ → ∀ id ∈ δ.chunkIds.getD [],
    ∃ k ∈ σ.chunks, k.kept = true ∧ k.conversationId = c ∧ k.id = id
  text : ∀ c δ, Has σ.disk.records c δ → ∃ body, (c, body) ∈ σ.replies ∧ δ.textSha256 = J.sha256 body
  texts : ∀ c body, (c, body) ∈ σ.replies → componentFaults J "conversation_id" c = [] ∧
    ∃ δ, Has σ.disk.records c δ ∧ δ.textSha256 = J.sha256 body
  fresh : ∀ c δ, Has σ.disk.records c δ → δ.status.live = true → δ.chunkIds = none

theorem Inv.frame {σ : Chat} (h : Inv J σ) (hf : Frame σ.disk.records d.records) : Inv J { σ with disk := d } where
  kept k hk hkept := by
    obtain ⟨δ, hδ, hid⟩ := h.kept k hk hkept
    obtain ⟨δ', hδ', -, hids⟩ := hf.new _ δ hδ
    exact ⟨δ', hδ', hids ▸ hid⟩
  known c δ' hδ' id hid := by
    obtain ⟨δ, hδ, -, hids, -⟩ := hf.old c δ' hδ'
    exact h.known c δ hδ id (hids ▸ hid)
  text c δ' hδ' := by
    obtain ⟨δ, hδ, htext, -⟩ := hf.old c δ' hδ'
    rw [htext]
    exact h.text c δ hδ
  texts c body hbody := by
    obtain ⟨hc, δ, hδ, htext⟩ := h.texts c body hbody
    obtain ⟨δ', hδ', htext', -⟩ := hf.new c δ hδ
    exact ⟨hc, δ', hδ', htext'.trans htext⟩
  fresh c δ' hδ' hlive := by
    obtain ⟨δ, hδ, -, hids, hl⟩ := hf.old c δ' hδ'
    exact hids.trans (h.fresh c δ hδ (hl hlive))

/-- One more send, of which no chunk is known yet. -/
theorem Inv.reply {σ : Chat} {δ₀ : Delivery} {body : String} (h : Inv J σ)
    (hc : componentFaults J "conversation_id" c = []) (htext : δ₀.textSha256 = J.sha256 body)
    (hids : δ₀.chunkIds = none)
    (hhas : ∀ c' δ, Has d.records c' δ ↔ Has σ.disk.records c' δ ∨ c = c' ∧ δ₀ = δ) :
    Inv J { σ with disk := d, replies := (c, body) :: σ.replies } where
  kept k hk hkept := by
    obtain ⟨δ, hδ, hid⟩ := h.kept k hk hkept
    exact ⟨δ, (hhas _ _).2 (.inl hδ), hid⟩
  known c δ hδ id hid := by
    obtain hδ | ⟨-, rfl⟩ := (hhas _ _).1 hδ
    · exact h.known c δ hδ id hid
    · simp [hids] at hid
  text c δ hδ := by
    obtain hδ | ⟨rfl, rfl⟩ := (hhas _ _).1 hδ
    · obtain ⟨body, hbody, ht⟩ := h.text c δ hδ
      exact ⟨body, List.mem_cons_of_mem _ hbody, ht⟩
    · exact ⟨body, List.mem_cons_self, htext⟩
  texts c' body' hbody := by
    obtain hnew | hbody := List.mem_cons.1 hbody
    · cases hnew
      exact ⟨hc, δ₀, (hhas _ _).2 (.inr ⟨rfl, rfl⟩), htext⟩
    · obtain ⟨hc, δ, hδ, ht⟩ := h.texts c' body' hbody
      exact ⟨hc, δ, (hhas _ _).2 (.inl hδ), ht⟩
  fresh c δ hδ hlive := by
    obtain hδ | ⟨-, rfl⟩ := (hhas _ _).1 hδ
    · exact h.fresh c δ hδ hlive
    · exact hids

/-- A send that is settled: its delivery has the ids of the chunks that are kept. -/
theorem Inv.settle {σ : Chat} {δ δ' : Delivery} {chunks : List Chunk} (h : Inv J σ)
    (hr : σ.disk.records.find w.id = some r) (hdir : w.direction = r.direction) (hout : r.direction = .outbound)
    (hδ : r.delivery = some δ) (hlive : δ.status.live = true) (hw : w.delivery = some δ')
    (hdone : δ'.status.live = false) (htext : δ'.textSha256 = δ.textSha256)
    (hconv : ∀ k ∈ chunks, k.conversationId = r.conversationId)
    (hids : ∀ id, id ∈ δ'.chunkIds.getD [] ↔ ∃ k ∈ chunks, k.kept = true ∧ k.id = id)
    (hrecords : d.records = σ.disk.records.put w) :
    Inv J { σ with disk := d, chunks := chunks ++ σ.chunks } := by
  have hsame : w.conversationId = r.conversationId := (congrArg Identity.conversationId (Table.find_key hr)).symm
  have hold : Has σ.disk.records r.conversationId δ := ⟨r, Table.find_mem hr, rfl, hout, hδ⟩
  have hnone : δ.chunkIds = none := h.fresh _ δ hold hlive
  have hnew : Has d.records r.conversationId δ' := by
    rw [hrecords]
    exact (has_put hr hdir).2 (.inl ⟨hsame, hout, hw⟩)
  -- What is on disk is the settled delivery or was there.
  have hafter : ∀ c δ₁, Has d.records c δ₁ → c = r.conversationId ∧ δ₁ = δ' ∨ Has σ.disk.records c δ₁ := by
    intro c δ₁ h₁
    rw [hrecords] at h₁
    obtain ⟨hc, -, hd⟩ | ⟨x, hx, -, hrest⟩ := (has_put hr hdir).1 h₁
    · exact .inl ⟨hc.symm.trans hsame, Option.some.inj (hd.symm.trans hw)⟩
    · exact .inr ⟨x, hx, hrest⟩
  -- And what was there is there, or is the one that was settled.
  have hbefore : ∀ c δ₁, Has σ.disk.records c δ₁ → c = r.conversationId ∧ δ₁ = δ ∨ Has d.records c δ₁ := by
    rintro c δ₁ ⟨x, hx, hc, hx', hd⟩
    by_cases hid : x.id = r.id
    · obtain rfl : x = r := by
        have := Table.mem_find hx
        rw [hid, show r.id = w.id from Table.find_key hr, hr] at this
        exact (Option.some.inj this).symm
      exact .inl ⟨hc.symm, Option.some.inj (hd.symm.trans hδ)⟩
    · rw [hrecords]
      exact .inr ((has_put hr hdir).2 (.inr ⟨x, hx, hid, hc, hx', hd⟩))
  refine ⟨fun k hk hkept => ?_, fun c δ₁ h₁ id hid => ?_, fun c δ₁ h₁ => ?_, fun c body hbody => ?_,
    fun c δ₁ h₁ hl => ?_⟩
  · obtain hk | hk := List.mem_append.1 hk
    · rw [hconv k hk]
      exact ⟨δ', hnew, (hids _).2 ⟨k, hk, hkept, rfl⟩⟩
    · obtain ⟨δ₁, h₁, hid⟩ := h.kept k hk hkept
      obtain ⟨-, rfl⟩ | h₁ := hbefore _ _ h₁
      · simp [hnone] at hid
      · exact ⟨δ₁, h₁, hid⟩
  · obtain ⟨rfl, rfl⟩ | h₁ := hafter _ _ h₁
    · obtain ⟨k, hk, hkept, hkid⟩ := (hids _).1 hid
      exact ⟨k, List.mem_append_left _ hk, hkept, hconv k hk, hkid⟩
    · obtain ⟨k, hk, hrest⟩ := h.known _ _ h₁ id hid
      exact ⟨k, List.mem_append_right _ hk, hrest⟩
  · obtain ⟨rfl, rfl⟩ | h₁ := hafter _ _ h₁
    · rw [htext]
      exact h.text _ _ hold
    · exact h.text _ _ h₁
  · obtain ⟨hc, δ₁, h₁, ht⟩ := h.texts c body hbody
    obtain ⟨rfl, rfl⟩ | h₁ := hbefore _ _ h₁
    · exact ⟨hc, δ', hnew, htext.trans ht⟩
    · exact ⟨hc, δ₁, h₁, ht⟩
  · obtain ⟨rfl, rfl⟩ | h₁ := hafter _ _ h₁
    · rw [hdone] at hl
      cases hl
    · exact h.fresh _ _ h₁ hl

theorem inv_inductive (L : Loop) (W : Account) (max : Nat) : (channel L W max).Inductive (Inv L.js) where
  init σ h := by
    cases h
    have hno : ∀ c δ, ¬ Has (Table.empty : Table MessageRecord.id) c δ := by
      rintro c δ ⟨r, hr, -⟩
      cases hr
    exact ⟨fun k hk => absurd hk List.not_mem_nil, fun c δ h => absurd h (hno c δ), fun c δ h => absurd h (hno c δ),
      fun c body hb => absurd hb List.not_mem_nil, fun c δ h => absurd h (hno c δ)⟩
  step σ _ σ' h hstep := by
    cases hstep with
    | replied r delivery status hw htext hids hlive =>
      have hdir : r.direction = .outbound := outbound_of_replyFaults hw.faults
      by_cases hl : Lands L.js r delivery status σ.disk
      · rw [if_pos hl]
        have hpath : pathFaults L.js (replyRecord r delivery status).id = [] := paths_of_captureFaults hl.1
        refine @Inv.reply _ _ _ _ { delivery with status } _ h (List.append_eq_nil_iff.1 hpath).1 htext hids fun c' δ => ?_
        rw [has_replied hdir, and_iff_right hl]
      · rw [if_neg hl]
        refine h.frame (.of_iff fun c δ => ?_)
        rw [has_replied hdir]
        exact or_iff_left fun hn => hl hn.1
    | @delivered s s' q r y δ chunks answer hs hq hr hout hδ hpending hsplit hrun =>
      obtain ⟨w, hrecords, hid, hdir, δ', hw, hdone, htext, hchunks⟩ :=
        plain_runs hrun (wp_settleOutcome (sendLive answer chunks) (hs ▸ hq) (hs ▸ hr) hδ)
      have hkey : r.id = q.names := Table.find_key hr
      have hlive : δ.status.live = true := by rw [hpending]; rfl
      have hnone : δ.chunkIds = none := h.fresh _ δ ⟨r, Table.find_mem hr, rfl, hout, hδ⟩ hlive
      refine h.settle (hid ▸ hkey ▸ hr) hdir hout hδ hlive hw hdone htext (fun k hk => ?_) (fun id => ?_)
        (hs ▸ hrecords)
      · obtain ⟨a, -, rfl⟩ := List.mem_map.1 hk
        rfl
      · rw [hchunks, hnone, sendLive_ids]
        by_cases hsent : (sendLive answer chunks).status = .sent
        · simp only [hsent, if_true, Option.getD_some, List.mem_map, List.mem_filter, decide_true, Bool.and_true]
          constructor
          · rintro ⟨a, ⟨ha, hreturned⟩, rfl⟩
            exact ⟨_, ⟨a, ha, rfl⟩, hreturned, rfl⟩
          · rintro ⟨_, ⟨a, ha, rfl⟩, hreturned, rfl⟩
            exact ⟨a, ⟨ha, hreturned⟩, rfl⟩
        · simp [hsent]
    | polled listed at_ items => exact h.frame (frame_polled listed at_ items)
    | other d hf => exact h.frame hf

/-! ## Echoes and the operator -/

/-- It is an event of a message that some send left in this chat. -/
def Echo (W : Account) (σ : Chat) (x : Item) : Prop :=
  ∃ k ∈ σ.chunks, k.conversationId = conversationOf W x ∧ k.id = x.event.id

/-- The batch has the event's record, as the operator's and with a hold. -/
def Takes (W : Account) (J : Js) (now : String) (x : Item) (batch : Adapters.Payload) : Prop :=
  ∃ n, ((writeOf W J now x n).1 ∈ batch.entries ∨
      ∃ reason, ((writeOf W J now x n).1, reason) ∈ batch.parked) ∧
    (writeOf W J now x n).1.record.role = .operator ∧ (writeOf W J now x n).1.record.hold.isSome = true

/-- An echo changes nothing of the batch it comes in, and what the account said elsewhere is taken in each. -/
structure ToldApart (W : Account) (J : Js) (σ : Chat) (x : Item) : Prop where
  echo : Echo W σ x → ∀ now before after, (∀ y ∈ before ++ after, y.event.chat.isSome = true) →
    payloadOf W J σ.disk now (before ++ x :: after) = payloadOf W J σ.disk now (before ++ after)
  operator : ¬ Echo W σ x → ∀ now before after, (∀ y ∈ before ++ after, y.event.chat.isSome = true) →
    ∃ batch, payloadOf W J σ.disk now (before ++ x :: after) = .ok batch ∧ Takes W J now x batch

/-- Some reply that was written in this chat has the text of the event, as far as the digest tells. -/
def SaidBefore (W : Account) (J : Js) (σ : Chat) (x : Item) : Prop :=
  ∃ body, (conversationOf W x, body) ∈ σ.replies ∧ J.sha256 body ≠ "" ∧
    J.sha256 body = J.sha256 x.event.content.text

/-- An echo is of a chunk that is kept or has the text of a reply; and anything else has the text of none, and is
not the second upload of a picture. -/
structure Plain (W : Account) (J : Js) (σ : Chat) (x : Item) : Prop where
  echo : Echo W σ x → x.event.isHdChild = true ∨ SaidBefore W J σ x ∨
    ∃ k ∈ σ.chunks, k.kept = true ∧ k.conversationId = conversationOf W x ∧ k.id = x.event.id
  operator : ¬ Echo W σ x → x.event.isHdChild = false ∧ ¬ SaidBefore W J σ x

/-- What is left out of what the account said. -/
theorem skipped_iff {σ : Chat} (h : Inv J σ) (hme : x.event.fromMe = true) :
    isSkipped W J σ.disk x = true ↔ x.event.isHdChild = true ∨ SaidBefore W J σ x ∨
      ∃ k ∈ σ.chunks, k.kept = true ∧ k.conversationId = conversationOf W x ∧ k.id = x.event.id := by
  rw [isSkipped, hme, Bool.true_and, Bool.or_eq_true, isOwnSend_iff]
  refine or_congr_right ⟨?_, ?_⟩
  · rintro ⟨-, δ, hδ, hid | ⟨hne, htext⟩⟩
    · obtain ⟨k, hk, hkept, hconv, hkid⟩ := h.known _ δ hδ _ hid
      exact .inr ⟨k, hk, hkept, hconv, hkid⟩
    · obtain ⟨body, hbody, hsha⟩ := h.text _ δ hδ
      exact .inl ⟨body, hbody, hsha ▸ hne, hsha ▸ htext⟩
  · rintro (⟨body, hbody, hne, htext⟩ | ⟨k, hk, hkept, hconv, hid⟩)
    · obtain ⟨hc, δ, hδ, hsha⟩ := h.texts _ body hbody
      exact ⟨hc, δ, hδ, .inr ⟨hsha ▸ hne, hsha ▸ htext⟩⟩
    · obtain ⟨δ, hδ, hin⟩ := h.kept k hk hkept
      rw [hconv] at hδ
      rw [hid] at hin
      obtain ⟨body, hbody, -⟩ := h.text _ δ hδ
      exact ⟨(h.texts _ body hbody).1, δ, hδ, .inl hin⟩

theorem named_insert {before after : List Item} (hx : x.event.chat.isSome = true)
    (h : ∀ y ∈ before ++ after, y.event.chat.isSome = true) :
    ∀ y ∈ before ++ x :: after, y.event.chat.isSome = true := by
  intro y hy
  obtain hy | hy := List.mem_append.1 hy
  · exact h y (List.mem_append_left _ hy)
  · obtain rfl | hy := List.mem_cons.1 hy
    · exact hx
    · exact h y (List.mem_append_right _ hy)

/-- What is left out changes nothing of the batch. -/
theorem payload_skipped {now : String} {before after : List Item} (hskip : isSkipped W J d x = true)
    (hx : x.event.chat.isSome = true) (h : ∀ y ∈ before ++ after, y.event.chat.isSome = true) :
    payloadOf W J d now (before ++ x :: after) = payloadOf W J d now (before ++ after) := by
  rw [payload_number d now (named_insert hx h), payload_number d now h, List.filter_append, List.filter_append,
    List.filter_cons_of_neg (by rw [hskip]; decide)]

/-- What the account said and is not left out is the operator's. -/
theorem payload_takes {now : String} {before after : List Item} (hskip : isSkipped W J d x = false)
    (hme : x.event.fromMe = true) (hx : x.event.chat.isSome = true)
    (h : ∀ y ∈ before ++ after, y.event.chat.isSome = true) :
    ∃ batch, payloadOf W J d now (before ++ x :: after) = .ok batch ∧ Takes W J now x batch := by
  refine ⟨_, payload_number d now (named_insert hx h), ?_⟩
  have hmem : x ∈ (before ++ x :: after).filter fun y => !isSkipped W J d y :=
    List.mem_filter.2 ⟨List.mem_append_right _ List.mem_cons_self, by rw [hskip]; rfl⟩
  rw [← @Numbering.number_items _ _ _ (edits W).scheme _
    (fun y => countRevisions J d (conversationOf W y) (platformMessageIdOf y))
    ((before ++ x :: after).filter fun y => !isSkipped W J d y) []] at hmem
  obtain ⟨a, hn, rfl⟩ := List.mem_map.1 hmem
  refine ⟨a.2, ?_, ?_⟩
  · have hw := List.mem_map_of_mem (f := fun a => writeOf W J now a.1 a.2) hn
    cases hreason : (writeOf W J now a.1 a.2).2 with
    | none => exact .inl (List.mem_map.2 ⟨_, List.mem_filter.2 ⟨hw, by simp [hreason]⟩, rfl⟩)
    | some reason => exact .inr ⟨reason, List.mem_filterMap.2 ⟨_, hw, by simp [hreason]⟩⟩
  · unfold writeOf candidateOf
    dsimp only
    split <;> simp [recordOf, hme]

/-- The two are told apart where exactly the echoes are left out. -/
theorem toldApart_skipped {σ : Chat} (hme : x.event.fromMe = true) (hx : x.event.chat.isSome = true) :
    ToldApart W J σ x ↔ (Echo W σ x → isSkipped W J σ.disk x = true) ∧
      (¬ Echo W σ x → isSkipped W J σ.disk x = false) := by
  constructor
  · intro h
    -- The batch is the event alone.
    refine ⟨fun hecho => ?_, fun hecho => ?_⟩
    · by_contra hn
      obtain ⟨batch, hbatch, n, hn, -⟩ :=
        @payload_takes _ _ _ _ "" [] [] (Bool.eq_false_iff.2 hn) hme hx (by simp)
      rw [h.echo hecho "" [] [] (by simp)] at hbatch
      cases hbatch
      simp at hn
    · obtain ⟨batch, hbatch, n, hn, -⟩ := h.operator hecho "" [] [] (by simp)
      refine Bool.eq_false_iff.2 fun hs => ?_
      rw [payload_skipped hs hx (by simp)] at hbatch
      cases hbatch
      simp at hn
  · intro h
    exact ⟨fun hecho now before after hnamed => payload_skipped (h.1 hecho) hx hnamed,
      fun hecho now before after hnamed => payload_takes (h.2 hecho) hme hx hnamed⟩

theorem told_apart_iff {σ : Chat} (hrun : (channel L W max).Reachable σ) (hx : x.event.chat.isSome = true)
    (hme : x.event.fromMe = true) : ToldApart W L.js σ x ↔ Plain W L.js σ x := by
  have hskip := skipped_iff (W := W) ((inv_inductive L W max).reachable σ hrun) hme
  rw [toldApart_skipped hme hx, hskip, ← Bool.not_eq_true, hskip]
  constructor
  · rintro ⟨hechoed, hother⟩
    refine ⟨hechoed, fun hecho => ?_⟩
    have hno := hother hecho
    exact ⟨Bool.eq_false_iff.2 fun hd => hno (.inl hd), fun hsaid => hno (.inr (.inl hsaid))⟩
  · intro h
    refine ⟨h.echo, fun hecho => ?_⟩
    obtain ⟨hhd, hsaid⟩ := h.operator hecho
    rintro (hd | hs | ⟨k, hk, -, hconv, hid⟩)
    · rw [hhd] at hd
      cases hd
    · exact hsaid hs
    · exact hecho ⟨k, hk, hconv, hid⟩

/-! ## Runs -/

def desk : Channel := { kind := "whatsapp", account := "desk" }

def deskLoop : Loop :=
  { oneLoop desk { channels := [desk] } with
    js := { plainJs with
      parse := fun text => [("0", 0), ("2026-03-01T10:00:00Z", 1772359200000)].lookup text
      sha256 := fun text => String.ofList (List.replicate 64 (if text = "at ten and again at six" then '1' else '0')) } }

instance (q : Ask) (a : q.Answer) (w : World) : Decidable (deskLoop.outside q a w) :=
  inferInstanceAs (Decidable True)

def account : Account := { agent := "agent", account := "desk" }

/-- An event of the one chat. -/
def event (id text : String) (fromMe : Bool) : Item :=
  { position := position 1 (if fromMe then 2 else 1)
    receivedAt := some "2026-03-01T10:00:00Z"
    event :=
      { chat := some "c", id, fromMe, content := { kind := some "text", text } } }

/-- The chat once its contact has asked. -/
def asked : Disk := ((adapter account deskLoop.js).capture deskLoop.js 0 0 [event "a" "when?" false] {}).2

def delivery : Delivery :=
  { requestId := "1", status := .pending, textSha256 := deskLoop.js.sha256 "at ten and again at six" }

def answer : MessageRecord :=
  { agent := "agent", source := "whatsapp", account := "desk", conversationId := "desk:c"
    conversationKind := "thread", messageId := "desk:c:reply-1", platformMessageId := "reply-1"
    direction := .outbound, role := .agent, senderId := "agent", receivedAt := "2026-03-01T10:00:00Z"
    body := "at ten and again at six", delivery := some delivery }

/-- The store with the answer in it. -/
def answered : Disk := replied deskLoop.js answer delivery .pending asked

/-- The chunks of the answer, of which none is over twelve characters. -/
def pieces : List Utf16.Text := (Adapters.Chunks.splitBody (some (Utf16.ofString answer.body)) 12).getD []

def afterSend (sent : Nat → Answer) : Option (MessageRecord × World) :=
  match Prog.finishWith (𝔖 := sig deskLoop) (Given.answer {}) 0
      (Pass.settleOutcome deskLoop "1" (sendLive sent pieces)) { disk := answered } with
  | some (.ok y, s') => some (y, s')
  | _ => none

theorem afterSend_runs {sent : Nat → Answer} {y : MessageRecord} {s' : World} (h : afterSend sent = some (y, s')) :
    Prog.Runs (Pass.settleOutcome deskLoop "1" (sendLive sent pieces)) { disk := answered } (.ok y) s' := by
  unfold afterSend at h
  split at h
  · rename_i hrun
    cases h
    exact Prog.finishWith_runs _ hrun
  · cases h

/-- The chat once the answer was sent. -/
def sentChat (sent : Nat → Answer) (d : Disk) : Chat where
  disk := d
  replies := [("desk:c", "at ten and again at six")]
  chunks := (accepted sent pieces).map fun a =>
    ⟨"desk:c", a.1, a.2 && decide ((sendLive sent pieces).status = .sent)⟩

theorem sentChat_reachable {sent : Nat → Answer} (h : (afterSend sent).isSome = true) :
    ∃ d, (channel deskLoop account 12).Reachable (sentChat sent d) := by
  obtain ⟨⟨y, s'⟩, hs⟩ := Option.isSome_iff_exists.1 h
  have hasked : (channel deskLoop account 12).Reachable { disk := asked } :=
    LTS.Reachable.step (l := ()) ⟨{}, [], rfl, .nil _⟩ (.polled 0 0 [event "a" "when?" false])
  have hlands : Lands deskLoop.js answer delivery .pending asked := by
    unfold Lands
    decide +kernel
  have hanswered : (channel deskLoop account 12).Reachable
      { disk := answered, replies := [("desk:c", "at ten and again at six")] } := by
    have := LTS.Reachable.step (l := ()) hasked
      (.replied answer delivery .pending ⟨rfl, by decide +kernel, by decide +kernel⟩ rfl rfl rfl)
    rwa [if_pos hlands] at this
  have hq : answered.requests.find "1" = some (replyRequest answer delivery .pending) := by decide +kernel
  have hr : answered.records.find (replyRequest answer delivery .pending).names = some answer := by decide +kernel
  have hsplit : Adapters.Chunks.splitBody (some (Utf16.ofString answer.body)) 12 = some pieces := by decide +kernel
  refine ⟨s'.disk, ?_⟩
  have := LTS.Reachable.step (l := ()) hanswered (.delivered sent rfl hq hr rfl rfl rfl hsplit (afterSend_runs hs))
  rwa [List.append_nil] at this

/-- The channel takes the first piece, and the second one where `all`. -/
def sends (all : Bool) : Nat → Answer
  | 0 => .accepted "b"
  | _ => if all then .accepted "e" else .refused none

/-- The answer's first piece, as it comes back. -/
def echoed : Item := event "b" "at ten and" true

theorem echoed_echo (all : Bool) (d : Disk) : Echo account (sentChat (sends all) d) echoed := by
  cases all <;> exact ⟨_, List.mem_cons_self, rfl, rfl⟩

theorem said_iff (sent : Nat → Answer) (d : Disk) (id text : String) :
    SaidBefore account deskLoop.js (sentChat sent d) (event id text true) ↔
      deskLoop.js.sha256 "at ten and again at six" = deskLoop.js.sha256 text := by
  constructor
  · rintro ⟨body, hbody, -, htext⟩
    obtain ⟨-, rfl⟩ := Prod.mk.inj (List.mem_singleton.1 hbody)
    exact htext
  · exact fun h => ⟨_, List.mem_singleton.2 rfl, by decide +kernel, h⟩

/-- Both sends end, and what is kept of the pieces. -/
theorem sends_end :
    ((afterSend (sends true)).isSome = true ∧ (afterSend (sends false)).isSome = true) ∧
    ((∀ k ∈ (sentChat (sends true) {}).chunks, k.id ≠ "d") ∧
      (sentChat (sends true) {}).chunks.head?.any (·.kept) = true ∧
      ∀ k ∈ (sentChat (sends false) {}).chunks, k.kept = false) ∧
    deskLoop.js.sha256 "at ten and again at six" ≠ deskLoop.js.sha256 "I will ask" ∧
    deskLoop.js.sha256 "at ten and again at six" ≠ deskLoop.js.sha256 "at ten and" := by
  decide +kernel

/-- What has the id of no piece is no echo. -/
theorem unsent_echo (d : Disk) (text : String) :
    ¬ Echo account (sentChat (sends true) d) (event "d" text true) := by
  obtain ⟨-, ⟨hids, -⟩, -⟩ := sends_end
  rintro ⟨k, hk, -, hid⟩
  exact hids k hk hid

theorem whole_told_apart : ∃ σ, (channel deskLoop account 12).Reachable σ ∧ Echo account σ echoed ∧
    ToldApart account deskLoop.js σ echoed ∧
    ToldApart account deskLoop.js σ (event "d" "I will ask" true) := by
  obtain ⟨⟨hsent, -⟩, ⟨-, hkept, -⟩, hother, -⟩ := sends_end
  obtain ⟨d, hreach⟩ := @sentChat_reachable (sends true) hsent
  refine ⟨_, hreach, echoed_echo _ d, (told_apart_iff hreach rfl rfl).2 ⟨fun _ => .inr (.inr ?_), fun h => ?_⟩,
    (told_apart_iff hreach rfl rfl).2 ⟨fun h => ?_, fun _ => ⟨rfl, ?_⟩⟩⟩
  · exact ⟨_, List.mem_cons_self, hkept, rfl, rfl⟩
  · exact absurd (echoed_echo _ d) h
  · exact absurd h (unsent_echo d _)
  · rw [said_iff]
    exact hother

/-- The echo of a piece is taken for the operator where the other piece was refused. -/
theorem half_misread : ∃ σ, (channel deskLoop account 12).Reachable σ ∧ Echo account σ echoed ∧
    ¬ ToldApart account deskLoop.js σ echoed := by
  obtain ⟨⟨-, hsent⟩, ⟨-, -, hnone⟩, -, hother⟩ := sends_end
  obtain ⟨d, hreach⟩ := @sentChat_reachable (sends false) hsent
  refine ⟨_, hreach, echoed_echo _ d, fun h => ?_⟩
  have hskip := ((toldApart_skipped rfl rfl).1 h).1 (echoed_echo _ d)
  obtain hhd | hsaid | ⟨k, hk, hkept, -⟩ :=
    (skipped_iff ((inv_inductive deskLoop account 12).reachable _ hreach) rfl).1 hskip
  · cases hhd
  · revert hsaid
    rw [echoed, said_iff]
    exact hother
  · rw [hnone k hk] at hkept
    cases hkept

/-- What the operator says is left out where the answer said it before. -/
theorem repeated_left_out : ∃ σ, (channel deskLoop account 12).Reachable σ ∧
    ¬ Echo account σ (event "d" "at ten and again at six" true) ∧
    ¬ ToldApart account deskLoop.js σ (event "d" "at ten and again at six" true) := by
  obtain ⟨⟨hsent, -⟩, -⟩ := sends_end
  obtain ⟨d, hreach⟩ := @sentChat_reachable (sends true) hsent
  refine ⟨_, hreach, unsent_echo d _, fun h => ?_⟩
  have hskip := (skipped_iff ((inv_inductive deskLoop account 12).reachable _ hreach) rfl).2
    (.inr (.inl ((said_iff _ d "d" _).2 rfl)))
  rw [((toldApart_skipped rfl rfl).1 h).2 (unsent_echo d _)] at hskip
  cases hskip

end CarbonRuntime.Bugs.MistakenEcho
