import CarbonRuntime.Adapters.Telegram.Live

/-!
# What moves the offset

No conversation of a chat is the one the stream's cursor is kept under, so the writes of a
batch leave the offset alone (`putItems_watermark`), and consuming an item leaves it or puts it
one past the item's update, where that is higher (`consumeItem_offset`).
-/

open CarbonRuntime.Core CarbonRuntime.Stream

namespace CarbonRuntime.Adapters.Telegram

open Store

variable {L : Loop} {B : Bot} {J : Js} {d d' : Disk} {x : Item} {items : List Item}
  {c : String}

/-! ## Conversations -/

theorem toString_head (i : Int) : ∀ ch ∈ (toString i).toList.head?, ch.isDigit = true ∨ ch = '-' := by
  intro ch hch
  cases i with
  | ofNat n =>
    rw [show toString (Int.ofNat n) = Nat.repr n from rfl, Nat.repr_eq_ofList_toDigits,
      String.toList_ofList] at hch
    exact .inl (Nat.isDigit_of_mem_toDigits (by omega) (by omega) (List.mem_of_mem_head? hch))
  | negSucc n =>
    rw [show toString (Int.negSucc n) = "-" ++ Nat.repr n.succ from rfl, String.toList_append] at hch
    exact .inr (by simpa using hch.symm)

theorem updatesConversation_eq : updatesConversation B = B.account ++ ":" ++ "updates" := by
  rw [updatesConversation, String.append_assoc]
  rfl

theorem conversation_ne (h : conversationIdOf B x = some c) : c ≠ updatesConversation B := by
  unfold conversationIdOf at h
  split at h
  · obtain ⟨chat, -, rfl⟩ := Option.map_eq_some_iff.1 h
    rw [updatesConversation_eq]
    intro he
    have hid := (String.append_right_inj _).1 he
    have hhead := toString_head chat.id 'u' (by rw [hid]; rfl)
    simp at hhead
  · cases h

theorem unreadable_ne : B.account ++ ":unreadable" ≠ updatesConversation B := by
  rw [updatesConversation_eq, show ":unreadable" = ":" ++ "unreadable" from rfl,
    ← String.append_assoc]
  exact fun he => absurd ((String.append_right_inj _).1 he) (by decide)

/-! ## The records of a batch -/

theorem readItem_conversation {now : String} {revisions revisions' : Numbered}
    {r : Candidate × Option String} (h : readItem B J d now revisions x = .ok (r, revisions')) :
    r.1.record.conversationId ≠ updatesConversation B := by
  unfold readItem at h
  split at h
  · cases h
    exact unreadable_ne
  · rename_i m edited channelPost hcontent
    split at h
    · cases h
    · rename_i chat hchat
      have hconv : conversationIdOf B x = some (B.account ++ ":" ++ toString chat.id) := by
        simp only [conversationIdOf, hcontent, hchat, Option.map_some]
      cases h
      unfold candidateOf
      dsimp only
      split <;> exact conversation_ne hconv

theorem readAll_conversation {now : String} : ∀ {items : List Item} {revisions : Numbered}
    {all : List (Candidate × Option String)}, readAll B J d now revisions items = .ok all →
      ∀ r ∈ all, r.1.record.conversationId ≠ updatesConversation B
  | [], _, _, h, r, hr => by
    cases h
    cases hr
  | x :: items, revisions, all, h, r, hr => by
    rw [readAll] at h
    cases hx : readItem B J d now revisions x with
    | error e =>
      rw [hx] at h
      cases h
    | ok c =>
      rw [hx] at h
      cases hmore : readAll B J d now c.2 items with
      | error e =>
        simp only [bind, Except.bind, hmore] at h
        cases h
      | ok more =>
        simp only [bind, Except.bind, hmore, Except.ok.injEq] at h
        subst h
        rcases List.mem_cons.1 hr with rfl | hr
        · exact readItem_conversation hx
        · exact readAll_conversation hmore r hr

theorem payload_conversation {now : String} {batch : Payload}
    (h : payloadOf B J d now items = .ok batch) :
    (∀ c ∈ batch.entries, c.record.conversationId ≠ updatesConversation B) ∧
      ∀ c ∈ batch.parked, c.1.record.conversationId ≠ updatesConversation B := by
  unfold payloadOf at h
  cases hall : readAll B J d now [] items with
  | error e =>
    rw [hall] at h
    cases h
  | ok all =>
    rw [hall] at h
    cases h
    refine ⟨fun c hc => ?_, fun c hc => ?_⟩
    · obtain ⟨r, hr, rfl⟩ := List.mem_map.1 hc
      exact readAll_conversation hall r (List.mem_of_mem_filter hr)
    · obtain ⟨r, hr, hc⟩ := List.mem_filterMap.1 hc
      obtain ⟨reason, -, rfl⟩ := Option.map_eq_some_iff.1 hc
      exact readAll_conversation hall r hr

/-! ## The watermark -/

/-- The cursor of the stream of updates. -/
def watermarkOf (B : Bot) (C : Table Cursors.conversationId) : Option String :=
  ((C.find (updatesConversation B)).getD { conversationId := updatesConversation B }).message

def watermark (B : Bot) (d : Disk) : Option String := watermarkOf B d.cursors

theorem watermark_congr (h : d'.cursors.find (updatesConversation B) =
    d.cursors.find (updatesConversation B)) : watermark B d' = watermark B d := by
  rw [watermark, watermark, watermarkOf, watermarkOf, h]

theorem watermark_advance (d : Disk) (c : String) (k : CursorKind) (position : String) :
    watermark B (d.advance c k position) =
      if updatesConversation B = c ∧ .message = k ∧ past position (watermark B d) then some position
      else watermark B d := by
  have h := at_advance d c (updatesConversation B) k .message position
  by_cases hc : updatesConversation B = c ∧ CursorKind.message = k
  · obtain ⟨rfl, rfl⟩ := hc
    exact h
  · rw [if_neg fun hp => hc ⟨hp.1, hp.2.1⟩] at h ⊢
    exact h

section Writes
variable {J' : Js} {now : String} {batch : Payload} (hb : payloadOf B J d now items = .ok batch)
include hb

theorem entry_updates (c : Candidate) (hc : c ∈ batch.entries) (d₁ : Disk) :
    (entry J' c d₁).2.cursors.find (updatesConversation B) =
      d₁.cursors.find (updatesConversation B) := by
  unfold entry
  split
  · rfl
  · exact captured_cursors_other ((payload_conversation hb).1 c hc) _ _ _

theorem parking_updates (c : Candidate × String) (hc : c ∈ batch.parked) (d₁ : Disk) :
    (parking J' c d₁).2.cursors.find (updatesConversation B) =
      d₁.cursors.find (updatesConversation B) := by
  have hne : (parkedRecord c.1.record c.2).conversationId ≠ updatesConversation B :=
    (payload_conversation hb).2 c hc
  rw [parking_disk]
  exact captured_cursors_other hne _ _ _

/-- The writes of a batch leave the watermark alone. -/
theorem putting_watermark (d₁ : Disk) : watermark B (putting J' batch d₁).2 = watermark B d₁ := by
  let K : Disk → Prop := fun d' =>
    d'.cursors.find (updatesConversation B) = d₁.cursors.find (updatesConversation B)
  have hentries : ∀ c ∈ batch.entries, ∀ d', K d' → K (entry J' c d').2 :=
    fun c hc d' h => (entry_updates hb c hc d').trans h
  have hparked : ∀ c ∈ batch.parked, ∀ d', K d' → K (parking J' c d').2 :=
    fun c hc d' h => (parking_updates hb c hc d').trans h
  exact watermark_congr (Task.bind_keeps (K := K) (Task.each_keeps hentries d₁ rfl)
    fun _ d' h => Task.each_keeps hparked d' h)

/-- And so they do however far they come. -/
theorem putItems_watermark {s s' : World} {p : Program L Unit}
    (h : Prog.Steps (putItems L batch, s) (p, s')) :
    watermark B s'.disk = watermark B s.disk := by
  let I := fun (_ : Table MessageRecord.id) (C : Table Cursors.conversationId) =>
    C.find (updatesConversation B) = s.disk.cursors.find (updatesConversation B)
  have ht : Tracks (adapter B L.js) L.js I (fun d => I d.records d.cursors)
      (fun d => I d.records d.cursors) batch [] := by
    refine ⟨fun _ h => h, fun _ h => h, fun c hc d hd => ⟨?_, hd⟩, fun c hc d hd => ⟨?_, hd⟩, by simp⟩
    · exact (entry_updates hb c hc d).trans hd
    · exact (parking_updates hb c hc d).trans hd
  exact watermark_congr (Prog.wp_steps (P := tracking L I) (fun _ _ _ hv => hv.1) h (by exact rfl)
    (computes_putItems ht rfl)).1

end Writes

/-- Consuming an item puts the watermark at its update, where it is past it. -/
theorem consuming_watermark {id : Nat} (hid : x.update.updateId = some id)
    (h : (adapter B J).consuming J x d = (.ok (), d')) :
    watermark B d' = if past (offsetPositionOf id) (watermark B d) then some (offsetPositionOf id)
      else watermark B d := by
  have hlast : ∀ d₁, watermark B d₁ = watermark B d →
      Task.each (advancing J) [(updatesConversation B, .message, offsetPositionOf id)] d₁ =
        (.ok (), d') → watermark B d' =
          if past (offsetPositionOf id) (watermark B d) then some (offsetPositionOf id)
          else watermark B d := by
    intro d₁ h₁ he
    rw [Task.each_cons] at he
    obtain ⟨_, d₂, h₂, h₃⟩ := Task.bind_ok he
    cases h₃
    rw [advancing_ok J h₂, watermark_advance, h₁]
    simp only [true_and]
  have hconsume : (adapter B J).consuming J x d = Task.each (advancing J) (consume B x) d := rfl
  rw [hconsume, consume, hid] at h
  cases hc : conversationIdOf B x with
  | none =>
    rw [hc] at h
    exact hlast d rfl h
  | some c =>
    rw [hc] at h
    obtain ⟨_, d₁, h₁, h₂⟩ := Task.bind_ok (by rwa [List.singleton_append, Task.each_cons] at h)
    refine hlast d₁ ?_ h₂
    rw [advancing_ok J h₁]
    exact watermark_congr (cursorsOf_advance_other (conversation_ne hc) _ _ _)

/-- Cut short, it has left the watermark alone or put it there. -/
theorem consumeItem_watermark {id : Nat} {s s' : World} {p : Program L Unit}
    (hid : x.update.updateId = some id)
    (h : Prog.Steps (consumeItem L (adapter B L.js) x, s) (p, s')) :
    watermark B s'.disk = watermark B s.disk ∨
      past (offsetPositionOf id) (watermark B s.disk) = true ∧
        watermark B s'.disk = some (offsetPositionOf id) := by
  let I := fun (_ : Table MessageRecord.id) (C : Table Cursors.conversationId) =>
    watermarkOf B C = watermark B s.disk ∨ past (offsetPositionOf id) (watermark B s.disk) = true ∧
      watermarkOf B C = some (offsetPositionOf id)
  have hadv : ∀ c ∈ (adapter B L.js).consume s.disk x, ∀ d : Disk, I d.records d.cursors →
      I (d.advance c.1 c.2.1 c.2.2).records (d.advance c.1 c.2.1 c.2.2).cursors := by
    intro c hc d hd
    show watermark B (d.advance c.1 c.2.1 c.2.2) = _ ∨ _ ∧ watermark B (d.advance c.1 c.2.1 c.2.2) = _
    rw [watermark_advance]
    split
    · rename_i hmoved
      -- Only the last of the two cursors is the stream's.
      rcases List.mem_append.1 (show c ∈ consume B x from hc) with hc | hc
      · cases hconv : conversationIdOf B x with
        | none =>
          rw [hconv] at hc
          cases hc
        | some conversation =>
          rw [hconv] at hc
          rw [List.mem_singleton.1 hc] at hmoved
          exact absurd hmoved.1.symm (conversation_ne hconv)
      · rw [hid] at hc
        rw [List.mem_singleton.1 hc] at hmoved ⊢
        rcases hd with hd | ⟨hpast, hd⟩
        · refine .inr ⟨?_, rfl⟩
          have := hmoved.2.2
          rwa [show watermark B d = watermark B s.disk from hd] at this
        · exact .inr ⟨hpast, rfl⟩
    · exact hd
  exact (Prog.wp_steps (P := tracking L I) (fun _ _ _ hv => hv.1) h (by exact .inl rfl)
    (computes_consumeItem (K := fun d : Disk => I d.records d.cursors) x (.inl rfl) (fun _ h => h)
      hadv)).1

end CarbonRuntime.Adapters.Telegram
