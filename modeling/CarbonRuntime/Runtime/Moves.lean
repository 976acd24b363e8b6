import CarbonRuntime.Runtime.Release

/-!
# What one act of a loop may do

`Moves` says once what every act of a loop's programs does to the world: which
records are written and over what (`RecordMove`, `Rewrite`), which fences
(`RequestMove`), which program points are logged and what holds there
(`MarkMove`). `base` is what the loop's own memory keeps, and `moves` is the
protocol of the two: the acts that are moves, against others that may let the
store grow while an answer is awaited. `alone` says that there are no others.

`Grows` is what every move does to the disk: a record stays where it is with
everything later writes do not put on it, a release stays, a fence stays.
-/

open CarbonRuntime.Core CarbonRuntime.Stream

namespace CarbonRuntime.Moves

open Store Policy Teachings Tools Turn Release

/-! ## Records that were there -/

/-- The fields that no write changes once the record is there. -/
def Kept (old new : MessageRecord) : Prop :=
  new = { old with
    attachments := new.attachments, adapterFields := new.adapterFields
    disposition := new.disposition, release := new.release, delivery := new.delivery }

section Kept
variable {old new : MessageRecord}

theorem Kept.refl (r : MessageRecord) : Kept r r := rfl

theorem Kept.trans {r₁ r₂ r₃ : MessageRecord} (h : Kept r₁ r₂) (h' : Kept r₂ r₃) : Kept r₁ r₃ := by
  unfold Kept at h h' ⊢
  rw [h', h]

theorem Kept.id (h : Kept old new) : new.id = old.id := by rw [h]; rfl

theorem Kept.direction (h : Kept old new) : new.direction = old.direction := by rw [h]

theorem Kept.source (h : Kept old new) : new.source = old.source := by rw [h]

theorem Kept.account (h : Kept old new) : new.account = old.account := by rw [h]

theorem Kept.body (h : Kept old new) : new.body = old.body := by rw [h]

theorem Kept.hold (h : Kept old new) : new.hold = old.hold := by rw [h]

theorem Kept.conversationId (h : Kept old new) : new.conversationId = old.conversationId := by
  rw [h]

theorem Kept.messageId (h : Kept old new) : new.messageId = old.messageId := by rw [h]

theorem Kept.revision (h : Kept old new) : new.revision = old.revision := by rw [h]

end Kept

structure Grows (d d' : Disk) : Prop where
  records : ∀ i r, d.records.find i = some r →
    ∃ r', d'.records.find i = some r' ∧ Kept r r' ∧ (r.release.isSome → r'.release.isSome)
  requests : ∀ R, (d.requests.find R).isSome → (d'.requests.find R).isSome

theorem Grows.refl (d : Disk) : Grows d d := ⟨fun _ r h => ⟨r, h, .refl r, id⟩, fun _ h => h⟩

theorem Grows.trans {d d₁ d' : Disk} (h : Grows d d₁) (h' : Grows d₁ d') : Grows d d' where
  records i r hr := by
    obtain ⟨r₁, hr₁, hk₁, hrel₁⟩ := h.records i r hr
    obtain ⟨r', hr', hk', hrel'⟩ := h'.records i r₁ hr₁
    exact ⟨r', hr', hk₁.trans hk', fun e => hrel' (hrel₁ e)⟩
  requests R hR := h'.requests R (h.requests R hR)

/-! ## What a group's records may have done to them -/

/-- The record is of the group being released. -/
def InHand (s : World) (i : Identity) : Prop := ∃ h, s.ghost.handed = some h ∧ i ∈ h.ids

/-- The loop may park, fail or annotate the record at `i`: it is of the group
being released, or a browser input that was released meanwhile. -/
def Taken (L : Loop) (s : World) (i : Identity) : Prop :=
  ∃ r, s.disk.records.find i = some r ∧ r.direction = .inbound ∧
    (InHand s i ∨ L.browser = true ∧ r.release.isSome = true)

/-- The browser's loop captures browser records and no other loop does. -/
def Unmixed (L : Loop) (s : World) : Prop :=
  ∀ r ∈ s.disk.records.rows, r.direction = .inbound → (r.source = "browser" ↔ L.browser = true)

/-- What a start answered to re-issue is not grouped yet. -/
def Owing (s : World) : Prop := s.mem.recovering ≠ none ∨ s.ghost.reissuing ≠ []

variable (L : Loop) (alone : Prop)

/-- A reply the next delivery sends. -/
def toSend (r : MessageRecord) : Bool := r.direction == .outbound && r.status == some .pending

/-! ## Record files -/

def unrecordedTeaching : String := "unrecorded-teaching"

/-- The fields `Rewrite`'s kinds leave alone unless they say so. -/
structure Untouched (old new : MessageRecord) : Prop where
  disposition : new.disposition = old.disposition
  release : new.release = old.release
  delivery : new.delivery = old.delivery
  parkReason : new.adapterFields.parkReason = old.adapterFields.parkReason

/-- What a `letGo` is preceded by: an unchecked release of this id, the fence
held, and (alone) the held reply itself. -/
structure LetsGo (s : World) (R : String) : Prop where
  handed : ∃ h, s.ghost.handed = some h ∧ h.releaseId = R ∧ h.checked = false ∧
    (alone → ∃ z, s.disk.records.find z.id = some z ∧ z.direction = .outbound ∧
      z.conversationId = h.conversationId ∧ z.requestId = some R ∧
      z.status = some .pendingTeachCheck)

/-- A write over the record that is there. -/
inductive Rewrite (s : World) (old new : MessageRecord) : Prop
  | noted : Untouched old new → Rewrite s old new
  | parked : old.direction = .inbound → new.disposition = .parked → new.release = old.release →
      new.delivery = old.delivery →
      (Taken L s old.id ∨ old.release = none ∧ s.ghost.waiting = []) → Rewrite s old new
  | parkedReply (h : Handed) : old.direction = .outbound → s.ghost.handed = some h →
      h.checked = true → old.conversationId = h.conversationId →
      (alone → old.requestId = some h.releaseId ∧ old.status = some .pendingTeachCheck) →
      new.disposition = .parked → new.release = old.release → new.delivery = old.delivery →
      new.adapterFields.parkReason = some unrecordedTeaching → Rewrite s old new
  | failed : Taken L s old.id → old.release.isSome = true → new.disposition = .permanentError →
      new.release = old.release → new.delivery = old.delivery →
      new.adapterFields.parkReason = old.adapterFields.parkReason → Rewrite s old new
  | released (rel : Release) : rel.completedAt = none → (InHand s old.id ∨ L.browser = true) →
      new.disposition = old.disposition → new.release = some rel → new.delivery = old.delivery →
      new.adapterFields.parkReason = old.adapterFields.parkReason → Rewrite s old new
  | completed (at_ : String) : (L.browser = true ∨ ¬ Owing s) → new.disposition = old.disposition →
      new.release = some (completedRelease at_ old.release) → new.delivery = old.delivery →
      new.adapterFields.parkReason = old.adapterFields.parkReason → Rewrite s old new
  | settled (q : ReplyRequest) (status : Status) (chunkIds : Option (List String))
      (at_ : Option String) : s.disk.requests.find q.requestId = some q → q.names = old.id →
      (status.live = false ∨ status = .pending ∧ q.status = .pendingTeachCheck ∧
        LetsGo alone s q.requestId ∧ ∃ e, s.hist.head? = some e ∧ e.event = .letGo q.requestId) →
      new.disposition = old.disposition → new.release = old.release →
      new.delivery = some (settledDelivery old.delivery status chunkIds at_) →
      new.adapterFields.parkReason = old.adapterFields.parkReason → Rewrite s old new

/-- A write of a record file. -/
inductive RecordMove (s : World) (r : MessageRecord) : Prop
  | captured : s.disk.records.find r.id = none → ({ record := r } : Candidate).fits L.browser →
      RecordMove s r
  | refused (d : Delivery) : s.disk.records.find r.id = none → r.direction = .outbound →
      r.release = none → r.disposition = .parked → r.delivery = some d → d.status = .failed →
      r.messageId = replyMessageId r.conversationId d.requestId →
      (Unmixed L s → L.browser = true) → RecordMove s r
  | replied (d : Delivery) : s.disk.records.find r.id = none → r.direction = .outbound →
      r.release = none → r.disposition = .captured → r.delivery = some d →
      d.status = replyStatus L r.conversationId →
      r.messageId = replyMessageId r.conversationId d.requestId →
      (Unmixed L s → L.browser = false → r.revision = 0) →
      (∀ q, s.disk.requests.find d.requestId = some q → q.status = .failed) →
      s.ghost.replying = none → RecordMove s r
  | rewritten (old : MessageRecord) : s.disk.records.find r.id = some old → Kept old r →
      Rewrite L alone s old r → RecordMove s r

/-! ## Fences -/

/-- A write of a fence. -/
inductive RequestMove (s : World) (q : ReplyRequest) : Prop
  | replied (r : MessageRecord) :
      (∀ q₀, s.disk.requests.find q.requestId = some q₀ → q₀.status = .failed) →
      q.status = replyStatus L q.conversationId →
      q.messageId = replyMessageId q.conversationId q.requestId →
      (Unmixed L s → L.browser = false → q.revision = 0) →
      s.disk.records.find q.names = some r →
      (s.ghost.replying = some q.names ∧ r.direction = .outbound ∧ r.status = some q.status ∧
          r.requestId = some q.requestId ∨
        s.ghost.replying = none ∧ (Unmixed L s → L.browser = false)) →
      RequestMove s q
  | settled (q₀ : ReplyRequest) (r : MessageRecord) : s.disk.requests.find q.requestId = some q₀ →
      q.names = q₀.names → s.disk.records.find q.names = some r → r.status = some q.status →
      s.ghost.replying = none → RequestMove s q

/-! ## Memory and program points -/

structure MemMove (s : World) (m : Mem) : Prop where
  recovering : m.recovering = s.mem.recovering ∨
    ∃ ids, m.recovering = some ids ∧ ¬ Owing s ∧ s.ghost.started = true ∧
      s.ghost.handed = none ∧ (L.browser = true → ids = [])
  group : (∀ r ∈ m.group, Taken L s r.id) ∧ (L.browser = false → m.group = s.mem.group)
  browserActive : L.browser = false → m.browserActive = none

/-- The follow-up of the teach check of `R` answered that nothing was taught. -/
def SaidNothing (R : String) (e : Entry) : Prop :=
  ∃ status text, e.event = .turned R (R ++ "-teach-check") status text ∧
    said nothingTaught text = true

/-- The check of `R` has something to go on. -/
def Evidence (s : World) (R : String) : Prop :=
  teachingsUnderRelease L s.disk R ≠ [] ∨ ∃ e ∈ s.hist, SaidNothing R e

/-- The records of the conversation as they are on disk. -/
def conversation (d : Disk) (conversationId : String) : List MessageRecord :=
  d.records.rows.filter (·.conversationId = conversationId)

/-- An operator's hold governs the conversation and holds it. -/
def Held (d : Disk) (t : Int) (conversationId : String) : Prop :=
  holdApplies L.channel conversationId = true ∧
    isHeld L (conversation d conversationId) t = true

inductive MarkMove (s : World) : Event → Prop
  | started : s.ghost = {} → s.mem = {} → MarkMove s .started
  | grouped (groups : List (List MessageRecord)) : s.ghost.waiting = [] →
      s.ghost.handed = none → s.mem.recovering = none →
      (∀ g ∈ groups, ∀ r ∈ g, s.disk.records.find r.id = some r ∧ r.direction = .inbound ∧
        (r.disposition ≠ .parked ∧ r.release = none ∨
          ∃ R ∈ s.ghost.reissuing, r.openRelease = some R)) → MarkMove s (.grouped groups)
  | begun (r : MessageRecord) (R : String) (reissue : Bool) : InHand s r.id →
      (reissue = false → ¬ Held L s.disk s.clock r.conversationId) →
      MarkMove s (.begun r R reissue)
  | turn (h : Handed) (c : String) : s.ghost.handed = some h → MarkMove s (.turn h.releaseId c)
  | turned (h : Handed) (c : String) (status : TurnStatus) (text : Option String) :
      s.ghost.handed = some h → MarkMove s (.turned h.releaseId c status text)
  | letGo (R : String) : LetsGo alone s R → Evidence L s R → MarkMove s (.letGo R)
  | unrecorded (h : Handed) : s.ghost.handed = some h → MarkMove s (.unrecorded h.releaseId)
  | holds : MarkMove s .holds
  | stops : MarkMove s .stops
  | faulted : MarkMove s .faulted
  | delivering (records : List MessageRecord) : s.ghost.replying = none →
      (∀ r ∈ records, s.disk.records.find r.id = some r) → MarkMove s (.delivering records)
  | send (r : MessageRecord) : r ∈ s.ghost.delivering → r.direction = .outbound →
      r.status = some .pending → s.ghost.sending = none → MarkMove s (.send r)
  | settled (r x : MessageRecord) (q : ReplyRequest) (R : String) : r.requestId = some R →
      s.disk.requests.find R = some q → s.disk.records.find q.names = some x →
      x.status = some q.status → q.status.live = false → MarkMove s (.settled r)

/-- A group is handed over. -/
structure HandMove (s : World) (records : List MessageRecord) (reissue : Bool) : Prop where
  waiting : ∃ g ∈ s.ghost.waiting, ∀ r ∈ records, ∃ x ∈ g, x.id = r.id
  there : ∀ r ∈ records, ∃ x, s.disk.records.find r.id = some x ∧ x.direction = .inbound ∧
    Kept r x
  browser : L.browser = true → reissue = false →
    ∀ r ∈ records, ∀ x, s.disk.records.find r.id = some x → x.release = none
  reissue : reissue = true → L.browser = false
  owing : ¬ Owing s

def Move : Act → World → Prop
  | .record r, s => RecordMove L alone s r
  | .request q, s => RequestMove L s q
  | .mem m, s => MemMove L s m
  | .mark e, s => MarkMove L alone s e
  | .take releaseIds, s => releaseIds = s.mem.recovering.getD []
  | .hand records _ reissue, s => HandMove L s records reissue
  | .seq _, _ | .raw _ _, _ | .index _, _ | .teaching _, _ | .cursor _, _ | .thread _, _ | .poll _, _
  | .latch _, _ => True

/-- What the loop's own memory keeps. -/
structure base (s : World) : Prop where
  group : ∀ r ∈ s.mem.group, Taken L s r.id
  browserActive : L.browser = false → s.mem.browserActive = none
  recovering : L.browser = true → s.mem.recovering.getD [] = []
  reissuing : L.browser = true → s.ghost.reissuing = []
  owing : Owing s → s.ghost.handed = none

/-- What others may do while an answer is awaited. -/
structure Follows (s s' : World) : Prop where
  grows : Grows s.disk s'.disk
  mem : s'.mem = s.mem
  ghost : s'.ghost = s.ghost
  hist : s'.hist = s.hist
  alone : alone → s' = s

/-! ## Every move lets the disk grow -/

section
variable {L : Loop} {alone : Prop} {s s' : World}

theorem Rewrite.release {old new : MessageRecord} (h : Rewrite L alone s old new)
    (ho : old.release.isSome = true) : new.release.isSome = true := by
  cases h with
  | noted h => rw [h.release]; exact ho
  | parked _ _ h _ _ => rw [h]; exact ho
  | parkedReply _ _ _ _ _ _ _ h _ _ => rw [h]; exact ho
  | failed _ _ _ h _ _ => rw [h]; exact ho
  | released _ _ _ _ h _ _ => rw [h]; rfl
  | completed _ _ _ h _ _ => rw [h]; rfl
  | settled _ _ _ _ _ _ _ _ h _ _ => rw [h]; exact ho

theorem grows_put_new {r : MessageRecord} (h : s.disk.records.find r.id = none) :
    Grows s.disk { s.disk with records := s.disk.records.put r } where
  records i x hx := by
    have hne : i ≠ r.id := by
      intro e
      rw [e, h] at hx
      cases hx
    exact ⟨x, by rw [Table.find_put_other _ _ hne]; exact hx, .refl x, fun e => e⟩
  requests R hR := hR

theorem RecordMove.grows {r : MessageRecord} (h : RecordMove L alone s r) :
    Grows s.disk { s.disk with records := s.disk.records.put r } := by
  cases h with
  | captured h _ => exact grows_put_new h
  | refused _ h => exact grows_put_new h
  | replied _ h => exact grows_put_new h
  | rewritten old hold hk hw =>
    refine ⟨fun i x hx => ?_, fun R hR => hR⟩
    by_cases hi : i = r.id
    · subst hi
      rw [hold] at hx
      cases hx
      exact ⟨r, Table.find_put_self _ _, hk, hw.release⟩
    · exact ⟨x, by rw [Table.find_put_other _ _ hi]; exact hx, .refl x, fun e => e⟩

theorem RequestMove.grows {q : ReplyRequest} (_ : RequestMove L s q) :
    Grows s.disk { s.disk with requests := s.disk.requests.put q } :=
  ⟨fun _ r hr => ⟨r, hr, .refl r, id⟩, fun _ hR => Table.find_put_isSome q hR⟩

theorem Move.grows {a : Act} (h : Move L alone a s) : Grows s.disk (a.apply s).disk := by
  cases a with
  | record r =>
    rw [Act.apply, World.putRecord_disk]
    exact RecordMove.grows h
  | request q => exact RequestMove.grows h
  | seq | raw | index | teaching | cursor | thread | poll | latch | mem | mark | take | hand =>
    exact ⟨fun i r hr => ⟨r, hr, .refl r, id⟩, fun R hR => hR⟩

/-! ## The protocol -/

theorem InHand.congr {i : Identity} (h : InHand s i)
    (hh : s'.ghost.handed.map (·.ids) = s.ghost.handed.map (·.ids)) : InHand s' i := by
  obtain ⟨g, hg, hi⟩ := h
  rw [hg, Option.map_some, Option.map_eq_some_iff] at hh
  obtain ⟨g', hg', he⟩ := hh
  exact ⟨g', hg', by rw [he]; exact hi⟩

theorem Taken.mono {i : Identity} (h : Taken L s i) (hg : Grows s.disk s'.disk)
    (hh : s'.ghost.handed.map (·.ids) = s.ghost.handed.map (·.ids)) : Taken L s' i := by
  obtain ⟨r, hr, hdir, hc⟩ := h
  obtain ⟨r', hr', hk, hrel⟩ := hg.records i r hr
  refine ⟨r', hr', hk.direction.trans hdir, ?_⟩
  rcases hc with hc | ⟨hb, hc⟩
  · exact .inl (hc.congr hh)
  · exact .inr ⟨hb, hrel hc⟩

theorem Ghost.mark_ids (g : Ghost) (e : Event) :
    (g.mark e).handed.map (·.ids) = g.handed.map (·.ids) := by
  cases e with
  | unrecorded R =>
    simp only [Ghost.mark, Option.map_map]
    rfl
  | _ => rfl

theorem Ghost.mark_reissuing (g : Ghost) (e : Event) :
    (g.mark e).reissuing = g.reissuing ∨ (g.mark e).reissuing = [] := by
  cases e with
  | grouped groups => exact .inr rfl
  | delivering records => exact .inr rfl
  | _ => exact .inl rfl

theorem Ghost.mark_handed (g : Ghost) (e : Event) :
    ((g.mark e).handed = none) = (g.handed = none) := by
  cases e with
  | unrecorded R => simp [Ghost.mark]
  | _ => rfl

theorem Ghost.put_ids (g : Ghost) (old : Option MessageRecord) (r : MessageRecord) :
    (g.put old r).handed.map (·.ids) = g.handed.map (·.ids) := by
  rw [Ghost.put_eq]

theorem Move.base {a : Act} (hs : base L s) (h : Move L alone a s) : base L (a.apply s) := by
  have hg := Move.grows h
  cases a with
  | record r =>
    have hids : ((Act.record r).apply s).ghost.handed.map (·.ids) = s.ghost.handed.map (·.ids) := by
      rw [Act.apply, World.putRecord_ghost, Ghost.put_ids]
    have hmem : ((Act.record r).apply s).mem = s.mem := World.putRecord_mem s r
    have hre : ((Act.record r).apply s).ghost.reissuing = s.ghost.reissuing := by
      rw [Act.apply, World.putRecord_ghost, Ghost.put_eq]
    have hhand : ((Act.record r).apply s).ghost.handed = s.ghost.handed := by
      rw [Act.apply, World.putRecord_ghost, Ghost.put_eq]
    refine ⟨fun x hx => ?_, ?_, ?_, ?_, ?_⟩
    · exact (hs.group x (by rwa [hmem] at hx)).mono hg hids
    · rw [hmem]; exact hs.browserActive
    · rw [hmem]; exact hs.recovering
    · rw [hre]; exact hs.reissuing
    · rw [hhand, Owing, hmem, hre]; exact hs.owing
  | mem m =>
    refine ⟨fun x hx => (h.group.1 x hx).mono hg rfl, h.browserActive, fun hb => ?_, hs.reissuing,
      fun ho => ?_⟩
    · rcases h.recovering with e | ⟨ids, e, _, _, _, hids⟩
      · exact (congrArg (·.getD []) e).trans (hs.recovering hb)
      · exact (congrArg (·.getD []) e).trans (hids hb)
    · rcases h.recovering with e | ⟨_, _, _, _, hnone, _⟩
      · exact hs.owing (ho.imp_left fun hne => by rwa [← e])
      · exact hnone
  | mark e =>
    have howing : (L.browser = true → (s.ghost.mark e).reissuing = []) ∧
        (Owing ((Act.mark e).apply s) → s.ghost.handed = none) := by
      rcases Ghost.mark_reissuing s.ghost e with hr | hr
      · exact ⟨fun hb => hr.trans (hs.reissuing hb), fun ho =>
          hs.owing (ho.imp_right fun hne => by rwa [← hr])⟩
      · exact ⟨fun _ => hr, fun ho => hs.owing (.inl (ho.resolve_right fun hne => hne hr))⟩
    exact ⟨fun x hx => (hs.group x hx).mono hg (Ghost.mark_ids _ e), hs.browserActive,
      hs.recovering, howing.1, fun ho => (Ghost.mark_handed _ e).mpr (howing.2 ho)⟩
  | take releaseIds =>
    have hids : releaseIds = s.mem.recovering.getD [] := h
    refine ⟨fun x hx => ?_, hs.browserActive, fun _ => rfl, fun hb =>
      hids.trans (hs.recovering hb), fun _ => rfl⟩
    cases hx
  | hand records R reissue =>
    refine ⟨fun x hx => ?_, hs.browserActive, hs.recovering, hs.reissuing, fun ho =>
      absurd ho h.owing⟩
    obtain ⟨y, hy, hdir, _⟩ := h.there x hx
    exact ⟨y, hy, hdir, .inl ⟨_, rfl, List.mem_map_of_mem hx⟩⟩
  | seq | raw | index | request | teaching | cursor | thread | poll | latch =>
    exact ⟨fun x hx => (hs.group x hx).mono hg rfl, hs.browserActive, hs.recovering, hs.reissuing,
      hs.owing⟩

theorem Follows.refl (s : World) : Follows alone s s := ⟨.refl _, rfl, rfl, rfl, fun _ => rfl⟩

theorem Follows.trans {s₁ : World} (h : Follows alone s s₁) (h' : Follows alone s₁ s') :
    Follows alone s s' :=
  ⟨h.grows.trans h'.grows, h'.mem.trans h.mem, h'.ghost.trans h.ghost, h'.hist.trans h.hist,
    fun ha => (h'.alone ha).trans (h.alone ha)⟩

theorem Follows.base (hs : base L s) (h : Follows alone s s') : base L s' := by
  refine ⟨fun r hr => ?_, ?_, ?_, ?_, ?_⟩
  · rw [h.mem] at hr
    exact (hs.group r hr).mono h.grows (by rw [h.ghost])
  · rw [h.mem]; exact hs.browserActive
  · rw [h.mem]; exact hs.recovering
  · rw [h.ghost]; exact hs.reissuing
  · rw [Owing, h.mem, h.ghost]; exact hs.owing

theorem after_disk (q : Ask) (a : q.Answer) (s : World) : (q.after a s).disk = s.disk := by
  cases q <;> rfl

theorem after_mem (q : Ask) (a : q.Answer) (s : World) : (q.after a s).mem = s.mem := by
  cases q <;> rfl

theorem after_ghost (q : Ask) (a : q.Answer) (s : World) : (q.after a s).ghost = s.ghost := by
  cases q <;> rfl

theorem after_hist (q : Ask) (a : q.Answer) (s : World) : (q.after a s).hist = s.hist := by
  cases q <;> rfl

theorem after_base (q : Ask) (a : q.Answer) (hs : base L s) : base L (q.after a s) := by
  refine ⟨fun r hr => ?_, ?_, ?_, ?_, ?_⟩
  · rw [after_mem] at hr
    exact (hs.group r hr).mono (by rw [after_disk]; exact .refl _) (by rw [after_ghost])
  · rw [after_mem]; exact hs.browserActive
  · rw [after_mem]; exact hs.recovering
  · rw [after_ghost]; exact hs.reissuing
  · rw [Owing, after_mem, after_ghost]; exact hs.owing

end

/-- The acts of the loop `L` are moves; others run while it awaits an answer,
unless it is alone. -/
def moves : Proto (sig L) where
  inv := base L
  ok := Move L alone
  heard q a s := q.fits L.browser a s
  rely q s s' := if q.awaits then Follows alone s s' else s' = s
  act_inv _ _ hs h := Move.base hs h
  hear_inv q a _ hs _ := after_base q a hs
  rely_inv q s s' hs h := by
    split at h
    · exact h.base hs
    · rw [h]; exact hs
  rely_refl q s := by
    split
    · exact .refl s
    · rfl
  rely_trans q s s₁ s' h h' := by
    split at h
    · rename_i hq
      rw [if_pos hq] at h' ⊢
      exact h.trans h'
    · rename_i hq
      rw [if_neg hq] at h' ⊢
      rw [h', h]

theorem moves_valid (q : Ask) (a : q.Answer) (s : World) (h : (sig L).valid q a s) :
    (moves L alone).heard q a s := h.1

end CarbonRuntime.Moves
