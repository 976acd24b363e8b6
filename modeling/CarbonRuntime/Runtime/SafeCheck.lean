import CarbonRuntime.Runtime.SafeTurn

/-!
# Settlements and the teach check keep to the moves

A settlement writes the record its fence names and then the fence; the teach
check lets a held reply go on evidence (`Evidence`) or parks it. Neither is
quiet: both are stated against `Close`.
-/

open CarbonRuntime.Core CarbonRuntime.Stream

namespace CarbonRuntime.Moves

open Store Policy Teachings Tools Calls Turn

variable {L : Loop} {alone : Prop} {s s' : World} {X : Err → World → Prop}

/-! ## What a check goes by -/

/-- The fence of `R` and the record it names are at this status. -/
def Settled (R : String) (status : Status) (s : World) : Prop :=
  ∃ q x, s.disk.requests.find R = some q ∧ q.status = status ∧
    s.disk.records.find q.names = some x ∧ x.status = some status

/-- What a settlement at this status takes: that it is not live, or that a
reply was let go just now. -/
def MaySettle (alone : Prop) (s : World) (R : String) (status : Status) : Prop :=
  status.live = false ∨ status = .pending ∧ LetsGo alone s R ∧
    (∀ q, s.disk.requests.find R = some q → q.status = .pendingTeachCheck) ∧
    ∃ e, s.hist.head? = some e ∧ e.event = .letGo R

theorem LetsGo.seqOnly {R : String} (h : LetsGo alone s R) (hs : SeqOnly s s') :
    LetsGo alone s' R := by
  obtain ⟨g, hg, hR, hc, hz⟩ := h.handed
  exact ⟨g, by rw [hs.ghost]; exact hg, hR, hc, by rw [hs.records]; exact hz⟩

/-- The release of `R` on the conversation is in hand and its check has parked nothing. -/
def Unchecked (s : World) (R conversationId : String) : Prop :=
  ∃ h, s.ghost.handed = some h ∧ h.releaseId = R ∧ h.checked = false ∧
    h.conversationId = conversationId

/-- `z` is a reply of this release that is held. -/
def HeldReply (alone : Prop) (s : World) (R conversationId : String) (i : Identity) : Prop :=
  ∃ z, s.disk.records.find i = some z ∧ z.direction = .outbound ∧
    z.conversationId = conversationId ∧
    (alone → z.requestId = some R ∧ z.status = some .pendingTeachCheck)

theorem Unchecked.quiet {R c : String} (h : Unchecked s R c) (hq : Quiet L alone s s') :
    Unchecked s' R c := by
  obtain ⟨g, hg, hrest⟩ := h
  exact ⟨g, by rw [hq.ghost]; exact hg, hrest⟩

theorem Unchecked.releasing {R c : String} (h : Unchecked s R c) : Releasing s R := by
  obtain ⟨g, hg, hR, _⟩ := h
  exact ⟨g, hg, hR⟩

theorem HeldReply.quiet {R c : String} {i : Identity} (h : HeldReply alone s R c i)
    (hq : Quiet L alone s s') : HeldReply alone s' R c i := by
  obtain ⟨z, hz, hdir, hc, ha⟩ := h
  obtain ⟨z', hz', hk, _⟩ := hq.grows.records i z hz
  refine ⟨z', hz', hk.direction.trans hdir, hk.conversationId.trans hc, fun hal => ?_⟩
  rw [MessageRecord.requestId, MessageRecord.status, (hq.still hal i z z' hz hz').delivery]
  exact ha hal

theorem letsGo_of {R c : String} {i : Identity} (hu : Unchecked s R c)
    (hh : HeldReply alone s R c i) : LetsGo alone s R := by
  obtain ⟨g, hg, hR, hck, hc⟩ := hu
  obtain ⟨z, hz, hdir, hzc, ha⟩ := hh
  exact ⟨g, hg, hR, hck, fun hal => ⟨z, by rw [Table.find_key hz]; exact hz, hdir, hzc.trans hc.symm,
    (ha hal).1, (ha hal).2⟩⟩

namespace Safe

/-! ## Settlements -/

theorem close_request {q : ReplyRequest} (hm : RequestMove L s q) (h0 : s.ghost.replying = none) :
    Close L s ((Act.request q).apply s) :=
  (quiet_request hm h0 : Quiet L True s _).close

theorem close_rewrite {old r : MessageRecord} (hold : s.disk.records.find r.id = some old)
    (hk : Kept old r) (hw : Rewrite L alone s old r) : Close L s ((Act.record r).apply s) where
  grows := Move.grows (a := .record r) (RecordMove.rewritten old hold hk hw)
  ghost := by rw [Act.apply, World.putRecord_ghost, hold, Ghost.put_old]
  handed := by rw [Act.apply, World.putRecord_ghost, hold, Ghost.put_old]
  recovering := by rw [Act.apply, World.putRecord_mem]
  group _ := by rw [Act.apply, World.putRecord_mem]
  hist := suffix_putRecord s r
  underway := World.putRecord_underway s r

theorem settle_wp {R : String} {status : Status} {chunkIds : Option (List String)}
    {at_ : Option String} (hs : base L s) (h0 : s.ghost.replying = none)
    (hok : MaySettle alone s R status) :
    Prog.wp (moves L alone) (Store.settleDelivery L R status chunkIds at_)
      (fun _ s' => Close L s s' ∧ Settled R status s')
      (fun e s' => SettleError L R s e ∧ s' = s) s := by
  refine wp_settle R status chunkIds at_ hs trivial (fun e he => ⟨he, rfl⟩)
    fun q old new s' hq hold hnew hs' hi' => ?_
  have hqR : q.requestId = R := Table.find_key hq
  have hkept : Kept old new := by rw [Kept, hnew.eq]; rfl
  have hid : new.id = q.names := hkept.id.trans (Table.find_key hold)
  have hdel : new.delivery = some (settledDelivery old.delivery status chunkIds at_) := by
    rw [hnew.eq]
    rfl
  have hw : Rewrite L alone s' old new := by
    refine .settled q status chunkIds at_ ?_ (Table.find_key hold).symm ?_ (by rw [hnew.eq]; rfl)
      (by rw [hnew.eq]; rfl) hdel hnew.parkReason
    · rw [hs'.requests, hqR]
      exact hq
    · refine hok.imp_right ?_
      rintro ⟨h₁, h₂, h₃, h₄⟩
      refine ⟨h₁, h₃ q hq, ?_, ?_⟩
      · rw [hqR]
        exact h₂.seqOnly hs'
      · rw [hs'.hist, hqR]
        exact h₄
  have hold' : s'.disk.records.find new.id = some old := by rw [hs'.records, hid]; exact hold
  have hc₁ : Close L s s' := (quiet_seqOnly hs' : Quiet L alone s s').close
  have hc₂ : Close L s' ((Act.record new).apply s') := close_rewrite hold' hkept hw
  have hstatus : new.status = some status := by
    rw [MessageRecord.status, hdel]
    rfl
  refine ⟨.rewritten old hold' hkept hw, fun _ => ?_⟩
  have hreqs : ((Act.record new).apply s').disk.requests = s.disk.requests := by
    rw [Act.apply, World.putRecord_disk]
    exact hs'.requests
  have hrec : ((Act.record new).apply s').disk.records.find q.names = some new := by
    rw [Act.apply, World.putRecord_disk, ← hid]
    exact Table.find_put_self _ _
  have h0' : ((Act.record new).apply s').ghost.replying = none :=
    (hc₁.trans hc₂).replying.trans h0
  have hm : RequestMove L ((Act.record new).apply s')
      { q with status, chunkIds := chunkIds.getD q.chunkIds } :=
    .settled q new (by rw [hreqs, hqR]; exact hq) rfl hrec hstatus h0'
  refine ⟨hm, fun _ => ⟨(hc₁.trans hc₂).trans (close_request hm h0'),
    { q with status, chunkIds := chunkIds.getD q.chunkIds }, new, ?_, rfl, hrec, hstatus⟩⟩
  rw [← hqR]
  exact Table.find_put_self ((Act.record new).apply s').disk.requests
    { q with status, chunkIds := chunkIds.getD q.chunkIds }

/-! ## Letting a held reply go -/

theorem close_mark {e : Event} (h : ∀ g : Ghost, g.mark e = g) :
    Close L s ((Act.mark e).apply s) := (quiet_mark h : Quiet L True s _).close

theorem releaseHeldReply_wp {R : String} (h0 : s.ghost.replying = none)
    (hgo : LetsGo alone s R) (hev : Evidence L s R) :
    Prog.wp (moves L alone) (Store.releaseHeldReply L R) (fun _ => Close L s)
      (fun _ => Close L s) s := by
  unfold Store.releaseHeldReply
  rw [Prog.wp_bind]
  refine wp_readRequest R (fun _ => .refl s) ?_
  split
  · rename_i hheld
    rw [Prog.wp_bind, wp_mark]
    refine ⟨.letGo R hgo hev, fun hs₁ => ?_⟩
    have hc : Close L s ((Act.mark (.letGo R)).apply s) := close_mark fun _ => rfl
    have hmay : MaySettle alone ((Act.mark (.letGo R)).apply s) R .pending := by
      refine .inr ⟨rfl, ⟨hgo.handed⟩, fun q hq => ?_, _, rfl, rfl⟩
      rw [show ((Act.mark (.letGo R)).apply s).disk = s.disk from rfl] at hq
      rw [hq] at hheld
      simpa using hheld
    exact Prog.wp_mono _ (settle_wp hs₁ h0 hmay) (fun _ _ h => hc.trans h.1) fun _ _ h => by
      rw [h.2]
      exact hc
  · exact (wp_raise _).2 (.refl s)

/-! ## The check -/

theorem heldReply_wp (conversationId R : String) {Q : Option MessageRecord → World → Prop}
    (hX : ∀ e, X e s) (hnone : Q none s)
    (hsome : ∀ z, HeldReply alone s R conversationId z.id → Q (some z) s) :
    Prog.wp (moves L alone) (Turn.heldReply L conversationId R) Q X s := by
  unfold Turn.heldReply
  rw [Prog.wp_bind]
  refine wp_recordsIn _ hX fun records hperm => (Prog.wp_pure _).2 ?_
  cases hf : records.find? (isHeldReply R) with
  | none => exact hnone
  | some z =>
    refine hsome z ?_
    have hmem := hperm.mem_iff.1 (List.mem_of_find?_eq_some hf)
    rw [mem_conversation] at hmem
    have hz := List.find?_some hf
    simp only [isHeldReply, Bool.and_eq_true, beq_iff_eq] at hz
    exact ⟨z, Table.mem_find hmem.1, hz.1.1, hmem.2, fun _ => ⟨hz.1.2, hz.2⟩⟩

theorem recordedThisRelease_wp (R : String) {Q : Bool → World → Prop}
    (h : Q (decide (teachingsUnderRelease L s.disk R ≠ [])) s) :
    Prog.wp (moves L alone) (Turn.recordedThisRelease L R) Q X s := by
  simpa only [Turn.recordedThisRelease, Prog.wp_bind, wp_fetch, Prog.wp_pure] using h

theorem close_unrecorded {R : String} : Close L s ((Act.mark (.unrecorded R)).apply s) where
  grows := .refl _
  ghost := rfl
  handed := by
    show (s.ghost.handed.map _).map Handed.opened = s.ghost.handed.map Handed.opened
    rw [Option.map_map]
    rfl
  recovering := rfl
  group _ := rfl
  hist := List.suffix_cons _ _
  underway := rfl

theorem parkUnrecorded_wp {R c : String} {i : Identity} {cause : Fault} (h0 : s.ghost.replying = none)
    (hu : Unchecked s R c) (hh : HeldReply alone s R c i) :
    Prog.wp (moves L alone) (Turn.parkUnrecorded L i R cause) (fun _ => Close L s)
      (fun _ => Close L s) s := by
  obtain ⟨g, hg, hR, _, hc⟩ := hu
  unfold Turn.parkUnrecorded
  rw [Prog.wp_bind, wp_mark]
  refine ⟨hR ▸ .unrecorded g hg, fun hs₁ => ?_⟩
  have hclose : Close L s ((Act.mark (.unrecorded R)).apply s) := close_unrecorded
  have hh₁ : HeldReply alone ((Act.mark (.unrecorded R)).apply s) R c i := hh
  have hg₁ : ((Act.mark (.unrecorded R)).apply s).ghost.handed = some { g with checked := true } := by
    show s.ghost.handed.map _ = _
    rw [hg]
    rfl
  have hpark : Safe (quiet L alone) ((Act.mark (.unrecorded R)).apply s)
      (Turn.parkRead L i [cause] (some unrecordedTeaching)) := by
    refine read _ fun s₂ hr₂ => ?_
    split
    · exact raise _
    · refine discard (rewrite (fun _ => rfl) (fun _ => rfl) fun s₃ old new hr₃ hold hnew => ?_)
      have hq := hr₂.trans hr₃
      obtain ⟨z, hz, hdir, hzc, ha⟩ := hh₁.quiet hq
      rw [hold] at hz
      cases hz
      refine .parkedReply { g with checked := true } hdir (by rw [hq.ghost]; exact hg₁) rfl
        (hzc.trans hc.symm) (fun hal => ⟨hR ▸ (ha hal).1, (ha hal).2⟩) (by rw [hnew.eq]; rfl)
        (by rw [hnew.eq]; rfl) (by rw [hnew.eq]; rfl) hnew.parkReason
  exact Prog.wp_mono _ (hpark h0 _ hs₁ (.refl _)) (fun _ _ h => hclose.trans h.close)
    fun _ _ h => hclose.trans h.close

theorem programTeachCheck_wp {record : MessageRecord} {R : String}
    (h0 : s.ghost.replying = none) (hu : Unchecked s R record.conversationId) :
    Prog.wp (moves L alone) (Turn.programTeachCheck L record R) (fun _ => Close L s)
      (fun _ => Close L s) s := by
  unfold Turn.programTeachCheck
  rw [Prog.wp_bind]
  refine heldReply_wp _ _ (fun _ => .refl s) ((Prog.wp_pure _).2 (.refl s)) fun z hz => ?_
  dsimp only
  rw [Prog.wp_bind]
  refine recordedThisRelease_wp R ?_
  split
  · rename_i hrec
    simp only [Prog.wp_bind, Prog.wp_pure]
    exact releaseHeldReply_wp h0 (letsGo_of hu hz) (.inl (by simpa using hrec))
  · simp only [Store.read, Prog.wp_bind, wp_refuse, wp_fetch, Prog.wp_pure]
    refine ⟨fun _ => ?_, fun _ => .refl s⟩
    split
    · exact (Prog.wp_pure _).2 (.refl s)
    · simp only [Prog.wp_bind, Prog.wp_pure]
      exact parkUnrecorded_wp h0 hu hz

theorem ensureTeachCheck_wp {record : MessageRecord} {unitId threadId R : String} (hs : base L s)
    (h0 : s.ghost.replying = none) (hu : Unchecked s R record.conversationId) :
    Prog.wp (moves L alone) (Turn.ensureTeachCheck L record unitId threadId R) (fun _ => Close L s)
      (fun _ => Close L s) s := by
  unfold Turn.ensureTeachCheck
  rw [Prog.wp_bind]
  refine heldReply_wp _ _ (fun _ => .refl s) ((Prog.wp_pure _).2 (.refl s)) fun z hz => ?_
  dsimp only
  rw [Prog.wp_bind]
  refine recordedThisRelease_wp R ?_
  split
  · rename_i hrec
    simp only [Prog.wp_bind, Prog.wp_pure]
    exact releaseHeldReply_wp h0 (letsGo_of hu hz) (.inl (by simpa using hrec))
  · split
    · exact programTeachCheck_wp h0 hu
    · rw [Prog.wp_bind]
      refine Prog.wp_mono_inv _ hs (takeTurn_turned unitId threadId R _ hs h0 hu.releasing)
        (fun x s₁ hs₁ h₁ => ?_) fun _ _ _ h => h.close
      obtain ⟨hq, hT⟩ := h₁
      obtain ⟨e, he, hev⟩ := hT.mem
      have h0₁ : s₁.ghost.replying = none := by rw [hq.ghost]; exact h0
      have hgo : LetsGo alone s₁ R := letsGo_of (hu.quiet hq) (hz.quiet hq)
      rw [Prog.wp_bind]
      refine recordedThisRelease_wp R ?_
      split
      · rename_i hrec
        simp only [Prog.wp_bind, Prog.wp_pure]
        exact Prog.wp_mono _ (releaseHeldReply_wp h0₁ hgo (.inl (by simpa using hrec)))
          (fun _ _ h => hq.close.trans h) fun _ _ h => hq.close.trans h
      · split
        · rename_i hsaid
          simp only [Prog.wp_bind, Prog.wp_pure]
          exact Prog.wp_mono _ (releaseHeldReply_wp h0₁ hgo (.inr ⟨e, he, _, _, hev, hsaid⟩))
            (fun _ _ h => hq.close.trans h) fun _ _ h => hq.close.trans h
        · simp only [Prog.wp_bind, Prog.wp_pure]
          exact Prog.wp_mono _ (parkUnrecorded_wp h0₁ (hu.quiet hq) (hz.quiet hq))
            (fun _ _ h => hq.close.trans h) fun _ _ h => hq.close.trans h

end Safe

end CarbonRuntime.Moves
