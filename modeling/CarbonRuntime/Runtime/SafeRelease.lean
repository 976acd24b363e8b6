import CarbonRuntime.Runtime.SafeCheck

/-!
# The release pass keeps to the moves

From the tool servers to the loop over the groups. What a release has in hand
(`InRelease`) holds from the moment its group is handed over; what the groups
that wait are (`Waits`) holds from the moment they are made, and every release of
another group keeps it.
-/

open CarbonRuntime.Core CarbonRuntime.Stream

namespace CarbonRuntime.Moves

open Store Policy Teachings Tools Calls Turn Release

variable {L : Loop} {alone : Prop} {s s' : World}

/-- The record at `i` is released. -/
def Released (s : World) (i : Identity) : Prop :=
  ∃ x, s.disk.records.find i = some x ∧ x.release.isSome = true

theorem Released.grows {i : Identity} (h : Released s i) (hg : Grows s.disk s'.disk) :
    Released s' i := by
  obtain ⟨x, hx, hrel⟩ := h
  obtain ⟨x', hx', _, hrel'⟩ := hg.records i x hx
  exact ⟨x', hx', hrel' hrel⟩

theorem held_iff {d : Disk} {t : Int} {c : String} :
    Held L d t c ↔ holdApplies L.channel c = true ∧
      ∃ r ∈ d.records.rows, r.conversationId = c ∧ Holding L t r := by
  rw [Held, isHeld_iff]
  refine and_congr_right fun _ => ?_
  constructor
  · rintro ⟨r, hr, hh⟩
    obtain ⟨hr, hc⟩ := Safe.mem_conversation.1 hr
    exact ⟨r, hr, hc, hh⟩
  · rintro ⟨r, hr, hc, hh⟩
    exact ⟨r, Safe.mem_conversation.2 ⟨hr, hc⟩, hh⟩

theorem holding_kept {t : Int} {old new : MessageRecord} (hk : Kept old new)
    (h : Holding L t new) : Holding L t old := by
  obtain ⟨hold, setAt, hh, hrest⟩ := h
  exact ⟨hold, setAt, by rw [← hk.hold]; exact hh, hrest⟩

/-- A write over a record that is there holds no conversation that was not held. -/
theorem Held.put {d : Disk} {t : Int} {c : String} {old new : MessageRecord} (hk : Kept old new)
    (hold : d.records.find new.id = some old)
    (h : Held L { d with records := d.records.put new } t c) : Held L d t c := by
  rw [held_iff] at h ⊢
  obtain ⟨ha, r, hr, hc, hh⟩ := h
  refine ⟨ha, ?_⟩
  rcases Table.mem_put.1 hr with rfl | ⟨hr, _⟩
  · exact ⟨old, Table.find_mem hold, by rw [← hk.conversationId]; exact hc, holding_kept hk hh⟩
  · exact ⟨r, hr, hc, hh⟩

/-- What is in hand while a group is being released. -/
structure InRelease (L : Loop) (record : MessageRecord) (records : List MessageRecord) (R : String)
    (s : World) : Prop where
  unchecked : Unchecked s R record.conversationId
  inHand : ∀ r ∈ records, InHand s r.id
  group : L.browser = false → s.mem.group = records

theorem InRelease.quiet {record : MessageRecord} {records : List MessageRecord} {R : String}
    (h : InRelease L record records R s) (hq : Quiet L alone s s') :
    InRelease L record records R s' :=
  ⟨h.unchecked.quiet hq, fun r hr => hq.inHand (h.inHand r hr),
    fun hb => (hq.group hb).trans (h.group hb)⟩

/-- A turn of the release `R` itself has ended. -/
def TookTurn (R : String) (e : Event) : Prop := ∃ status said, e = .turned R R status said

/-- What `releaseOne` comes to: the release took its turn, or something holds. -/
def Came (R : String) (taken : Bool) (s s' : World) : Prop :=
  Logged s s' fun e => if taken = true then TookTurn R e else e = .holds

namespace Safe

variable {s₀ : World} {F : Frame L alone} {α β : Type} {Q : α → World → Prop}
  {X : Err → World → Prop}

/-! ## Tool servers, the proxy, the thread -/

theorem readToolServerStatus : Safe F s₀ (Release.readToolServerStatus L) := by
  unfold Release.readToolServerStatus
  refine hear .toolStatus fun _ _ _ ha => bind (outcome ha) fun status => fetch fun w _ _ => ?_
  have hset : ∀ s, Safe F s (Turn.setMem L fun m =>
      { m with holdFaults := status.holds, toolStatusStale := false }) :=
    fun s => setMem fun m => ⟨rfl, rfl, fun _ h => h⟩
  exact cond (fun _ => cond (fun _ => bind (raise _) fun _ => hset _)
    fun _ => bind (setMem fun m => ⟨rfl, rfl, fun _ h => h⟩) fun _ => hset _) fun _ => hset _

theorem checkProviderProxy : Safe F s₀ (Release.checkProviderProxy L) := by
  unfold Release.checkProviderProxy
  split
  · exact bind (setMem fun m => ⟨rfl, rfl, fun _ h => h⟩) fun _ => pure _
  · rename_i via _
    dsimp only
    have hset : ∀ (faults : List Fault) s, Safe F s (do
        Turn.setMem L fun m => { m with proxyFaults := faults }
        (Pure.pure faults : Program L (List Fault))) :=
      fun faults s => bind (setMem fun m => ⟨rfl, rfl, fun _ h => h⟩) fun _ => pure _
    split
    · exact hear (.probe _) fun _ _ _ ha => bind (outcome ha) fun up => hset _ _
    · exact bind (pure _) fun up => hset _ _

theorem threadFor (unitId : String) : Safe F s₀ (Release.threadFor L unitId) := by
  unfold Release.threadFor
  refine bind (ask _) fun gate => bind (orThrow _) fun _ => fetch fun w _ _ => ?_
  split
  · exact pure _
  · refine bind (readThread _) fun existing => ?_
    refine hear (.thread unitId _) fun _ _ _ ha => bind (outcome ha) fun opened => ?_
    have hrest : ∀ threadId s, Safe F s (do
        Turn.setMem L fun m => { m with threads := m.threads ++ [(unitId, threadId)] }
        Release.readToolServerStatus L
        (Pure.pure threadId : Program L String)) := fun threadId s =>
      bind (setMem fun m => ⟨rfl, rfl, fun _ h => h⟩) fun _ =>
        bind readToolServerStatus fun _ => pure _
    exact cond (fun _ => bind (readThread _) fun _ => bind (writeThread _) fun _ => hrest _ _)
      fun _ => hrest _ _

/-! ## The records action service -/

/-- The collection of one message. -/
abbrev collectOne (L : Loop) (r : MessageRecord) : Program L Unit :=
  match unitIdFor L.js L.declaration r with
  | .error _ => Pure.pure ()
  | .ok unit => do
    let a ← Store.ask L (.collect r.messageId r.source unit)
    Calls.outcome L a

/-- What `syncCollected` does once it has the messages. -/
def collecting (L : Loop) (candidates : List MessageRecord) : Program L Unit := do
  Prog.each (𝔖 := sig L) (fun (r : MessageRecord) => do
    if r.direction ≠ .inbound || r.historical || !isSourceName r.source then Pure.pure ()
    else collectOne L r) candidates
  Turn.setMem L fun m => { m with collectedSynced := true }

theorem syncCollected (captured : List MessageRecord) :
    Safe F s₀ (Release.syncCollected L captured) := by
  unfold Release.syncCollected
  have hrest : ∀ candidates s, Safe F s (collecting L candidates) := by
    intro candidates s
    unfold collecting
    refine bind (each fun r _ => cond (fun _ => pure _) fun _ => ?_) fun _ =>
      setMem fun m => ⟨rfl, rfl, fun _ h => h⟩
    unfold collectOne
    split
    · exact pure _
    · exact hear (.collect _ _ _) fun _ _ _ ha => outcome ha
  refine cond (fun _ => fetch fun w _ _ => cond (fun _ => bind (pure _) fun c => hrest c _)
    fun _ => rebuild fun _ _ _ _ => hrest _ _) fun _ => pure _

theorem syncCollectedOrHold (records : List MessageRecord) :
    Safe F s₀ (Release.syncCollectedOrHold L records) := by
  unfold Release.syncCollectedOrHold
  refine handle (bind (syncCollected _) fun _ =>
    bind (setMem fun m => ⟨rfl, rfl, fun _ h => h⟩) fun _ => pure _) fun e => ?_
  split
  · exact raise _
  · exact bind (setMem fun m => ⟨rfl, rfl, fun _ h => h⟩) fun _ => pure _

/-! ## Writing the releases -/

theorem wp_now {Q : Int → World → Prop}
    (h : ∀ t, base L { s with clock := t } → Q t { s with clock := t }) :
    Prog.wp (moves L alone) (Store.now L) Q X s := wp_sync rfl fun t _ hi => h t hi

theorem quiet_clock (t : Int) : Quiet L alone s { s with clock := t } :=
  quiet_same rfl rfl rfl rfl rfl

/-- Store.release of a record in hand, with the hold that governs its conversation. -/
theorem release_wp {r : MessageRecord} {rel : Release} (hs : base L s)
    (hrel : rel.completedAt = none) (hi : InHand s r.id) :
    Prog.wp (moves L alone)
      (Store.release L r rel s.clock (holdApplies L.channel r.conversationId))
      (fun _ s' => Quiet L alone s s' ∧ Released s' r.id ∧
        ¬ Held L s'.disk s'.clock r.conversationId) (fun _ => Quiet L alone s) s := by
  have hwrite : ∀ held, (held = false → ¬ Held L s.disk s.clock r.conversationId) →
      Prog.wp (moves L alone) (do
        Store.refuse L (pathFaults L.js r.id)
        let w ← Store.fetch L
        Store.refuse L (releaseFaults r held (w.disk.records.find r.id).isSome)
        Store.rewrite L r.id (withRelease rel))
        (fun _ s' => Quiet L alone s s' ∧ Released s' r.id ∧
          ¬ Held L s'.disk s'.clock r.conversationId) (fun _ => Quiet L alone s) s := by
    intro held hheld
    simp only [Prog.wp_bind, wp_refuse, wp_fetch]
    refine ⟨fun _ => ⟨fun hnone => ?_, fun _ => .refl s⟩, fun _ => .refl s⟩
    have hfree : ¬ Held L s.disk s.clock r.conversationId := by
      refine hheld ?_
      by_contra hh
      simp [releaseFaults, hh] at hnone
    refine wp_rewrite _ _ hs trivial (fun e => .refl s) fun old new s₁ hold hnew hs₁ hs₁' => ?_
    have hkept : Kept old new := by rw [Kept, hnew.eq]; rfl
    have hid : new.id = r.id := hkept.id.trans (Table.find_key hold)
    have hold₁ : s₁.disk.records.find new.id = some old := by rw [hs₁.records, hid]; exact hold
    have hw : Rewrite L alone s₁ old new := by
      refine .released rel hrel (.inl ?_) (by rw [hnew.eq]; rfl) (by rw [hnew.eq]; rfl)
        (by rw [hnew.eq]; rfl) hnew.parkReason
      rw [← hkept.id, hid]
      exact hi.congr (by rw [hs₁.ghost])
    refine ⟨.rewritten old hold₁ hkept hw, fun _ => ⟨?_, ?_, ?_⟩⟩
    · exact (quiet_seqOnly hs₁).trans (quiet_rewrite hs₁' hold₁ hkept hw (by rw [hnew.eq]; rfl))
    · refine ⟨new, ?_, by rw [hnew.eq]; rfl⟩
      rw [Act.apply, World.putRecord_disk, ← hid]
      exact Table.find_put_self _ _
    · rw [Act.apply, World.putRecord_disk, World.putRecord_clock, hs₁.clock]
      intro hh
      refine hfree ?_
      have := hh.put hkept hold₁
      rw [held_iff] at this ⊢
      rwa [hs₁.records] at this
  unfold Store.release
  split
  · rename_i happ
    rw [Prog.wp_bind]
    refine wp_recordsIn _ (fun _ => .refl s) fun records hperm => ?_
    rw [Prog.wp_bind, Prog.wp_pure]
    refine hwrite _ fun hf hh => ?_
    rw [held_iff] at hh
    obtain ⟨_, x, hx, hc, hh⟩ := hh
    have : isHeld L records s.clock = true :=
      (isHeld_iff _ _).2 ⟨x, hperm.mem_iff.2 (mem_conversation.2 ⟨hx, hc⟩), hh⟩
    rw [hf] at this
    cases this
  · rename_i happ
    rw [Prog.wp_bind, Prog.wp_pure]
    exact hwrite _ fun _ hh => happ hh.1

/-- A loop over records, each of which comes to `J` and keeps quiet about the others. -/
theorem each_wp {f : β → Program L Unit} {J : β → World → Prop}
    (hJ : ∀ b s s', Quiet L alone s s' → J b s → J b s') (l : List β)
    (hf : ∀ b ∈ l, ∀ s', Quiet L alone s s' → base L s' → s'.ghost.replying = none →
      Prog.wp (moves L alone) (f b) (fun _ s'' => Quiet L alone s' s'' ∧ J b s'')
        (fun _ => Quiet L alone s') s') :
    ∀ s', Quiet L alone s s' → base L s' → s'.ghost.replying = none →
      Prog.wp (moves L alone) (Prog.each (𝔖 := sig L) f l)
        (fun _ s'' => Quiet L alone s' s'' ∧ ∀ b ∈ l, J b s'') (fun _ => Quiet L alone s') s' := by
  induction l with
  | nil =>
    intro s' _ _ _
    exact (Prog.wp_ret _).2 ⟨.refl _, by simp⟩
  | cons b l ih =>
    intro s' hq hs' h0
    rw [Prog.each, Prog.wp_bind']
    refine Prog.wp_mono_inv _ hs' (hf b (.head l) s' hq hs' h0) (fun _ s₁ hs₁ h₁ => ?_)
      fun _ _ _ h => h
    refine Prog.wp_mono _ (ih (fun c hc => hf c (.tail b hc)) s₁ (hq.trans h₁.1) hs₁
      (by rw [h₁.1.ghost]; exact h0)) (fun _ s₂ h₂ => ⟨h₁.1.trans h₂.1, fun c hc => ?_⟩)
      fun _ _ h₂ => h₁.1.trans h₂
    rcases List.mem_cons.1 hc with rfl | hc
    · exact hJ _ _ _ h₂.1 h₁.2
    · exact h₂.2 c hc

theorem writeReleases_wp {records : List MessageRecord} {threadId R : String} (hs : base L s)
    (h0 : s.ghost.replying = none) (hi : ∀ r ∈ records, InHand s r.id) :
    Prog.wp (moves L alone) (Release.writeReleases L records threadId R)
      (fun _ s' => Quiet L alone s s' ∧ ∀ r ∈ records, Released s' r.id)
      (fun _ => Quiet L alone s) s := by
  unfold Release.writeReleases
  refine then_wp hs h0 isoNow (fun _ _ h => h) fun releasedAt s₁ h₁ hs₁ h0₁ => ?_
  refine Prog.wp_mono _ (each_wp (J := fun (r : MessageRecord) s' => Released s' r.id) (s := s)
    (fun _ _ _ hq hr => hr.grows hq.grows) records (fun one hone s₂ h₂ hs₂ h0₂ => ?_) s₁ h₁ hs₁ h0₁)
    (fun _ _ h => ⟨h₁.trans h.1, h.2⟩) fun _ _ h => h₁.trans h
  rw [Prog.wp_bind]
  refine wp_now fun t hs₃ => ?_
  have hi₃ : InHand { s₂ with clock := t } one.id := h₂.inHand (hi one hone)
  have hq₃ : Quiet L alone s₂ { s₂ with clock := t } := quiet_clock t
  have hrel : Prog.wp (moves L alone) (Store.release L one ⟨releasedAt, threadId, R, none⟩ t
      (holdApplies L.channel one.conversationId))
      (fun _ s' => Quiet L alone { s₂ with clock := t } s' ∧ Released s' one.id ∧
        ¬ Held L s'.disk s'.clock one.conversationId) (fun _ => Quiet L alone { s₂ with clock := t })
      { s₂ with clock := t } := release_wp (s := { s₂ with clock := t }) hs₃ rfl hi₃
  rw [Prog.wp_bind, Turn.discard, Prog.wp_bind']
  refine Prog.wp_mono _ hrel (fun _ s₄ h₄ => ?_) fun _ _ h => hq₃.trans h
  rw [Prog.wp_pure, wp_mark]
  refine ⟨.begun one R false (h₄.1.inHand hi₃) fun _ => h₄.2.2, fun _ => ⟨?_, ?_⟩⟩
  · exact (hq₃.trans h₄.1).trans (quiet_mark fun _ => rfl)
  · exact h₄.2.1

theorem beginReissue {records : List MessageRecord} {R : String}
    (hi : ∀ r ∈ records, InHand s₀ r.id) : Safe F s₀ (Release.beginReissue L records R) :=
  each fun r hr => mark (fun _ => rfl) fun _ _ h =>
    .begun r R true ((F.close h).inHand (hi r hr)) fun hf => by cases hf

/-! ## Closing a release -/

theorem latch (cause : Fault) : Safe F s₀ (Release.latch L cause : Program L α) :=
  fetch fun _ _ _ => cond (fun _ => bind (write (a := .latch _) fun _ _ _ _ =>
    ⟨trivial, quiet_same rfl rfl rfl rfl rfl⟩) fun _ => raise _) fun _ => raise _

theorem closeFailed {records : List MessageRecord} (completedAt : String)
    (ht : ∀ r ∈ records, Taken L s₀ r.id) (hrel : ∀ r ∈ records, Released s₀ r.id)
    (ho : ¬ Owing s₀) : Safe F s₀ (Release.closeFailed L records completedAt) := by
  refine each fun one hone => read _ fun s hr => ?_
  split
  · exact raise _
  · have hc := F.close hr
    exact bind (setPermanentError (hc.taken (ht one hone)) ((hrel one hone).grows hc.grows))
      fun _ => bind (completeRelease _ _ (.inr (hc.owing.not.2 ho))) fun _ => pure _

theorem closeCompleted (records : List MessageRecord) (accepted : Option MessageRecord)
    (completedAt : String) (parkedNoReply : Bool) (ho : ¬ Owing s₀) :
    Safe F s₀ (Release.closeCompleted L records accepted completedAt parkedNoReply) := by
  refine each fun one _ => cond (fun _ => pure _) fun _ =>
    cond (fun _ => retainExcludedBrowserInput _) fun _ =>
    bind (completeRelease _ _ (.inr ho)) fun _ =>
    cond (fun _ => read _ fun s _ => ?_) fun _ => pure _
  split
  · exact raise _
  · exact discard (phase _ _)

theorem admittedTurn_turned {records : List MessageRecord} {unitId threadId R : String}
    (hs : base L s) (h0 : s.ghost.replying = none) (hR : Releasing s R) :
    Prog.wp (moves L alone) (Release.admittedTurn L records unitId threadId R)
      (fun x s' => Quiet L alone s s' ∧ Turned s R R x.1 s') (fun _ => Quiet L alone s) s := by
  have hend : ∀ s', Safe (quiet L alone) s' (if L.declaration.records then do
      let a ← Store.ask L (.endTurn R)
      Calls.outcome L a
      else Pure.pure ()) := fun s' =>
    cond (fun _ => hear (.endTurn _) fun _ _ _ ha => outcome ha) fun _ => pure _
  have hturn : ∀ s₁, Quiet L alone s s₁ → base L s₁ → s₁.ghost.replying = none →
      Prog.wp (moves L alone) (do
        let a ← Store.ask L (.join (records.map (·.messageId)))
        Calls.outcome L a
        Prog.andFinally (𝔖 := sig L) (Turn.takeTurn L unitId threadId R R)
          (if L.declaration.records then do
            let a ← Store.ask L (.endTurn R)
            Calls.outcome L a
          else Pure.pure ())) (fun x s' => Quiet L alone s s' ∧ Turned s R R x.1 s')
        (fun _ => Quiet L alone s) s₁ := by
    intro s₁ h₁ hs₁ h0₁
    rw [Prog.wp_bind]
    refine (wp_ask _).2 fun s₂ hrely a ha hs₃ => ?_
    have h₃ : Quiet L alone s (Ask.after (.join (records.map (·.messageId))) a s₂) :=
      h₁.trans ((quiet_follows (follows hrely)).trans (quiet_after (.join (records.map (·.messageId))) a s₂))
    refine then_wp hs₃ (by rw [h₃.ghost]; exact h0) (outcome ha) (fun _ _ h => h₃.trans h)
      fun _ s₄ h₄ hs₄ h0₄ => ?_
    have h04 := h₃.trans h₄
    rw [Prog.wp_andFinally]
    refine Prog.wp_mono_inv _ hs₄ (takeTurn_turned unitId threadId R R hs₄ h0₄
      (h04.close.releasing hR)) (fun x s₅ hs₅ h₅ => ?_) fun e s₅ hs₅ h₅ => ?_
    · exact Prog.wp_mono _ (hend s₅ (by rw [h₅.1.ghost]; exact h0₄) s₅ hs₅ (.refl s₅))
        (fun _ _ h => ⟨(h04.trans h₅.1).trans h, (h₅.2.earlier h04.hist).later h.hist⟩)
        fun _ _ h => (h04.trans h₅.1).trans h
    · exact Prog.wp_mono _ (hend s₅ (by rw [h₅.ghost]; exact h0₄) s₅ hs₅ (.refl s₅))
        (fun _ _ h => (h04.trans h₅).trans h) fun _ _ h => (h04.trans h₅).trans h
  unfold Release.admittedTurn
  by_cases hrec : L.declaration.records = true
  · rw [if_pos hrec, Prog.wp_bind]
    refine (wp_ask _).2 fun s₂ hrely a ha hs₃ => ?_
    have h₃ : Quiet L alone s (Ask.after (.beginTurn R unitId (records.map (·.messageId))) a s₂) :=
      (quiet_follows (follows hrely)).trans
        (quiet_after (.beginTurn R unitId (records.map (·.messageId))) a s₂)
    exact then_wp hs₃ (by rw [h₃.ghost]; exact h0) (outcome ha) (fun _ _ h => h₃.trans h)
      fun _ s₄ h₄ => hturn s₄ (h₃.trans h₄)
  · rw [if_neg hrec]
    exact hturn s (.refl s) hs h0

theorem closeGroup_wp {record : MessageRecord} {unitId threadId R : String} {result : TurnResult}
    {completedAt : String} {records : List MessageRecord} (hs : base L s)
    (h0 : s.ghost.replying = none) (hu : Unchecked s R record.conversationId)
    (ht : ∀ r ∈ records, Taken L s r.id) (hrel : ∀ r ∈ records, Released s r.id) :
    Prog.wp (moves L alone)
      (Release.closeGroup L record records unitId threadId R result completedAt)
      (fun _ => Close L s) (fun _ => Close L s) s := by
  unfold Release.closeGroup
  have hquiet : ∀ {p : Program L Unit}, Safe (quiet L alone) s p →
      Prog.wp (moves L alone) p (fun _ => Close L s) (fun _ => Close L s) s := fun hp =>
    Prog.wp_mono _ (hp h0 s hs (.refl s)) (fun _ _ h => h.close) fun _ _ h => h.close
  split
  · exact hquiet (bind (closeFailed _ ht hrel (hu.releasing.owing hs)) fun _ => latch _)
  · exact hquiet (cond (fun _ => noteBrowserEffect _ _) fun _ => pure _)
  · refine then_wp hs h0 (ensureReply _ _ _ _ hu.releasing ht) (fun _ _ h => h.close)
      fun reply s₁ h₁ hs₁ h0₁ => ?_
    rw [Prog.wp_bind]
    refine Prog.wp_mono_inv _ hs₁ (ensureTeachCheck_wp hs₁ h0₁ (hu.quiet h₁))
      (fun _ s₂ hs₂ h₂ => ?_) fun _ _ _ h => h₁.close.trans h
    have ho₂ : ¬ Owing s₂ := (h₁.close.trans h₂).owing.not.2 (hu.releasing.owing hs)
    have hclose : ∀ accepted, Safe (close L alone) s₂
        (Release.closeCompleted L records accepted completedAt (reply = .parkedNoReply)) :=
      fun accepted => closeCompleted _ _ _ _ ho₂
    have hrest : Safe (close L alone) s₂ (if L.browser = true then do
        let accepted ← Calls.writtenBrowserReply L R
        Release.closeCompleted L records accepted completedAt (reply = .parkedNoReply)
        else do
          let accepted ← Pure.pure none
          Release.closeCompleted L records accepted completedAt (reply = .parkedNoReply)) :=
      cond (fun _ => bind (writtenBrowserReply _) hclose) fun _ => bind (pure _) hclose
    exact Prog.wp_mono _ (hrest (h₂.replying.trans h0₁) s₂ hs₂ (.refl s₂))
      (fun _ _ h => (h₁.close.trans h₂).trans h) fun _ _ h => (h₁.close.trans h₂).trans h

theorem closeTurn_wp {record : MessageRecord} {unitId threadId R : String} {result : TurnResult}
    {completedAt : String} (hs : base L s) (h0 : s.ghost.replying = none)
    (hu : Unchecked s R record.conversationId)
    (hrel : L.browser = false → ∀ r ∈ s.mem.group, Released s r.id) :
    Prog.wp (moves L alone) (Release.closeTurn L record unitId threadId R result completedAt)
      (fun _ => Close L s) (fun _ => Close L s) s := by
  unfold Release.closeTurn
  by_cases hb : L.browser = true
  · simp only [hb, if_true]
    rw [Prog.wp_bind]
    refine wp_recordsIn _ (fun _ => .refl s) fun records hperm => ?_
    rw [Prog.wp_bind, Turn.setMem, Prog.wp_bind, wp_fetch, wp_write]
    have hgroup : ∀ r ∈ records.filter (releasedUnder R), Taken L s r.id ∧ Released s r.id := by
      intro r hr
      rw [List.mem_filter, hperm.mem_iff, mem_conversation] at hr
      obtain ⟨⟨hmem, _⟩, hunder⟩ := hr
      simp only [releasedUnder, Bool.and_eq_true, beq_iff_eq, Option.any_eq_true] at hunder
      obtain ⟨hdir, rel, hrel, _⟩ := hunder
      have hfind := Table.mem_find hmem
      exact ⟨⟨r, hfind, hdir, .inr ⟨hb, by rw [hrel]; rfl⟩⟩, r, hfind, by rw [hrel]; rfl⟩
    refine ⟨⟨.inl rfl, ⟨fun r hr => (hgroup r hr).1, fun hf => absurd hf (by simp [hb])⟩,
      fun hf => absurd hf (by simp [hb])⟩, fun hs₁ => ?_⟩
    · have hc : Close L s ((Act.mem { s.mem with group := records.filter (releasedUnder R) }).apply s) :=
        ⟨.refl _, rfl, rfl, rfl, fun hf => absurd hf (by simp [hb]), List.suffix_refl _, rfl⟩
      rw [Prog.wp_bind, wp_fetch]
      refine Prog.wp_mono _ (closeGroup_wp hs₁ h0 hu (fun r hr => hc.taken (hgroup r hr).1)
        fun r hr => (hgroup r hr).2) (fun _ _ h => hc.trans h) fun _ _ h => hc.trans h
  · simp only [hb, if_false, Bool.false_eq_true]
    rw [Prog.wp_bind, wp_fetch]
    exact closeGroup_wp hs h0 hu hs.group (hrel (by simpa using hb))

/-- The turn of a release, and its close. -/
def taking (L : Loop) (record : MessageRecord) (records : List MessageRecord)
    (unitId threadId R : String) : Program L Unit := do
  let (result, completedAt) ← Release.admittedTurn L records unitId threadId R
  Release.closeTurn L record unitId threadId R result completedAt

theorem releaseTurn_wp {record : MessageRecord} {records : List MessageRecord}
    {unitId threadId R : String} {reissue : Bool} (hs : base L s) (h0 : s.ghost.replying = none)
    (hin : InRelease L record records R s)
    (hre : reissue = true → ∀ r ∈ records, Released s r.id) :
    Prog.wp (moves L alone) (Release.releaseTurn L record records unitId threadId reissue R)
      (fun _ s' => Close L s s' ∧ Logged s s' (TookTurn R)) (fun _ => Close L s) s := by
  unfold Release.releaseTurn
  refine then_wp hs h0 (ask _) (fun _ _ h => h.close) fun rendered s₁ h₁ hs₁ h0₁ => ?_
  refine then_wp hs₁ h0₁ (orThrow _) (fun _ _ h => (h₁.trans h).close) fun _ s₂ h₂ hs₂ h0₂ => ?_
  have h02 := h₁.trans h₂
  have hin₂ := hin.quiet h02
  -- The records are released, now or before the restart, when the turn is taken.
  have hrest : ∀ s₃, Quiet L alone s s₃ → base L s₃ → (∀ r ∈ records, Released s₃ r.id) →
      Prog.wp (moves L alone) (taking L record records unitId threadId R)
        (fun _ s' => Close L s s' ∧ Logged s s' (TookTurn R)) (fun _ => Close L s) s₃ := by
    intro s₃ h₃ hs₃ hrel
    unfold taking
    have h0₃ : s₃.ghost.replying = none := by rw [h₃.ghost]; exact h0
    rw [Prog.wp_bind]
    refine Prog.wp_mono_inv _ hs₃ (admittedTurn_turned hs₃ h0₃ (hin.quiet h₃).unchecked.releasing)
      (fun x s₄ hs₄ h₄ => ?_) fun _ _ _ h => (h₃.trans h).close
    have h34 := h₃.trans h₄.1
    have hin₄ := hin.quiet h34
    refine Prog.wp_mono _ (closeTurn_wp hs₄ (by rw [h34.ghost]; exact h0) hin₄.unchecked
      fun hb r hr => ?_) (fun _ s₅ h => ⟨h34.close.trans h, ?_⟩) fun _ _ h => h34.close.trans h
    · rw [hin₄.group hb] at hr
      exact (hrel r hr).grows h₄.1.grows
    · obtain ⟨new, hnew, e, he, hT⟩ := (h₄.2.earlier h₃.hist).later h.hist
      exact ⟨new, hnew, e, he, _, _, hT⟩
  cases reissue with
  | true =>
    exact then_wp hs₂ h0₂ (beginReissue hin₂.inHand) (fun _ _ h => (h02.trans h).close)
      fun _ s₃ h₃ hs₃ _ => hrest s₃ (h02.trans h₃) hs₃ fun r hr =>
        (hre rfl r hr).grows (h02.trans h₃).grows
  | false =>
    have hw : Prog.wp (moves L alone) (Release.writeReleases L records threadId R) _ _ s₂ :=
      writeReleases_wp hs₂ h0₂ hin₂.inHand
    show Prog.wp (moves L alone) (Release.writeReleases L records threadId R >>= _) _ _ s₂
    rw [Prog.wp_bind]
    exact Prog.wp_mono_inv _ hs₂ hw (fun _ s₃ hs₃ h₃ => hrest s₃ (h02.trans h₃.1) hs₃ h₃.2)
      fun _ _ _ h => (h02.trans h).close

theorem releaseOne_wp {record : MessageRecord} {records : List MessageRecord} {reissue : Bool}
    {releaseId unitId : Option String} (hs : base L s) (h0 : s.ghost.replying = none)
    (hin : InRelease L record records (releaseId.getD (releaseIdFor record)) s)
    (hre : reissue = true → ∀ r ∈ records, Released s r.id) :
    Prog.wp (moves L alone) (Release.releaseOne L record records reissue releaseId unitId)
      (fun taken s' => Close L s s' ∧ Came (releaseId.getD (releaseIdFor record)) taken s s')
      (fun _ => Close L s) s := by
  have hrest : ∀ unitId s₁, Quiet L alone s s₁ → base L s₁ → s₁.ghost.replying = none →
      Prog.wp (moves L alone) (do
        let threadId ← Release.threadFor L unitId
        let w ← Store.fetch L
        if w.mem.holdFaults ≠ [] then Release.holds L
        else do
          let proxyFaults ← Release.checkProviderProxy L
          if proxyFaults ≠ [] then Release.holds L
          else do
            let synced ← Release.syncCollectedOrHold L records
            if !synced then Release.holds L
            else do
              Release.releaseTurn L record records unitId threadId reissue
                (releaseId.getD (releaseIdFor record))
              Pure.pure true)
        (fun taken s' => Close L s s' ∧ Came (releaseId.getD (releaseIdFor record)) taken s s')
        (fun _ => Close L s) s₁ := by
    intro unitId s₁ h₁ hs₁ h0₁
    have hold : ∀ s', Quiet L alone s s' → Prog.wp (moves L alone) (Release.holds L)
        (fun taken s' => Close L s s' ∧ Came (releaseId.getD (releaseIdFor record)) taken s s')
        (fun _ => Close L s) s' := by
      intro s' h
      unfold Release.holds
      rw [Prog.wp_bind, wp_mark]
      exact ⟨.holds, fun _ => (Prog.wp_pure _).2 ⟨(h.trans (quiet_mark fun _ => rfl)).close,
        Logged.earlier (Logged.mark rfl) h.hist⟩⟩
    refine then_wp hs₁ h0₁ (threadFor _) (fun _ _ h => (h₁.trans h).close)
      fun threadId s₂ h₂ hs₂ h0₂ => ?_
    rw [Prog.wp_bind, wp_fetch]
    split
    · exact hold s₂ (h₁.trans h₂)
    refine then_wp hs₂ h0₂ checkProviderProxy (fun _ _ h => ((h₁.trans h₂).trans h).close)
      fun proxyFaults s₃ h₃ hs₃ h0₃ => ?_
    split
    · exact hold s₃ ((h₁.trans h₂).trans h₃)
    refine then_wp hs₃ h0₃ (syncCollectedOrHold _)
      (fun _ _ h => (((h₁.trans h₂).trans h₃).trans h).close) fun synced s₄ h₄ hs₄ h0₄ => ?_
    have h04 := ((h₁.trans h₂).trans h₃).trans h₄
    split
    · exact hold s₄ h04
    simp only [Prog.wp_bind, Prog.wp_pure]
    exact Prog.wp_mono _ (releaseTurn_wp hs₄ h0₄ (hin.quiet h04) fun hb r hr =>
      (hre hb r hr).grows h04.grows) (fun _ _ h => ⟨h04.close.trans h.1, h.2.earlier h04.hist⟩)
      fun _ _ h => h04.close.trans h
  unfold Release.releaseOne
  split
  · rw [Prog.wp_bind, Prog.wp_pure]
    exact hrest _ s (.refl s) hs h0
  · exact then_wp hs h0 (orThrow _) (fun _ _ h => h.close) fun unitId s₁ h₁ => hrest unitId s₁ h₁

theorem parkGroup (faults : List Fault) (ho : ¬ Owing s₀) :
    Safe F s₀ (Release.parkGroup L faults) := by
  unfold Release.parkGroup
  refine fetch fun s hr hs => each fun one hone => bind (parkRead (hs.group one hone)) fun _ =>
    read _ fun s₁ h₁ => cond (fun _ => bind isoNow fun _ => discard (completeRelease _ _ (.inr ?_)))
      fun _ => pure _
  rwa [(F.close h₁).owing, (F.close hr).owing]

end Safe

end CarbonRuntime.Moves
