import CarbonRuntime.Runtime.Safe
import CarbonRuntime.Runtime.Turn

/-!
# The calls and the turn keep to the moves

The reply tool, the teaching tools, what reaches the process while it waits,
and the turn: each is `Safe` in every frame. The reply tool never awaits between
reading the store and writing to it, so what it read is still so when it
writes (`Reply`); everything else here composes by the rules of `Safe`.
-/

open CarbonRuntime.Core CarbonRuntime.Stream

namespace CarbonRuntime.Moves

namespace Safe

open Store Policy Teachings Tools Calls Turn

variable {L : Loop} {alone : Prop} {s₀ s s' : World} {F : Frame L alone} {α β : Type}
  {Q : α → World → Prop} {X : Err → World → Prop}

/-! ## Reads that nothing comes between -/

theorem ofQuiet {p : Program L α} (h : ∀ s, base L s → s.ghost.replying = none →
    Prog.wp (moves L alone) p (fun _ => Quiet L alone s) (fun _ => Quiet L alone s) s) :
    Safe F s₀ p := fun h0 s hs hr =>
  Prog.wp_mono p (h s hs ((F.close hr).replying.trans h0))
    (fun _ _ hq => F.trans hr (F.quiet hq)) fun _ _ hq => F.trans hr (F.quiet hq)

theorem wp_sync {q : Ask} (hq : q.awaits = false) {Q : q.Answer → World → Prop}
    (h : ∀ a, q.fits L.browser a s → base L (q.after a s) → Q a (q.after a s)) :
    Prog.wp (moves L alone) (Store.ask L q) Q X s := by
  rw [wp_ask]
  intro s₁ h₁ a ha hi
  have e : s₁ = s := by
    unfold moves at h₁
    dsimp only at h₁
    rwa [if_neg (by simp [hq])] at h₁
  subst e
  exact h a ha hi

theorem wp_recordsIn (conversationId : String) {Q : List MessageRecord → World → Prop}
    (hX : ∀ e, X e s) (h : ∀ records, records.Perm (conversation s.disk conversationId) →
      Q records s) : Prog.wp (moves L alone) (Store.recordsIn L conversationId) Q X s := by
  simp only [Store.recordsIn, Prog.wp_bind, wp_refuse, Prog.wp_pure]
  exact ⟨fun _ => wp_sync rfl fun a ha _ => h _ (List.Perm.filter _ ha), fun _ => hX _⟩

theorem wp_isoNow {Q : String → World → Prop}
    (h : ∀ t at_, base L { s with clock := t } → Q at_ { s with clock := t }) :
    Prog.wp (moves L alone) (Store.isoNow L) Q X s := by
  simp only [Store.isoNow, Store.now, Prog.wp_bind, Prog.wp_pure]
  exact wp_sync rfl fun t _ hi => h t _ hi

theorem wp_readRequest (requestId : String) {Q : Option ReplyRequest → World → Prop}
    (hX : ∀ e, X e s) (h : Q (s.disk.requests.find requestId) s) :
    Prog.wp (moves L alone) (Store.readRequest L requestId) Q X s := by
  simp only [Store.readRequest, Prog.wp_bind, wp_refuse, wp_fetch, Prog.wp_pure]
  exact ⟨fun _ => h, fun _ => hX _⟩

theorem mem_conversation {d : Disk} {conversationId : String} {r : MessageRecord} :
    r ∈ conversation d conversationId ↔
      r ∈ d.records.rows ∧ r.conversationId = conversationId := by
  simp [conversation]

/-! ## Store.reply -/

theorem reply_wp {r : MessageRecord} {d : Delivery} {status : Status} (hd : r.delivery = some d)
    (hx : Reply L r d status s) (h0 : s.ghost.replying = none) :
    Prog.wp (moves L alone) (Store.reply L r status) (fun _ => Quiet L alone s)
      (fun _ => Quiet L alone s) s := by
  unfold Store.reply
  rw [Prog.wp_bind]
  refine wp_recordsIn _ (fun _ => .refl s) fun records _ => ?_
  rw [Prog.wp_bind, wp_refuse]
  refine ⟨fun hok => ?_, fun _ => .refl s⟩
  have hdir := outbound_of_replyFaults (List.append_eq_nil_iff.1 hok).2
  rw [hd]
  dsimp only
  rw [Prog.wp_bind]
  refine wp_readRequest _ (fun _ => .refl s) ?_
  have hwrite : (∀ q, s.disk.requests.find d.requestId = some q → q.status = .failed) →
      Prog.wp (moves L alone) (do
        let written ← Store.replyWrite L r d status
        Pure.pure (ReplyOutcome.written written)) (fun _ => Quiet L alone s)
        (fun _ => Quiet L alone s) s := by
    intro hf
    simp only [Prog.wp_bind, Prog.wp_pure]
    exact replyWrite_wp hx hdir hf h0
  split
  · rename_i q hq
    split
    · exact (Prog.wp_pure _).2 (.refl s)
    · exact (wp_raise _).2 (.refl s)
    · exact (wp_raise _).2 (.refl s)
    · exact (wp_raise _).2 (.refl s)
    · rename_i hfailed
      exact hwrite fun q' hq' => by
        rw [hq] at hq'
        cases hq'
        exact hfailed
  · rename_i hnone
    exact hwrite fun q' hq' => by
      rw [hnone] at hq'
      cases hq'

/-! ## The reply tool -/

theorem le_foldl_max (l : List Nat) : ∀ a, a ≤ l.foldl max a ∧ ∀ n ∈ l, n ≤ l.foldl max a := by
  induction l with
  | nil => intro a; simp
  | cons b l ih =>
    intro a
    obtain ⟨h₁, h₂⟩ := ih (max a b)
    rw [List.foldl_cons]
    refine ⟨by omega, fun n hn => ?_⟩
    rcases List.mem_cons.1 hn with rfl | hn
    · omega
    · exact h₂ n hn

/-- The revision a browser reply takes is one no record of its message has. -/
theorem nextRevision_fresh {records : List MessageRecord} {conversationId messageId : String}
    (h : records.Perm (conversation s.disk conversationId)) :
    s.disk.records.find ⟨conversationId, messageId, nextRevision records messageId⟩ = none := by
  by_contra hne
  obtain ⟨x, hx⟩ := Option.ne_none_iff_exists'.1 hne
  have hid := Table.find_key hx
  have hc : x.conversationId = conversationId := congrArg Identity.conversationId hid
  have hm : x.messageId = messageId := congrArg Identity.messageId hid
  have hr : x.revision = nextRevision records messageId := congrArg Identity.revision hid
  have hmem : x ∈ records.filter (·.messageId = messageId) := by
    rw [List.mem_filter]
    exact ⟨h.mem_iff.2 (mem_conversation.2 ⟨Table.find_mem hx, hc⟩), by simpa using hm⟩
  unfold nextRevision at hr
  split at hr
  · rename_i hnil
    rw [hnil] at hmem
    cases hmem
  · have := (le_foldl_max ((records.filter (·.messageId = messageId)).map (·.revision)) 0).2
      x.revision (List.mem_map_of_mem hmem)
    omega

/-- What `outboundRecord` builds. -/
structure Built (L : Loop) (args : ReplyArgs) (r : MessageRecord) (s : World) : Prop where
  direction : r.direction = .outbound
  release : r.release = none
  disposition : r.disposition = .captured
  delivery : ∃ d, r.delivery = some d ∧ d.requestId = args.requestId
  conversationId : r.conversationId = args.conversationId
  messageId : r.messageId = replyMessageId args.conversationId args.requestId
  revision : Unmixed L s → L.browser = false → r.revision = 0
  fresh : Unmixed L s → L.browser = true → s.disk.records.find r.id = none

theorem byReceived_perm (records : List MessageRecord) :
    (byReceived L records).Perm records := sortBy_perm _ _

/-- The record of a reply, with its attachments. -/
def attaching (L : Loop) (args : ReplyArgs) (r : MessageRecord) : Program L MessageRecord :=
  match args.attachments with
  | .error faults => Store.raise L (.stream faults)
  | .ok attachments => Pure.pure { r with attachments }

theorem outboundRecord_wp (args : ReplyArgs) (at_ : String)
    {Q : MessageRecord → World → Prop} (hX : ∀ e, X e s) (h : ∀ r, Built L args r s → Q r s) :
    Prog.wp (moves L alone) (outboundRecord L args at_) Q X s := by
  unfold outboundRecord
  rw [Prog.wp_bind]
  refine wp_recordsIn _ hX fun records hperm => ?_
  dsimp only
  split
  · exact (wp_raise _).2 (hX _)
  · rename_i newest hnewest
    have hn : newest ∈ s.disk.records.rows ∧ newest.direction = .inbound := by
      have hmem := (byReceived_perm _).mem_iff.1 (List.mem_of_getLast? hnewest)
      rw [List.mem_filter, hperm.mem_iff, mem_conversation] at hmem
      exact ⟨hmem.1.1, by simpa using hmem.2⟩
    rw [Prog.wp_bind]
    refine wp_recordsIn _ hX fun held _ => ?_
    have hlast : ∀ r, Built L args r s → Prog.wp (moves L alone) (attaching L args r) Q X s := by
      intro r hr
      unfold attaching
      split
      · exact (wp_raise _).2 (hX _)
      · exact (Prog.wp_pure _).2 (h _ ⟨hr.direction, hr.release, hr.disposition, hr.delivery,
          hr.conversationId, hr.messageId, hr.revision, hr.fresh⟩)
    split
    · rename_i hsrc
      rw [Prog.wp_bind]
      refine wp_recordsIn _ hX fun previous hprev => ?_
      rw [Prog.wp_bind, Prog.wp_pure]
      refine hlast _ ?_
      refine ⟨rfl, rfl, rfl, ⟨_, rfl, rfl⟩, rfl, rfl, fun hu hb => ?_, fun _ _ => ?_⟩
      · have := (hu newest hn.1 hn.2).1 hsrc
        simp [hb] at this
      · exact nextRevision_fresh hprev
    · rename_i hsrc
      rw [Prog.wp_bind, Prog.wp_pure]
      refine hlast _ ?_
      refine ⟨rfl, rfl, rfl, ⟨_, rfl, rfl⟩, rfl, rfl, fun _ _ => rfl, fun hu hb => ?_⟩
      exact absurd ((hu newest hn.1 hn.2).2 hb) hsrc

/-- A reply its validator refuses is kept and not sent; one it does not refuse
leaves everything as it was. -/
theorem validateBrowserReplyRecord_wp {args : ReplyArgs} {r : MessageRecord}
    (hb : Built L args r s) (hbrowser : Unmixed L s → L.browser = true)
    (h0 : s.ghost.replying = none) (hs : base L s) :
    Prog.wp (moves L alone) (validateBrowserReplyRecord L r args) (fun _ s' => s' = s)
      (fun _ => Quiet L alone s) s := by
  unfold validateBrowserReplyRecord
  rw [Prog.wp_bind]
  refine wp_recordsIn _ (fun _ => .refl s) fun records _ => ?_
  split
  · exact (wp_raise _).2 (.refl s)
  · split
    · exact (Prog.wp_pure _).2 rfl
    · obtain ⟨d, hd, hreq⟩ := hb.delivery
      rw [Prog.wp_bind]
      refine Prog.wp_mono _ (capture (F := quiet L alone) ?_ (fun s' hr hnone => ?_) h0 s hs (.refl s))
        (fun _ s' hq => (wp_raise _).2 hq) fun _ _ hq => hq
      · simp [MessageRecord.status, hd]
        rfl
      · refine .refused { d with status := .failed } hnone hb.direction hb.release rfl
          (by rw [hd]; rfl) rfl ?_ fun hu => hbrowser (unmixed_of_grows hr.grows hu)
        rw [show replyMessageId _ _ = replyMessageId args.conversationId args.requestId by
          rw [← hreq, ← hb.conversationId]]
        exact hb.messageId

theorem reply_built {args : ReplyArgs} {claim : Option Claim} {r : MessageRecord}
    (hb : Built L args r s) (h0 : s.ghost.replying = none) :
    Prog.wp (moves L alone) (Store.reply L (withClaim claim r) (replyStatus L args.conversationId))
      (fun _ => Quiet L alone s) (fun _ => Quiet L alone s) s := by
  obtain ⟨d, hd, hreq⟩ := hb.delivery
  have hmsg : r.messageId = replyMessageId r.conversationId d.requestId := by
    rw [hb.messageId, hreq, hb.conversationId]
  cases claim with
  | none =>
    refine reply_wp hd ⟨hb.release, hb.disposition, ?_, hmsg, hb.revision, hb.fresh⟩ h0
    rw [show (withClaim none r).conversationId = r.conversationId from rfl, hb.conversationId]
  | some c =>
    refine reply_wp (d := { d with actionClaim := some c }) ?_ ⟨hb.release, hb.disposition, ?_,
      hmsg, hb.revision, hb.fresh⟩ h0
    · simp [withClaim, hd]
    · rw [show (withClaim (some c) r).conversationId = r.conversationId from rfl, hb.conversationId]

theorem Built.clock {args : ReplyArgs} {r : MessageRecord} {t : Int}
    (hb : Built L args r { s with clock := t }) : Built L args r s :=
  ⟨hb.direction, hb.release, hb.disposition, hb.delivery, hb.conversationId, hb.messageId,
    hb.revision, hb.fresh⟩

theorem replyWriter (args : ReplyArgs) (claim : Option Claim) :
    Safe F s₀ (Tools.replyWriter L args claim) := by
  refine ofQuiet fun s hs h0 => ?_
  unfold Tools.replyWriter
  rw [Prog.wp_bind]
  refine wp_isoNow fun t at_ hs₁ => ?_
  have hq : Quiet L alone s { s with clock := t } := quiet_same rfl rfl rfl rfl rfl
  have back : ∀ s', Quiet L alone { s with clock := t } s' → Quiet L alone s s' :=
    fun s' h => hq.trans h
  rw [Prog.wp_bind]
  refine wp_recordsIn _ (fun _ => hq) fun records hperm => ?_
  dsimp only
  rw [Prog.wp_bind, wp_fetch]
  split
  · exact (wp_raise _).2 hq
  · rw [Prog.wp_bind]
    refine outboundRecord_wp args at_ (fun _ => hq) fun r hb => ?_
    rw [Prog.wp_bind]
    refine wp_readRequest _ (fun _ => hq) ?_
    have hreply : Prog.wp (moves L alone)
        (Store.reply L (withClaim claim r) (replyStatus L args.conversationId))
        (fun _ => Quiet L alone { s with clock := t }) (fun _ => Quiet L alone { s with clock := t })
        { s with clock := t } := reply_built hb h0
    split
    · rename_i hbr
      rw [Prog.wp_bind]
      have hbrowser : Unmixed L { s with clock := t } → L.browser = true := by
        intro hu
        rw [Bool.and_eq_true, Option.any_eq_true] at hbr
        obtain ⟨⟨x, hx, hsrc⟩, _⟩ := hbr
        have hmem := hperm.mem_iff.1 (List.mem_of_find?_eq_some hx)
        rw [mem_conversation] at hmem
        exact (hu x hmem.1 (by simpa using List.find?_some hx)).1 (by simpa using hsrc)
      refine Prog.wp_mono _ (validateBrowserReplyRecord_wp hb hbrowser h0 hs₁) (fun _ s' e => ?_)
        fun _ s' h => back s' h
      subst e
      exact Prog.wp_mono _ hreply (fun _ s' h => back s' h) fun _ s' h => back s' h
    · exact Prog.wp_mono _ hreply (fun _ s' h => back s' h) fun _ s' h => back s' h

theorem recordsReplyHandler (args : ReplyArgs) (claim : Except Err (Option Claim)) :
    Safe F s₀ (Tools.recordsReplyHandler L args claim) := by
  unfold Tools.recordsReplyHandler
  refine recordsIn _ fun s records _ _ => ?_
  split
  · exact raise _
  · split
    · exact raise _
    · refine readRequest _ fun s' _ => ?_
      split
      · exact replyWriter _ _
      · split
        · exact raise _
        · split
          · exact raise _
          · split
            · exact raise _
            · exact replyWriter _ _

theorem replyTool (args : ReplyArgs) (claim : Except Err (Option Claim)) :
    Safe F s₀ (Tools.replyTool L args claim) := by
  unfold Tools.replyTool
  split
  · exact recordsReplyHandler _ _
  · exact replyWriter _ _

/-! ## The teaching tools -/

theorem citedCapture (conversationId sourceMessageId : String)
    {f : List Fault × Option MessageRecord → Program L α}
    (h : ∀ s c, F.rel s₀ s → Safe F s (f c)) :
    Safe F s₀ (Teachings.citedCapture L conversationId sourceMessageId >>= f) := by
  refine bind ?_ fun c => mono fun s hr _ => h s c hr
  unfold Teachings.citedCapture
  dsimp only
  split
  · exact pure _
  · refine recordsIn _ fun s records _ _ => ?_
    split <;> exact pure _

theorem enact (decided : Except Err Outcome) : Safe F s₀ (Teachings.enact L decided) := by
  unfold Teachings.enact
  split
  · exact raise _
  · split
    · exact (write (a := .teaching _) fun _ _ _ _ =>
        ⟨trivial, quiet_same rfl rfl rfl rfl rfl⟩).bind fun _ => pure _
    · exact pure _

theorem inManagement (conversationId : String) {p : Program L α} (hp : Safe F s₀ p) :
    Safe F s₀ (Tools.inManagement L conversationId p) := by
  unfold Tools.inManagement
  split
  · exact handle hp fun _ => raise _
  · exact raise _

theorem rememberHandler (block : TeachingBlock) (args : TeachArgs) :
    Safe F s₀ (Tools.rememberHandler L block args) :=
  inManagement _ (now.bind fun _ => fetch fun _ _ _ => citedCapture _ _ fun _ _ _ =>
    fetch fun _ _ _ => enact _)

theorem raiseChangeHandler (block : TeachingBlock) (args : TeachArgs) :
    Safe F s₀ (Tools.raiseChangeHandler L block args) :=
  inManagement _ (now.bind fun _ => fetch fun _ _ _ => citedCapture _ _ fun _ _ _ =>
    fetch fun _ _ _ => enact _)

theorem forgetHandler (args : ForgetArgs) : Safe F s₀ (Tools.forgetHandler L args) :=
  inManagement _ (now.bind fun _ => citedCapture _ _ fun _ _ _ => fetch fun _ _ _ => enact _)

/-! ## Notes on a browser release -/

theorem effectNoted_parkReason (uncertain : Bool) (f : AdapterFields) :
    (effectNoted uncertain f).parkReason = f.parkReason := rfl

theorem noteBrowserEffect (releaseId : String) (uncertain : Bool) :
    Safe F s₀ (Calls.noteBrowserEffect L releaseId uncertain) := by
  unfold Calls.noteBrowserEffect
  refine rebuild fun s records _ _ => each fun r _ => ?_
  split
  · exact (annotate _ (effectNoted_parkReason _)).bind fun _ => pure _
  · exact pure _

theorem writtenBrowserReply (releaseId : String) :
    Safe F s₀ (Calls.writtenBrowserReply L releaseId) := by
  unfold Calls.writtenBrowserReply
  refine readRequest _ fun s _ => ?_
  split
  · exact (refuse _).bind fun _ => fetch fun _ _ _ => pure _
  · exact pure _

theorem annotated (i : Identity) {fields : AdapterFields → AdapterFields}
    (h : ∀ f, (fields f).parkReason = f.parkReason) {p : Program L α} (hp : Safe F s₀ p) :
    Safe F s₀ (Store.annotate L i fields >>= fun _ => p) := (annotate i h).bind fun _ => hp

theorem retainExcludedBrowserInput (r : MessageRecord) :
    Safe F s₀ (Calls.retainExcludedBrowserInput L r) :=
  annotated r.id (fun f => (rfl : (madeUncertain f).parkReason = f.parkReason)) (pure ())

/-! ## Steering -/

theorem writeMem {m : Mem} {p : Program L α} (h0 : s₀.ghost.replying = none) (hs : base L s)
    (hr : F.rel s₀ s) (hm : MemKept L s.mem m) (hp : Safe F s₀ p) :
    Prog.wp (moves L alone) (Store.write L (.mem m) >>= fun _ => p) (fun _ => F.rel s₀)
      (fun _ => F.rel s₀) s := by
  rw [Prog.wp_bind, wp_write]
  exact ⟨memMove hs hm, fun hi => hp h0 _ hi (F.trans hr (F.quiet (quiet_mem hm)))⟩

theorem phase (i : Identity) (p : DeliveryPhase) :
    Safe F s₀ (Store.annotate L i (phased p)) := annotate i fun _ => rfl

theorem steer (how : Steering) : Safe F s₀ (Calls.steer L how) := by
  intro h0 s hs hr
  unfold Calls.steer
  rw [Prog.wp_bind, wp_fetch]
  split
  · rename_i active _ _
    split
    · exact (Prog.wp_pure _).2 hr
    · split
      · exact (Prog.wp_pure _).2 hr
      · refine writeMem h0 hs hr ⟨rfl, rfl, fun _ h => h⟩ (read _ fun s₁ hr₁ => ?_)
        split
        · exact raise _
        · rename_i record _
          split
          · exact pure _
          · split
            · exact (phase _ _).bind fun _ => pure _
            · exact (phase _ _).bind fun _ => pure _
            · refine (phase _ _).bind fun _ => (writtenBrowserReply _).bind fun reply => ?_
              split
              · exact (phase _ _).bind fun _ => pure _
              · intro h0' s₂ hs₂ hr₂
                rw [Prog.wp_bind, wp_fetch, wp_write]
                have hm : MemKept L s₂.mem { s₂.mem with steering := some record } :=
                  ⟨rfl, rfl, fun _ h => h⟩
                exact ⟨memMove hs₂ hm, fun _ => F.trans hr₂ (F.quiet (quiet_mem hm))⟩
  · exact (Prog.wp_pure _).2 hr

/-- Store.release of a record the loop may release: a browser's, or one of the
group in hand. -/
theorem release {r : MessageRecord} {rel : Release} {at_ : Int} {holdApplies : Bool}
    (hrel : rel.completedAt = none) (h : InHand s₀ r.id ∨ L.browser = true) :
    Safe F s₀ (Store.release L r rel at_ holdApplies) := by
  have hwrite : ∀ s held, F.rel s₀ s → Safe F s (do
      Store.refuse L (pathFaults L.js r.id)
      let w ← Store.fetch L
      Store.refuse L (releaseFaults r held (w.disk.records.find r.id).isSome)
      Store.rewrite L r.id (withRelease rel)) := by
    intro s held hr
    refine (refuse _).bind fun _ => fetch fun s₁ hr₁ hs => (refuse _).bind fun _ => ?_
    refine rewrite (fun _ => rfl) (fun _ => rfl) fun s' old new hr' hold hnew => ?_
    refine .released rel hrel ?_ (by rw [hnew.eq]; rfl) (by rw [hnew.eq]; rfl)
      (by rw [hnew.eq]; rfl) hnew.parkReason
    rw [Table.find_key hold]
    exact h.imp_left fun hi => (F.close (F.trans (F.trans hr hr₁) hr')).inHand hi
  unfold Store.release
  split
  · exact recordsIn _ fun s records hr _ => (pure _).bind fun held => hwrite s held hr
  · exact (pure _).bind fun held => hwrite s₀ held (F.refl s₀)

theorem releaseSteered (active : BrowserActive) (i : Identity) (hb : L.browser = true) :
    Safe F s₀ (Calls.releaseSteered L active i) := by
  unfold Calls.releaseSteered
  refine isoNow.bind fun at_ => now.bind fun t => read _ fun s _ => ?_
  split
  · exact raise _
  · exact (release rfl (.inr hb)).bind fun _ => pure _

theorem steerFailed (active : BrowserActive) (r : MessageRecord) (notDelivered : Bool)
    (hb : L.browser = true) : Safe F s₀ (Calls.steerFailed L active r notDelivered) := by
  unfold Calls.steerFailed
  split
  · exact (phase _ _).bind fun _ => pure _
  · exact (releaseSteered active _ hb).bind fun _ => retainExcludedBrowserInput r

theorem steered (acknowledged notDelivered : Bool) :
    Safe F s₀ (Calls.steered L acknowledged notDelivered) := by
  intro h0 s hs hr
  unfold Calls.steered
  rw [Prog.wp_bind, wp_fetch]
  split
  · rename_i active record hactive _
    have hb : L.browser = true := by
      by_contra hb
      rw [hs.browserActive (by simpa using hb)] at hactive
      cases hactive
    refine writeMem h0 hs hr ⟨rfl, rfl, fun _ h => h⟩ ?_
    split
    · refine handle ?_ fun _ => steerFailed active record notDelivered hb
      unfold Calls.steerAcknowledged
      refine (releaseSteered active _ hb).bind fun _ => (phase _ _).bind fun _ =>
        (writtenBrowserReply _).bind fun reply => ?_
      split
      · exact retainExcludedBrowserInput record
      · exact noteBrowserEffect _ _
    · exact steerFailed active record notDelivered hb
  · exact (Prog.wp_pure _).2 hr

theorem started (turnId : String) : Safe F s₀ (Calls.started L turnId) := by
  unfold Calls.started
  refine fetch fun s _ hs => ?_
  split
  · exact pure _
  · rename_i active hactive
    refine (noteBrowserEffect _ _).bind fun _ => ?_
    intro h0 s₁ hs₁ hr₁
    rw [Prog.wp_bind, wp_fetch]
    refine writeMem h0 hs₁ hr₁ ⟨rfl, rfl, fun hb _ => ?_⟩ ?_
    · rw [hs.browserActive hb] at hactive
      cases hactive
    · exact recordsIn _ fun _ _ _ _ => each fun r _ => acceptBrowserInput r

/-! ## Calls -/

theorem runCall {c : Call} (h : c.fits L.browser) : Safe F s₀ (Calls.runCall L c) := by
  cases c with
  | reply args claim => exact (replyTool args claim).bind fun _ => pure _
  | remember args =>
    simp only [Calls.runCall]
    split
    · exact pure _
    · exact (rememberHandler _ args).bind fun _ => pure _
  | raiseChange args =>
    simp only [Calls.runCall]
    split
    · exact pure _
    · exact (raiseChangeHandler _ args).bind fun _ => pure _
  | forget args =>
    simp only [Calls.runCall]
    split
    · exact pure _
    · exact (forgetHandler args).bind fun _ => pure _
  | submit c => exact (captureCandidate h).bind fun _ => pure _
  | toolStatusChanged =>
    show Safe F s₀ (Turn.setMem L fun m => { m with toolStatusStale := true })
    exact setMem fun m => ⟨rfl, rfl, fun _ h => h⟩
  | started turnId => exact started turnId
  | steer how => exact steer how
  | steered acknowledged notDelivered => exact steered acknowledged notDelivered

theorem runCalls {calls : List Call} (h : ∀ c ∈ calls, c.fits L.browser) :
    Safe F s₀ (Calls.runCalls L calls) :=
  each fun c hc => handle (runCall (h c hc)) fun _ => pure _

theorem outcome {a : Awaited α} (h : a.fits L.browser) : Safe F s₀ (Calls.outcome L a) := by
  unfold Calls.outcome
  refine (runCalls h).bind fun _ => ?_
  split
  · exact pure _
  · exact raise _

theorem orThrow (x : Except Err α) : Safe F s₀ (Calls.orThrow L x) := by
  unfold Calls.orThrow
  split
  · exact pure _
  · exact raise _

/-! ## Taking a turn -/

end Safe

/-- The release in hand is the one of this id. -/
def Releasing (s : World) (R : String) : Prop := ∃ h, s.ghost.handed = some h ∧ h.releaseId = R

theorem Close.handed_some {L : Loop} {s s' : World} {h : Handed} (hc : Close L s s')
    (hh : s.ghost.handed = some h) :
    ∃ h', s'.ghost.handed = some h' ∧ Handed.opened h' = Handed.opened h := by
  have e := hc.handed
  rw [hh, Option.map_some, Option.map_eq_some_iff] at e
  exact e

theorem Close.releasing {L : Loop} {s s' : World} {R : String} (hc : Close L s s')
    (h : Releasing s R) : Releasing s' R := by
  obtain ⟨h, hh, rfl⟩ := h
  obtain ⟨h', hh', he⟩ := hc.handed_some hh
  have hid := congrArg Handed.releaseId he
  exact ⟨h', hh', hid⟩

/-- With a release in hand nothing is owed. -/
theorem Releasing.owing {L : Loop} {s : World} {R : String} (h : Releasing s R) (hs : base L s) :
    ¬ Owing s := by
  obtain ⟨h, hh, _⟩ := h
  intro ho
  rw [hs.owing ho] at hh
  cases hh

namespace Safe

open Store Policy Teachings Tools Calls Turn

variable {L : Loop} {alone : Prop} {s₀ s s' : World} {F : Frame L alone} {α β : Type}
  {Q : α → World → Prop} {X : Err → World → Prop}

theorem markReleasing {e : Event} {R : String} (hR : Releasing s₀ R)
    (hg : ∀ g : Ghost, g.mark e = g)
    (h : ∀ s h, s.ghost.handed = some h → h.releaseId = R → MarkMove L alone s e) :
    Safe F s₀ (Store.mark L e) :=
  mark hg fun s _ hr => by
    obtain ⟨h', hh, hR'⟩ := (F.close hr).releasing hR
    exact h s h' hh hR'

theorem openBrowserTurn (unitId threadId releaseId : String) (hb : L.browser = true) :
    Safe F s₀ (Turn.openBrowserTurn L unitId threadId releaseId) := by
  unfold Turn.openBrowserTurn
  refine bind (setMem fun m => ⟨rfl, rfl, fun h => by simp [hb] at h⟩) fun _ =>
    recordsIn _ fun s records _ _ => handle ?_ fun e => ?_
  · exact hear (.prepare releaseId) fun _ _ _ ha => outcome ha
  · refine bind (setMem fun m => ⟨rfl, rfl, fun _ _ => rfl⟩) fun _ =>
      bind (each fun r _ => ?_) fun _ => raise _
    exact bind (annotate _ fun _ => rfl) fun _ => bind isoNow fun _ =>
      bind (completeRelease _ _ (.inl hb)) fun _ => pure _

theorem endBrowserTurn : Safe F s₀ (Turn.endBrowserTurn L) := by
  unfold Turn.endBrowserTurn
  refine bind (setMem fun m => ⟨rfl, rfl, fun _ h => ?_⟩) fun _ =>
    hear .settle fun _ _ _ ha => outcome ha
  rw [h]
  rfl

theorem turnOf (R clientUserMessageId : String) (hR : Releasing s₀ R) :
    Safe F s₀ (Turn.turnOf L R clientUserMessageId) := by
  unfold Turn.turnOf
  refine bind (ask _) fun gate => bind (orThrow _) fun _ =>
    bind (markReleasing hR (fun _ => rfl) fun s h hh hR' => hR' ▸ .turn h _ hh) fun _ =>
    hear (.turn R clientUserMessageId) fun s a hr ha => bind (outcome ha) fun result => ?_
  have hR' := (F.close (F.trans hr (F.quiet (quiet_after (.turn R clientUserMessageId) a s)))).releasing hR
  exact bind (markReleasing hR' (fun _ => rfl) fun s h hh hR'' => hR'' ▸ .turned h _ _ _ hh)
    fun _ => pure _

theorem guardedTurn (R clientUserMessageId : String) (hR : Releasing s₀ R) :
    Safe F s₀ (Turn.guardedTurn L R clientUserMessageId) :=
  handle
    (bind (turnOf _ _ hR) fun _ => cond (fun _ => bind endBrowserTurn fun _ => pure _) fun _ => pure _)
    fun _ => cond (fun _ => bind endBrowserTurn fun _ =>
      bind (noteBrowserEffect _ _) fun _ => raise _) fun _ => raise _

theorem afterTurn : Safe F s₀ (Turn.afterTurn L) := by
  have hclose : Safe F s₀ (if L.browser = true then
      Turn.setMem L fun m => { m with activeBrowserReply := none, browserActive := none }
      else Pure.pure ()) :=
    cond (fun _ => setMem fun m => ⟨rfl, rfl, fun _ _ => rfl⟩) fun _ => pure _
  exact cond (fun _ => bind (setMem fun m => ⟨rfl, rfl, fun _ h => h⟩) fun _ => hclose)
    fun _ => hclose

theorem turnUnder (unitId R clientUserMessageId : String) (hR : Releasing s₀ R) :
    Safe F s₀ (Turn.turnUnder L unitId R clientUserMessageId) := by
  have hturn : Safe F s₀ (Prog.andFinally (𝔖 := sig L) (Turn.guardedTurn L R clientUserMessageId)
      (Turn.afterTurn L)) := andFinally (guardedTurn _ _ hR) afterTurn
  have hopen : Safe F s₀ (if L.browser = true then do
      Turn.setMem L fun m => { m with activeBrowserReply := some (unitId, R) }
      Calls.noteBrowserEffect L R false
      Prog.andFinally (𝔖 := sig L) (Turn.guardedTurn L R clientUserMessageId) (Turn.afterTurn L)
      else Prog.andFinally (𝔖 := sig L) (Turn.guardedTurn L R clientUserMessageId)
        (Turn.afterTurn L)) :=
    cond (fun _ => bind (setMem fun m => ⟨rfl, rfl, fun _ h => h⟩) fun _ =>
      bind (noteBrowserEffect _ _) fun _ => hturn) fun _ => hturn
  exact cond (fun _ => bind (setMem fun m => ⟨rfl, rfl, fun _ h => h⟩) fun _ => hopen)
    fun _ => hopen

theorem writeThread (data : ThreadRecord) : Safe F s₀ (Store.writeThread L data) :=
  (refuse _).bind fun _ => write (a := .thread data) fun _ _ _ _ =>
    ⟨trivial, quiet_same rfl rfl rfl rfl rfl⟩

theorem recordTurn (unitId R completedAt : String) (result : TurnResult) :
    Safe F s₀ (Turn.recordTurn L unitId R completedAt result) := by
  unfold Turn.recordTurn
  refine bind (readThread _) fun thread => bind (writeThread _) fun _ =>
    bind (ask _) fun after => ?_
  split
  · exact pure _
  · exact cond (fun _ => raise _) fun _ => pure _

theorem completedAtOf (result : TurnResult) : Safe F s₀ (Turn.completedAtOf L result) := by
  unfold Turn.completedAtOf
  split
  · exact pure _
  · exact isoNow

theorem takeTurn (unitId threadId R clientUserMessageId : String) (hR : Releasing s₀ R) :
    Safe F s₀ (Turn.takeTurn L unitId threadId R clientUserMessageId) := by
  have hturn : Safe F s₀ (Turn.turnUnder L unitId R clientUserMessageId >>= fun result =>
      Turn.completedAtOf L result >>= fun at_ => Turn.recordTurn L unitId R at_ result) :=
    bind (turnUnder _ _ _ hR) fun _ => bind (completedAtOf _) fun _ => recordTurn _ _ _ _
  exact cond (fun hb => bind (openBrowserTurn _ _ _ hb) fun _ => hturn) fun _ => hturn

/-! ## The reply of a release -/

theorem hasOutbound (conversationId R : String) : Safe F s₀ (Turn.hasOutbound L conversationId R) :=
  recordsIn _ fun _ _ _ _ => pure _

theorem parkRead {i : Identity} {faults : List Fault} {reason : Option String}
    (h : Taken L s₀ i) : Safe F s₀ (Turn.parkRead L i faults reason) := by
  unfold Turn.parkRead
  refine read _ fun s hr => ?_
  split
  · exact raise _
  · exact discard (parkFailed ((F.close hr).taken h))

theorem markReplyOutcome (records : List MessageRecord) (text : String) :
    Safe F s₀ (Turn.markReplyOutcome L records text) :=
  each fun _ _ => discard (annotate _ fun _ => rfl)

theorem parkGate {records : List MessageRecord} {faults : List Fault}
    (h : ∀ r ∈ records, Taken L s₀ r.id) : Safe F s₀ (Turn.parkGate L records faults) := by
  refine each fun r hr => read _ fun s hrel => ?_
  split
  · exact pure _
  · exact discard (parkFailed ((F.close hrel).taken (h r hr)))

theorem applyProgramReply {record : MessageRecord} {records : List MessageRecord} (R : String)
    (result : TurnResult) (h : ∀ r ∈ records, Taken L s₀ r.id) :
    Safe F s₀ (Turn.applyProgramReply L record records R result) := by
  unfold Turn.applyProgramReply
  refine bind (hasOutbound _ _) fun there => cond (fun _ => pure _) fun _ => ?_
  split
  · exact bind (markReplyOutcome _ _) fun _ => pure _
  · exact bind (markReplyOutcome _ _) fun _ => pure _
  · refine handle (bind (replyTool _ _) fun _ => pure _) fun e => ?_
    split
    · exact raise _
    · exact bind (parkGate h) fun _ => pure _
  · exact raise _
  · exact raise _

theorem ensureReply {record : MessageRecord} {records : List MessageRecord}
    (unitId threadId R : String) (result : TurnResult) (hR : Releasing s₀ R)
    (h : ∀ r ∈ records, Taken L s₀ r.id) :
    Safe F s₀ (Turn.ensureReply L record records unitId threadId R result) := by
  unfold Turn.ensureReply
  refine bind (hasOutbound _ _) fun _ => cond (fun _ => pure _) fun _ =>
    cond (fun _ => applyProgramReply _ _ h) fun _ => bind (takeTurn _ _ _ _ hR) fun _ =>
    bind (hasOutbound _ _) fun _ => cond (fun _ => pure _) fun _ =>
    cond (fun _ => bind (markReplyOutcome _ _) fun _ => pure _) fun _ =>
    bind (each fun r hr => parkRead (h r hr)) fun _ => pure _

/-! ## The turn that was taken -/

/-- Since `s` a turn under `R` has ended with this result. -/
def Turned (s : World) (R clientUserMessageId : String) (result : TurnResult) (s' : World) : Prop :=
  Logged s s' (· = .turned R clientUserMessageId result.status result.agentMessage)

/-- A quiet program, then one that is read by its own rule. -/
theorem then_wp {p : Program L α} {f : α → Program L β} {Q : β → World → Prop} (hs : base L s)
    (h0 : s.ghost.replying = none) (hp : Safe (quiet L alone) s p)
    (hX : ∀ e s', Quiet L alone s s' → X e s')
    (hf : ∀ a s', Quiet L alone s s' → base L s' → s'.ghost.replying = none →
      Prog.wp (moves L alone) (f a) Q X s') : Prog.wp (moves L alone) (p >>= f) Q X s := by
  rw [Prog.wp_bind]
  exact Prog.wp_mono_inv p hs (hp h0 s hs (.refl s))
    (fun a s' hs' hq => hf a s' hq hs' (by rw [hq.ghost]; exact h0)) fun e s' _ hq => hX e s' hq

theorem turnOf_turned (R c : String) (hs : base L s) (h0 : s.ghost.replying = none)
    (hR : Releasing s R) :
    Prog.wp (moves L alone) (Turn.turnOf L R c)
      (fun result s' => Quiet L alone s s' ∧ Turned s R c result s') (fun _ => Quiet L alone s) s := by
  unfold Turn.turnOf
  refine then_wp hs h0 (ask _) (fun _ _ h => h) fun gate s₁ h₁ hs₁ h0₁ => ?_
  refine then_wp hs₁ h0₁ (orThrow _) (fun _ _ h => h₁.trans h) fun _ s₂ h₂ hs₂ h0₂ => ?_
  have hR₂ := (h₁.trans h₂).close.releasing hR
  refine then_wp hs₂ h0₂ (markReleasing hR₂ (fun _ => rfl) fun s h hh hR' => hR' ▸ .turn h _ hh)
    (fun _ _ h => (h₁.trans h₂).trans h) fun _ s₃ h₃ hs₃ h0₃ => ?_
  rw [Prog.wp_bind]
  refine (wp_ask _).2 fun s₄ hrely a ha hs₅ => ?_
  have h₅ : Quiet L alone s₃ (Ask.after (.turn R c) a s₄) :=
    (quiet_follows (follows hrely)).trans (quiet_after (.turn R c) a s₄)
  have h0₅ : (Ask.after (.turn R c) a s₄).ghost.replying = none := by rw [h₅.ghost]; exact h0₃
  have h05 := ((h₁.trans h₂).trans h₃).trans h₅
  refine then_wp hs₅ h0₅ (outcome ha) (fun _ _ h => h05.trans h) fun result s₆ h₆ hs₆ _ => ?_
  obtain ⟨g, hg, hgR⟩ := (h05.trans h₆).close.releasing hR
  rw [Prog.wp_bind, wp_mark]
  refine ⟨hgR ▸ .turned g _ _ _ hg, fun _ => (Prog.wp_pure _).2 ⟨?_, ?_⟩⟩
  · exact (h05.trans h₆).trans (quiet_mark fun _ => rfl)
  · exact Logged.earlier (Logged.mark (by rfl)) (h05.trans h₆).hist

/-- A program that keeps its first program's value, whatever quiet program follows. -/
theorem keep_wp {p : Program L α} {q : α → Program L β} {J : α → World → Prop}
    {g : β → α} (hp : Prog.wp (moves L alone) p (fun a s' => Quiet L alone s s' ∧ J a s')
      (fun _ => Quiet L alone s) s) (hs : base L s)
    (hJ : ∀ a s₁ s₂, Quiet L alone s₁ s₂ → J a s₁ → J a s₂)
    (hq : ∀ a s₁, Quiet L alone s s₁ → base L s₁ → Prog.wp (moves L alone) (q a)
      (fun b s₂ => Quiet L alone s₁ s₂ ∧ g b = a) (fun _ => Quiet L alone s₁) s₁) :
    Prog.wp (moves L alone) (p >>= q) (fun b s' => Quiet L alone s s' ∧ J (g b) s')
      (fun _ => Quiet L alone s) s := by
  rw [Prog.wp_bind]
  refine Prog.wp_mono_inv p hs hp (fun a s₁ hs₁ h₁ => ?_) fun _ _ _ h => h
  refine Prog.wp_mono _ (hq a s₁ h₁.1 hs₁) (fun b s₂ h₂ => ⟨h₁.1.trans h₂.1, ?_⟩)
    fun _ _ h₂ => h₁.1.trans h₂
  rw [h₂.2]
  exact hJ a s₁ s₂ h₂.1 h₁.2

theorem value_wp {p : Program L Unit} (a : α) (hs : base L s) (h0 : s.ghost.replying = none)
    (hp : Safe (quiet L alone) s p) :
    Prog.wp (moves L alone) (p >>= fun _ => Pure.pure a)
      (fun b s' => Quiet L alone s s' ∧ b = a) (fun _ => Quiet L alone s) s :=
  then_wp hs h0 hp (fun _ _ h => h) fun _ _ h _ _ => (Prog.wp_pure _).2 ⟨h, rfl⟩

theorem guardedTurn_turned (R c : String) (hs : base L s) (h0 : s.ghost.replying = none)
    (hR : Releasing s R) :
    Prog.wp (moves L alone) (Turn.guardedTurn L R c)
      (fun result s' => Quiet L alone s s' ∧ Turned s R c result s') (fun _ => Quiet L alone s) s := by
  unfold Turn.guardedTurn
  rw [Prog.wp_handle]
  have hturn : Prog.wp (moves L alone) (Turn.turnOf L R c)
      (fun result s' => Quiet L alone s s' ∧ Turned s R c result s') (fun _ => Quiet L alone s) s :=
    turnOf_turned R c hs h0 hR
  have hbody := keep_wp (g := fun b => b) hturn hs
    (fun a s₁ s₂ h hJ => hJ.later h.hist) (q := fun result => do
      if L.browser then Turn.endBrowserTurn L
      Pure.pure result) fun a s₁ h₁ hs₁ => by
        have h0₁ : s₁.ghost.replying = none := by rw [h₁.ghost]; exact h0
        dsimp only
        split
        · exact value_wp a hs₁ h0₁ endBrowserTurn
        · exact (Prog.wp_pure _).2 ⟨.refl _, rfl⟩
  refine Prog.wp_mono_inv _ hs hbody (fun _ _ _ h => h) fun e s₁ hs₁ h₁ => ?_
  have h0₁ : s₁.ghost.replying = none := by rw [h₁.ghost]; exact h0
  split
  · refine then_wp hs₁ h0₁ endBrowserTurn (fun _ _ h => h₁.trans h) fun _ s₂ h₂ hs₂ h0₂ => ?_
    exact then_wp hs₂ h0₂ (noteBrowserEffect _ _) (fun _ _ h => (h₁.trans h₂).trans h)
      fun _ s₃ h₃ _ _ => (wp_raise _).2 ((h₁.trans h₂).trans h₃)
  · exact (wp_raise _).2 h₁

theorem turnUnder_turned (unitId R c : String) (hs : base L s) (h0 : s.ghost.replying = none)
    (hR : Releasing s R) :
    Prog.wp (moves L alone) (Turn.turnUnder L unitId R c)
      (fun result s' => Quiet L alone s s' ∧ Turned s R c result s') (fun _ => Quiet L alone s) s := by
  have hturn : ∀ s', Quiet L alone s s' → base L s' → s'.ghost.replying = none →
      Prog.wp (moves L alone) (Prog.andFinally (𝔖 := sig L) (Turn.guardedTurn L R c)
        (Turn.afterTurn L)) (fun result s' => Quiet L alone s s' ∧ Turned s R c result s')
        (fun _ => Quiet L alone s) s' := by
    intro s' h hs' h0'
    rw [Prog.wp_andFinally]
    refine Prog.wp_mono_inv _ hs' (guardedTurn_turned R c hs' h0' (h.close.releasing hR))
      (fun result s₁ hs₁ h₁ => ?_) fun e s₁ hs₁ h₁ => ?_
    · exact Prog.wp_mono _ (afterTurn (F := quiet L alone) (by rw [h₁.1.ghost]; exact h0') s₁ hs₁
        (.refl s₁)) (fun _ _ h₂ => ⟨(h.trans h₁.1).trans h₂,
          (h₁.2.earlier h.hist).later h₂.hist⟩)
        fun _ _ h₂ => (h.trans h₁.1).trans h₂
    · exact Prog.wp_mono _ (afterTurn (F := quiet L alone) (by rw [h₁.ghost]; exact h0') s₁ hs₁
        (.refl s₁)) (fun _ _ h₂ => (h.trans h₁).trans h₂) fun _ _ h₂ => (h.trans h₁).trans h₂
  have hopen : ∀ s', Quiet L alone s s' → base L s' → s'.ghost.replying = none →
      Prog.wp (moves L alone) (if L.browser = true then do
        Turn.setMem L fun m => { m with activeBrowserReply := some (unitId, R) }
        Calls.noteBrowserEffect L R false
        Prog.andFinally (𝔖 := sig L) (Turn.guardedTurn L R c) (Turn.afterTurn L)
        else Prog.andFinally (𝔖 := sig L) (Turn.guardedTurn L R c) (Turn.afterTurn L))
        (fun result s' => Quiet L alone s s' ∧ Turned s R c result s')
        (fun _ => Quiet L alone s) s' := by
    intro s' h hs' h0'
    split
    · refine then_wp hs' h0' (setMem fun m => ⟨rfl, rfl, fun _ h => h⟩) (fun _ _ h₁ => h.trans h₁)
        fun _ s₁ h₁ hs₁ h0₁ => ?_
      exact then_wp hs₁ h0₁ (noteBrowserEffect _ _) (fun _ _ h₂ => (h.trans h₁).trans h₂)
        fun _ s₂ h₂ hs₂ h0₂ => hturn s₂ ((h.trans h₁).trans h₂) hs₂ h0₂
    · exact hturn s' h hs' h0'
  unfold Turn.turnUnder
  by_cases ht : L.declaration.teaching.isSome = true
  · simp only [ht, if_true]
    exact then_wp hs h0 (setMem fun m => ⟨rfl, rfl, fun _ h => h⟩) (fun _ _ h => h) fun _ s₁ h₁ =>
      hopen s₁ h₁
  · simp only [ht, if_false, Bool.false_eq_true]
    exact hopen s (.refl s) hs h0

/-- A turn that was taken is in the history, with the result it is taken for. -/
theorem takeTurn_turned (unitId threadId R c : String) (hs : base L s)
    (h0 : s.ghost.replying = none) (hR : Releasing s R) :
    Prog.wp (moves L alone) (Turn.takeTurn L unitId threadId R c)
      (fun x s' => Quiet L alone s s' ∧ Turned s R c x.1 s') (fun _ => Quiet L alone s) s := by
  have hrecord : ∀ result s₁, Quiet L alone s s₁ → base L s₁ → s₁.ghost.replying = none →
      Turned s R c result s₁ → ∀ at_, Prog.wp (moves L alone) (Turn.recordTurn L unitId R at_ result)
        (fun x s' => Quiet L alone s s' ∧ Turned s R c x.1 s') (fun _ => Quiet L alone s) s₁ := by
    intro result s₁ h₁ hs₁ h0₁ hT at_
    unfold Turn.recordTurn
    refine then_wp hs₁ h0₁ (readThread _) (fun _ _ h => h₁.trans h) fun thread s₂ h₂ hs₂ h0₂ => ?_
    refine then_wp hs₂ h0₂ (writeThread _) (fun _ _ h => (h₁.trans h₂).trans h)
      fun _ s₃ h₃ hs₃ h0₃ => ?_
    refine then_wp hs₃ h0₃ (ask _) (fun _ _ h => ((h₁.trans h₂).trans h₃).trans h)
      fun after s₄ h₄ _ _ => ?_
    have h14 := (h₂.trans h₃).trans h₄
    split
    · exact (Prog.wp_pure _).2 ⟨h₁.trans h14, hT.later h14.hist⟩
    · split
      · exact (wp_raise _).2 (h₁.trans h14)
      · exact (Prog.wp_pure _).2 ⟨h₁.trans h14, hT.later h14.hist⟩
  have hturn : ∀ s', Quiet L alone s s' → base L s' → s'.ghost.replying = none →
      Prog.wp (moves L alone) (Turn.turnUnder L unitId R c >>= fun result =>
        Turn.completedAtOf L result >>= fun at_ => Turn.recordTurn L unitId R at_ result)
        (fun x s' => Quiet L alone s s' ∧ Turned s R c x.1 s') (fun _ => Quiet L alone s) s' := by
    intro s' h hs' h0'
    rw [Prog.wp_bind]
    refine Prog.wp_mono_inv _ hs' (turnUnder_turned unitId R c hs' h0' (h.close.releasing hR))
      (fun result s₁ hs₁ h₁ => ?_) fun _ _ _ h₁ => h.trans h₁
    refine then_wp hs₁ (by rw [h₁.1.ghost]; exact h0') (completedAtOf _)
      (fun _ _ h₂ => (h.trans h₁.1).trans h₂) fun at_ s₂ h₂ hs₂ h0₂ => ?_
    exact hrecord result s₂ ((h.trans h₁.1).trans h₂) hs₂ h0₂
      ((h₁.2.earlier h.hist).later h₂.hist) at_
  unfold Turn.takeTurn
  by_cases hb : L.browser = true
  · simp only [hb, if_true]
    exact then_wp hs h0 (openBrowserTurn _ _ _ hb) (fun _ _ h => h) fun _ s₁ h₁ => hturn s₁ h₁
  · simp only [hb, if_false, Bool.false_eq_true]
    exact hturn s (.refl s) hs h0

end Safe

end CarbonRuntime.Moves
