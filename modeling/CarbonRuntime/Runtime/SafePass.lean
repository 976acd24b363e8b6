import CarbonRuntime.Runtime.SafeGroups
import CarbonRuntime.Runtime.Pass

/-!
# Recovery, the release pass and delivery keep to the moves

The programs of a process from their first act to their last: the boot, the
pass and the calls between passes (`boot_wp`, `pass_wp`, `between_wp`).
-/

open CarbonRuntime.Core CarbonRuntime.Stream

namespace CarbonRuntime.Moves

open Store Policy Teachings Calls Turn Release Pass

variable {L : Loop} {alone : Prop} {s₀ s s' : World} {X : Err → World → Prop}

/-- The inbound records of `R` that were open are in a group that was handed
over, and the release took its turn. -/
def TakenUp (s s' : World) (R : String) : Prop :=
  ∀ x ∈ s.disk.records.rows, x.direction = .inbound → x.openRelease = some R →
    (∃ records, (∃ r ∈ records, r.id = x.id) ∧ Logged s s' (· = .handed records R true)) ∧
      Logged s s' (TookTurn R)

/-- Between two jobs. -/
structure Idle (s : World) : Prop where
  replying : s.ghost.replying = none
  sending : s.ghost.sending = none

theorem Idle.quiet (h : Idle s) (hq : Quiet L alone s s') : Idle s' :=
  ⟨by rw [hq.ghost]; exact h.replying, by rw [hq.ghost]; exact h.sending⟩

theorem TakenUp.earlier {s₁ : World} {ids : List String} {R : String} (ha : alone)
    (hq : Quiet L alone s s₁) (hb : L.browser = false) (hrec : s.mem.recovering = some ids)
    (h : TakenUp s₁ s' R) : TakenUp s s' R := by
  intro x hx hdir hopen
  obtain ⟨x', hx', hk, _⟩ := hq.grows.records x.id x (Table.mem_find hx)
  have hstill := (hq.still ha x.id x x' (Table.mem_find hx) hx').release hb
    (.inl (by rw [hrec]; simp))
  obtain ⟨⟨records, ⟨r, hr, hid⟩, h₁⟩, h₂⟩ := h x' (Table.find_mem hx')
    (hk.direction.trans hdir) (by rw [MessageRecord.openRelease, hstill]; exact hopen)
  exact ⟨⟨records, ⟨r, hr, hid.trans hk.id⟩, h₁.earlier hq.hist⟩, h₂.earlier hq.hist⟩

/-- What a pass comes to: it was hindered, or every release id the start
answered to re-issue was taken up. -/
def PassEnd (L : Loop) (alone : Prop) (s s' : World) : Prop :=
  Logged s s' Hinders ∨ (alone → L.browser = false → ∀ ids, s.mem.recovering = some ids →
    ∀ R ∈ ids, TakenUp s s' R)

namespace Safe

/-! ## The release pass -/

theorem candidates_nodup {index : List IndexEntry} {records : List MessageRecord}
    (h : records.Perm s.disk.records.rows) :
    ((Release.candidates L index records).map (·.id)).Nodup := by
  unfold Release.candidates
  rw [((sortBy_perm _ _).map _).nodup_iff]
  refine List.Nodup.sublist (List.filter_sublist.map _) ?_
  rw [(h.map _).nodup_iff]
  exact s.disk.records.nodup

theorem mem_candidates {index : List IndexEntry} {records : List MessageRecord}
    (h : records.Perm s.disk.records.rows) {r : MessageRecord} :
    r ∈ Release.candidates L index records ↔
      r ∈ s.disk.records.rows ∧ r.direction = .inbound ∧ (L.browser = true → mine L r = true) := by
  unfold Release.candidates
  rw [(sortBy_perm _ _).mem_iff, List.mem_filter, h.mem_iff]
  cases L.browser <;> simp

theorem apart_of_nodup {groups : List Group} (h : ((grouped groups).map (·.id)).Nodup) :
    groups.Pairwise fun g k => ∀ r ∈ g.records, ∀ x ∈ k.records, r.id ≠ x.id := by
  rw [grouped, List.map_flatMap, List.nodup_flatMap] at h
  refine h.2.imp fun hd r hr x hx he => ?_
  exact hd (List.mem_map_of_mem hr) (by rw [he]; exact List.mem_map_of_mem hx)

/-- The groups are made, from a listing on. -/
theorem groups_wp {reissue : List String} {t : Int} {index : List IndexEntry}
    {records : List MessageRecord} (hs : base L s) (hperm : records.Perm s.disk.records.rows)
    (hw : s.ghost.waiting = []) :
    Prog.wp (moves L alone) (Prog.fold (𝔖 := sig L) (place L reissue t) []
      (Release.candidates L index records))
      (fun groups => Placed L alone reissue (Release.candidates L index records) s groups [])
      (fun _ _ => True) s := by
  refine Prog.wp_fold (P := moves L alone) (X := fun _ _ => True)
    (J := Placed L alone reissue (Release.candidates L index records) s) _
    (fun groups r rest s' h => place_wp hw (fun _ _ => trivial) h) _ [] s ?_
  refine ⟨.refl s, hs, by simp, fun r hr => ?_, ?_, fun _ r hr => .inl hr⟩
  · obtain ⟨hmem, hdir, _⟩ := (mem_candidates hperm).1 (by simpa [grouped] using hr)
    exact ⟨Table.mem_find hmem, hdir⟩
  · simpa [grouped] using candidates_nodup hperm

/-- What the groups may rely on once they are made. -/
theorem placed_waits {reissue : List String} {all : List MessageRecord} {groups : List Group}
    (h : Placed L alone reissue all s groups [] s') (hrec : s.mem.recovering = none)
    (hre : s.ghost.reissuing = reissue) :
    Waits L groups ((Act.mark (.grouped (groups.map (·.records)))).apply s') where
  waiting g hg := List.mem_map_of_mem hg
  there g hg r hr := by
    obtain ⟨hfind, hdir⟩ := h.there r (by simpa [mem_grouped] using ⟨g, hg, hr⟩)
    exact ⟨r, hfind, hdir, .refl r⟩
  reissued g hg hgr := by
    obtain ⟨R, hR, _, _, hopen⟩ := (h.keyed g hg).isReissue hgr
    refine ⟨?_, fun r hr => ?_⟩
    · by_contra hb
      have hnil := h.base.reissuing (by simpa using hb)
      rw [h.quiet.ghost, hre] at hnil
      rw [hnil] at hR
      cases hR
    · obtain ⟨hfind, _⟩ := h.there r (by simpa [mem_grouped] using ⟨g, hg, hr⟩)
      refine ⟨r, hfind, ?_⟩
      have := hopen r hr
      by_contra hn
      simp [MessageRecord.openRelease, Option.not_isSome_iff_eq_none.1 hn] at this
  apart := apart_of_nodup (by simpa using h.nodup)
  owing := fun ho => ho.elim (fun hne => hne (h.quiet.recovering.trans hrec)) fun hne => hne rfl

theorem takenUp_of {reissue : List String} {index : List IndexEntry}
    {records : List MessageRecord} {groups : List Group} {s₁ s₂ : World} {R : String}
    (hperm : records.Perm s₁.disk.records.rows)
    (h : Placed L alone reissue (Release.candidates L index records) s₁ groups [] s₂)
    (hall : ∀ g ∈ groups, Reissued s₂ s' g) (hb : L.browser = false) (hR : R ∈ reissue)
    {x : MessageRecord} (hx : x ∈ s₁.disk.records.rows) (hdir : x.direction = .inbound)
    (hopen : x.openRelease = some R) :
    (∃ group, (∃ r ∈ group, r.id = x.id) ∧ Logged s₂ s' (· = .handed group R true)) ∧
      Logged s₂ s' (TookTurn R) := by
  have hx' : x ∈ Release.candidates L index records :=
    (mem_candidates hperm).2 ⟨hx, hdir, fun hb' => by rw [hb] at hb'; cases hb'⟩
  rcases h.all hb x hx' with hnil | hin
  · cases hnil
  obtain ⟨g, hg, hkey, hmem⟩ := hin R hR hopen
  obtain ⟨hre, hid, _⟩ := (h.keyed g hg).reissue R hkey
  obtain ⟨h₁, h₂⟩ := hall g hg R hid hre (List.ne_nil_of_mem hmem)
  exact ⟨⟨g.records, ⟨x, hmem, rfl⟩, h₁⟩, h₂⟩

theorem releasePass_wp {reissue : List String} (hs : base L s) (h0 : s.ghost.replying = none)
    (hrec : s.mem.recovering = none) (hw : s.ghost.waiting = []) (hhand : s.ghost.handed = none)
    (hre : s.ghost.reissuing = reissue) :
    Prog.wp (moves L alone) (Release.releasePass L reissue)
      (fun _ s' => Onward s s' ∧ (Logged s s' Hinders ∨
        (alone → L.browser = false → ∀ R ∈ reissue, TakenUp s s' R))) (fun _ _ => True) s := by
  have hpass : ∀ s₁, Quiet L alone s s₁ → base L s₁ → s₁.ghost.replying = none →
      Prog.wp (moves L alone) (do
        let _ ← Release.checkProviderProxy L
        let w ← Store.fetch L
        if w.mem.holdFaults ≠ [] || w.mem.proxyFaults ≠ [] then Turn.discard L (Release.holds L)
        else do
          let groups ← Release.formGroups L reissue
          Store.mark L (.grouped (groups.map (·.records)))
          Prog.eachWhile (𝔖 := sig L) (Release.round L) groups)
        (fun _ s' => Onward s s' ∧ (Logged s s' Hinders ∨
          (alone → L.browser = false → ∀ R ∈ reissue, TakenUp s s' R))) (fun _ _ => True) s₁ := by
    intro s₁ h₁ hs₁ h0₁
    refine then_wp hs₁ h0₁ checkProviderProxy (fun _ _ _ => trivial) fun _ s₂ h₂ hs₂ h0₂ => ?_
    rw [Prog.wp_bind, wp_fetch]
    split
    · unfold Turn.discard Release.holds
      rw [Prog.wp_bind', Prog.wp_bind, wp_mark]
      refine ⟨.holds, fun _ => ?_⟩
      have hc : Close L s₂ ((Act.mark .holds).apply s₂) := close_mark fun _ => rfl
      exact (Prog.wp_pure _).2 ((Prog.wp_pure _).2
        ⟨((h₁.trans h₂).close.trans hc).onward, .inl ((Logged.mark (.inl rfl)).earlier
          (h₁.trans h₂).hist)⟩)
    unfold Release.formGroups
    rw [Prog.wp_bind, Prog.wp_bind]
    refine wp_now fun t hs₃ => ?_
    rw [Prog.wp_bind, wp_fetch, Prog.wp_bind]
    have h₃ : Quiet L alone s { s₂ with clock := t } := (h₁.trans h₂).trans (quiet_clock t)
    refine wp_sync rfl fun records hperm hs₃ => ?_
    refine Prog.wp_mono_inv _ hs₃ (groups_wp hs₃ hperm
      (by rw [after_ghost, h₃.ghost]; exact hw)) (fun groups s₄ hs₄ h₄ => ?_) fun _ _ _ hx => hx
    have hq₄ : Quiet L alone s s₄ := h₃.trans h₄.quiet
    rw [Prog.wp_bind, wp_mark]
    refine ⟨.grouped _ (by rw [hq₄.ghost]; exact hw) (by rw [hq₄.ghost]; exact hhand)
      (hq₄.recovering.trans hrec)
      fun g hg r hr => ?_, fun hs₅ => ?_⟩
    · obtain ⟨k, hk, rfl⟩ := List.mem_map.1 hg
      obtain ⟨hfind, hdir⟩ := h₄.there r (by simpa [mem_grouped] using ⟨k, hk, hr⟩)
      refine ⟨hfind, hdir, ?_⟩
      by_cases hkre : k.reissue = true
      · obtain ⟨R, hR, _, _, hopen⟩ := (h₄.keyed k hk).isReissue hkre
        exact .inr ⟨R, by rw [hq₄.ghost, hre]; exact hR, hopen r hr⟩
      · have hfresh : ∀ R, k.key ≠ .reissue R := fun R hR =>
          hkre ((h₄.keyed k hk).reissue R hR).1
        exact .inl (((h₄.keyed k hk).fresh hfresh).2 r hr)
    · have h0₄ : s₄.ghost.replying = none := by rw [hq₄.ghost]; exact h0
      have hon : Onward s ((Act.mark (.grouped (groups.map (·.records)))).apply s₄) :=
        ⟨hq₄.grows, by rw [← hq₄.ghost]; rfl, by rw [← hq₄.ghost]; rfl, hq₄.recovering,
          fun ho => hq₄.close.owing.1 (.inl (ho.resolve_right fun hne => hne rfl)),
          hq₄.hist.trans (List.suffix_cons _ _)⟩
      have hrounds : Rounds L groups ((Act.mark (.grouped (groups.map (·.records)))).apply s₄) groups
          ((Act.mark (.grouped (groups.map (·.records)))).apply s₄) :=
        ⟨hs₅, h0₄, placed_waits h₄ (by rw [after_mem, h₃.recovering]; exact hrec)
          (by rw [after_ghost, h₃.ghost]; exact hre),
          (Close.refl (L := L) _).onward, .inr fun g hg => .inl hg⟩
      refine Prog.wp_mono _ (Prog.wp_eachWhile (P := moves L alone) (X := fun _ _ => True)
        (J := Rounds L groups ((Act.mark (.grouped (groups.map (·.records)))).apply s₄)) _
        (fun g rest s' h => round_wp h) groups _ hrounds) (fun _ s' hend => ?_) fun _ _ _ => trivial
      rcases hend with hend | ⟨_, hon', hhind⟩
      · refine ⟨hon.trans hend.onward, hend.reissued.imp (·.earlier hon.hist)
          fun hall ha hb R hR x hx hdir hopen => ?_⟩
        have hall' : ∀ g ∈ groups,
            Reissued ((Act.mark (.grouped (groups.map (·.records)))).apply s₄) s' g :=
          fun g hg => (hall g hg).resolve_left (by simp)
        -- What was open when the pass began is open as the groups are made.
        have howes : Owing s := .inr (by rw [hre]; exact List.ne_nil_of_mem hR)
        obtain ⟨x', hx', hk, _⟩ := h₃.grows.records x.id x (Table.mem_find hx)
        have hstill := (h₃.still ha x.id x x' (Table.mem_find hx) hx').release hb howes
        have hopen' : x'.openRelease = some R := by
          rw [MessageRecord.openRelease, hstill]
          exact hopen
        have hx'' : x' ∈ (Ask.after .listing records { s₂ with clock := t }).disk.records.rows :=
          Table.find_mem hx'
        have hmark : ∀ g ∈ groups, Reissued s₄ s' g := fun g hg R hR hr hne =>
          (hall' g hg R hR hr hne).imp (·.earlier (List.suffix_cons _ _))
            (·.earlier (List.suffix_cons _ _))
        obtain ⟨⟨group, ⟨r, hr, hid⟩, h₁'⟩, h₂'⟩ := takenUp_of hperm h₄ hmark hb hR hx''
          (hk.direction.trans hdir) hopen'
        exact ⟨⟨group, ⟨r, hr, hid.trans hk.id⟩, h₁'.earlier hq₄.hist⟩, h₂'.earlier hq₄.hist⟩
      · exact ⟨hon.trans hon', .inl (hhind.earlier hon.hist)⟩
  unfold Release.releasePass
  rw [Prog.wp_bind, wp_fetch]
  by_cases hstale : (s.mem.toolStatusStale && decide (s.mem.threads ≠ [])) = true
  · rw [if_pos hstale]
    exact then_wp hs h0 readToolServerStatus (fun _ _ _ => trivial) fun _ s₁ h₁ hs₁ h0₁ =>
      hpass s₁ h₁ hs₁ h0₁
  · rw [if_neg hstale]
    exact hpass s (.refl s) hs h0

/-! ## Poll and capture -/

variable {F : Frame L alone} {α : Type}

theorem writePoll (p : PollState) : Safe F s₀ (Store.write L (.poll p)) :=
  write fun _ _ _ _ => ⟨trivial, quiet_same rfl rfl rfl rfl rfl⟩

theorem poll : Safe F s₀ (Pass.poll L) := by
  unfold Pass.poll
  refine bind (handle (hear .poll fun _ _ _ ha => bind (outcome ha) fun _ => pure _)
    fun _ => pure _) fun polled => ?_
  split
  · exact pure _
  · exact bind (fetch fun _ _ _ => writePoll _) fun _ => pure _
  · exact fetch fun _ _ _ => bind (writePoll _) fun _ => pure _

theorem park {c : Candidate} (reason : String) (h : c.fits L.browser) :
    Safe F s₀ (Store.park L c.record reason c.cursor c.typeFaults c.raw) :=
  captureCandidate (c := { c with record := { c.record with
    disposition := .parked
    adapterFields := { c.record.adapterFields with parkReason := some reason } } })
    ⟨h.1, h.2.1, .inr (.inr rfl), h.2.2.2.1, h.2.2.2.2⟩

theorem value {β : Type} (a : α) {f : α → Program L β} (h : Safe F s₀ (f a)) :
    Safe F s₀ (Pure.pure a >>= f) := h

theorem captureEntry {c : Candidate} (h : c.fits L.browser) : Safe F s₀ (Pass.captureEntry L c) := by
  unfold Pass.captureEntry Pass.putAttachments
  refine bind (cond (fun _ => refuse _) fun _ => pure _) fun _ => handle (discard (captureCandidate h)) fun e => ?_
  split
  · exact pure _
  · exact raise _

theorem captureBatch : Safe F s₀ (Pass.captureBatch L) := by
  unfold Pass.captureBatch
  refine hear .payload fun _ a _ ha => ?_
  cases a with
  | error e =>
    intro _ s _ hr
    rw [Prog.wp_bind]
    exact (wp_raise e).2 hr
  | ok batch =>
    refine value batch ?_
    exact bind (each fun c hc => captureEntry (ha.1 c hc)) fun _ =>
      bind (each fun c hc => discard (park c.2 (ha.2 c hc))) fun _ =>
        each fun c _ => advanceCursor _ _ _

theorem inspectBrowserRecovery : Safe F s₀ (Pass.inspectBrowserRecovery L) := by
  unfold Pass.inspectBrowserRecovery
  refine cond (fun _ => rebuild fun _ _ _ _ => discard (fold (fun inspected r _ => ?_) [])) fun _ =>
    pure _
  split
  · exact pure _
  · exact cond (fun _ => pure _) fun _ =>
      bind (handle (hear (.readThread _) fun _ _ _ ha => outcome ha) fun _ => pure _) fun _ =>
        bind (noteBrowserEffect _ _) fun _ => pure _

/-! ## Recovery -/

theorem recoverDispatching : Safe F s₀ (Pass.recoverDispatching L) := by
  unfold Pass.recoverDispatching
  refine cond (fun _ => rebuild fun _ _ _ _ => each fun r _ => cond (fun _ => ?_) fun _ => pure _)
    fun _ => pure _
  exact discard (annotate _ fun f => (rfl : (madeUncertain f).parkReason = f.parkReason))

/-- A settlement that ends a delivery. -/
theorem settleDone (R : String) {status : Status} (chunkIds : Option (List String))
    (at_ : Option String) (h : status.live = false) :
    Safe (close L alone) s₀ (Store.settleDelivery L R status chunkIds at_) := fun h0 s hs hr =>
  Prog.wp_mono _ (settle_wp hs (hr.replying.trans h0) (.inl h)) (fun _ _ h' => hr.trans h'.1)
    fun _ _ h' => by
      rw [h'.2]
      exact hr

theorem markUnknown (R : String) : Safe (close L alone) s₀ (Store.markUnknown L R) :=
  bind isoNow fun _ => settleDone R none _ rfl

theorem recoverClaimed (r : MessageRecord) : Safe (close L alone) s₀ (Pass.recoverClaimed L r) := by
  unfold Pass.recoverClaimed
  split
  · exact cond (fun _ => pure _) fun _ => bind (markUnknown _) fun _ =>
      bind (annotate _ fun _ => rfl) fun _ => pure _
  · exact pure _

theorem recoverSent (records : List MessageRecord) (R : String) (ho : ¬ Owing s₀) :
    Safe F s₀ (Pass.recoverSent L records R) := by
  refine bind isoNow fun _ => each fun r _ => cond (fun _ => ?_) fun _ => pure _
  exact discard (completeRelease _ _ (.inr ho))

/-- The browser's loop re-issues nothing. -/
theorem recoverRelease_wp (records : List MessageRecord) (reissue : List String) (R : String)
    (hs : base L s) (h0 : s.ghost.replying = none) (ho : ¬ Owing s) :
    Prog.wp (moves L alone) (Pass.recoverRelease L records reissue R)
      (fun ids s' => Quiet L alone s s' ∧ (L.browser = true → ids = reissue))
      (fun _ _ => True) s := by
  have hsame : ∀ p : Program L Unit, Safe (quiet L alone) s p →
      Prog.wp (moves L alone) (p >>= fun _ => Pure.pure reissue)
        (fun ids s' => Quiet L alone s s' ∧ (L.browser = true → ids = reissue))
        (fun _ _ => True) s := fun p hp =>
    then_wp hs h0 hp (fun _ _ _ => trivial) fun _ s' h _ _ => (Prog.wp_pure _).2 ⟨h, fun _ => rfl⟩
  have hleft : Prog.wp (moves L alone) (Pure.pure reissue : Program L (List String))
      (fun ids s' => Quiet L alone s s' ∧ (L.browser = true → ids = reissue))
      (fun _ _ => True) s := (Prog.wp_pure _).2 ⟨.refl s, fun _ => rfl⟩
  unfold Pass.recoverRelease
  dsimp only
  split
  · exact hsame _ (recoverSent _ _ ho)
  split
  · exact hleft
  split
  · exact hleft
  split
  · refine hsame _ (each fun r _ => cond (fun _ => ?_) fun _ => pure _)
    exact discard (annotate _ (effectNoted_parkReason _))
  · rename_i hb
    exact (Prog.wp_pure _).2 ⟨.refl s, fun hb' => absurd hb' hb⟩

theorem recover_wp (hs : base L s) (h0 : s.ghost.replying = none) (ho : ¬ Owing s) :
    Prog.wp (moves L alone) (Pass.recover L)
      (fun reissue s' => Close L s s' ∧ (L.browser = true → reissue = [])) (fun _ _ => True) s := by
  unfold Pass.recover
  refine then_wp hs h0 recoverDispatching (fun _ _ _ => trivial) fun _ s₁ h₁ hs₁ h0₁ => ?_
  rw [Prog.wp_bind]
  refine wp_sync rfl fun claimed _ hs₂ => ?_
  have h₂ : Close L s (Ask.after .listing claimed s₁) := h₁.close.trans
    (quiet_after .listing claimed s₁ : Quiet L alone s₁ _).close
  rw [Prog.wp_bind]
  refine Prog.wp_mono_inv _ hs₂ ((each fun r _ => recoverClaimed r :
    Safe (close L alone) (Ask.after .listing claimed s₁) _) h0₁ _ hs₂ (.refl _))
    (fun _ s₃ hs₃ h₃ => ?_) fun _ _ _ _ => trivial
  rw [Prog.wp_bind]
  refine wp_sync rfl fun all _ hs₄ => ?_
  have h₄ : Close L s (Ask.after .listing all s₃) := (h₂.trans h₃).trans
    (quiet_after .listing all s₃ : Quiet L alone s₃ _).close
  let J : List String → List String → World → Prop := fun reissue _ s' =>
    base L s' ∧ Close L s s' ∧ (L.browser = true → reissue = [])
  have hJ : J [] (openReleases (all.filter fun r => !L.browser || mine L r))
      (Ask.after .listing all s₃) := ⟨hs₄, h₄, fun _ => rfl⟩
  refine Prog.wp_mono _ (Prog.wp_fold (P := moves L alone) (J := J) (X := fun _ _ => True) _
    (fun reissue R rest s' hj => ?_) _ [] _ hJ) (fun _ _ hj => hj.2) fun _ _ _ => trivial
  obtain ⟨hs', hc, hnil⟩ := hj
  have ho' : ¬ Owing s' := hc.owing.not.2 ho
  refine Prog.wp_mono_inv _ hs' (recoverRelease_wp _ reissue R hs'
    (hc.replying.trans h0) ho') (fun ids s'' hs'' h => ⟨hs'', hc.trans h.1.close, fun hb => ?_⟩)
    fun _ _ _ _ => trivial
  rw [h.2 hb]
  exact hnil hb

/-! ## Delivery -/

theorem recordSentAction (r : MessageRecord) (claim : Claim) :
    Safe F s₀ (Pass.recordSentAction L r claim) :=
  hear (.finish claim) fun _ _ _ ha => bind (outcome ha.1) fun _ => bind isoNow fun _ =>
    discard (annotate _ fun _ => rfl)

theorem completeReceipt (r : MessageRecord) : Safe F s₀ (Pass.completeReceipt L r) := by
  unfold Pass.completeReceipt
  split
  · exact cond (fun _ => pure _) fun _ => recordSentAction _ _
  · exact pure _

theorem completeAnswered (r : MessageRecord) (R : String) (ho : ¬ Owing s₀) :
    Safe F s₀ (Pass.completeAnswered L r R) := by
  refine bind isoNow fun _ => recordsIn _ fun s records hr _ => each fun one _ =>
    cond (fun _ => ?_) fun _ => pure _
  exact discard (completeRelease _ _ (.inr ((F.close hr).owing.not.2 ho)))

/-- Between two sends: the records `rest` are still to come. -/
structure Sends (L : Loop) (s₀ : World) (rest : List MessageRecord) (s : World) : Prop where
  base : base L s
  replying : s.ghost.replying = none
  sending : s.ghost.sending = none
  recovering : s.mem.recovering = none
  reissuing : s.ghost.reissuing = []
  delivering : ∀ r ∈ rest, r ∈ s.ghost.delivering
  nodup : (rest.map (·.id)).Nodup
  hist : s₀.hist <:+ s.hist

section Sends
variable {r : MessageRecord} {rest : List MessageRecord}

theorem Sends.owing (h : Sends L s₀ rest s) : ¬ Owing s :=
  fun ho => ho.elim (· h.recovering) (· h.reissuing)

theorem Sends.close (h : Sends L s₀ rest s) (hc : Close L s s') (hs' : Moves.base L s') :
    Sends L s₀ rest s' :=
  ⟨hs', hc.replying.trans h.replying, hc.sending.trans h.sending,
    hc.recovering.trans h.recovering, hc.reissuing.trans h.reissuing,
    fun r hr => by rw [hc.delivering]; exact h.delivering r hr, h.nodup, h.hist.trans hc.hist⟩

theorem Sends.tail (h : Sends L s₀ (r :: rest) s) : Sends L s₀ rest s :=
  ⟨h.base, h.replying, h.sending, h.recovering, h.reissuing,
    fun x hx => h.delivering x (.tail _ hx), (List.nodup_cons.1 h.nodup).2, h.hist⟩

theorem Sends.earlier (h : Sends L s₁ rest s) (hs : s₀.hist <:+ s₁.hist) : Sends L s₀ rest s :=
  ⟨h.base, h.replying, h.sending, h.recovering, h.reissuing, h.delivering, h.nodup,
    hs.trans h.hist⟩

/-- What was sent is settled, and the next record may be sent. -/
theorem settled_wp {R : String} {status : Status} (h : Sends L s₀ (r :: rest) s)
    (hR : r.requestId = some R) (hc : Close L ((Act.mark (.send r)).apply s) s')
    (hset : Settled R status s') (hlive : status.live = false) :
    Prog.wp (moves L alone) (Store.mark L (.settled r))
      (fun _ s'' => Sends L ((Act.mark (.send r)).apply s) rest s'' ∧
        underway s''.hist = underway ((Act.mark (.send r)).apply s).hist) X s' := by
  obtain ⟨q, x, hq, hqs, hx, hxs⟩ := hset
  rw [wp_mark]
  refine ⟨.settled r x q R hR hq hx (by rw [hqs]; exact hxs) (by rw [hqs]; exact hlive),
    fun hs₂ => ?_⟩
  refine ⟨⟨hs₂, hc.replying.trans h.replying, rfl, hc.recovering.trans h.recovering,
    hc.reissuing.trans h.reissuing, fun y hy => ?_, (List.nodup_cons.1 h.nodup).2, ?_⟩, hc.underway⟩
  · show y ∈ s'.ghost.delivering
    rw [hc.delivering]
    refine List.mem_filter.2 ⟨h.delivering y (.tail _ hy), ?_⟩
    rw [decide_eq_true_iff]
    intro he
    have hnd := h.nodup
    rw [List.map_cons, List.nodup_cons] at hnd
    exact hnd.1 (by rw [← he]; exact List.mem_map_of_mem hy)
  · exact hc.hist.trans (List.suffix_cons _ _)

/-- The outcome of the send is written: the fence and its record are settled. -/
theorem settleOutcome_wp {R : String} (o : SendOutcome) (hs : Moves.base L s)
    (h0 : s.ghost.replying = none) :
    Prog.wp (moves L alone) (Pass.settleOutcome L R o)
      (fun _ s' => Close L s s' ∧ ∃ status : Status, status.live = false ∧ Settled R status s')
      (fun _ _ => True) s := by
  have hmark : ∀ (status : Status) (chunkIds : Option (List String)), status.live = false →
      Prog.wp (moves L alone) (do
        let at_ ← Store.isoNow L
        Store.settleDelivery L R status chunkIds (some at_))
        (fun _ s' => Close L s s' ∧ ∃ status : Status, status.live = false ∧ Settled R status s')
        (fun _ _ => True) s := by
    intro status chunkIds hlive
    refine then_wp hs h0 isoNow (fun _ _ _ => trivial) fun at_ s₁ h₁ hs₁ h0₁ => ?_
    exact Prog.wp_mono _ (settle_wp hs₁ h0₁ (.inl hlive)) (fun _ _ h =>
      ⟨h₁.close.trans h.1, status, hlive, h.2⟩) fun _ _ _ => trivial
  unfold Pass.settleOutcome
  split
  · exact hmark .sent _ rfl
  · exact hmark .unknown none rfl
  · exact hmark .failed none rfl

/-- What is on record of a confirmed send is completed. -/
theorem confirmed (r confirmed : MessageRecord) (R : String) (ho : ¬ Owing s₀) :
    Safe F s₀ (do
      match sentProof confirmed with
      | some claim => Pass.recordSentAction L confirmed claim
      | none => Pure.pure ()
      Pass.completeAnswered L r R : Program L Unit) := by
  have hrest : ∀ p : Program L Unit, Safe F s₀ p →
      Safe F s₀ (p >>= fun _ => Pass.completeAnswered L r R) := fun p hp =>
    bind hp fun _ => completeAnswered r R ho
  dsimp only
  split
  · exact hrest _ (recordSentAction _ _)
  · exact hrest (Pure.pure ()) (pure ())

theorem sendOne_wp {R : String} (h : Sends L s₀ (r :: rest) s) (hdir : r.direction = .outbound)
    (hst : r.status = some .pending) (hR : r.requestId = some R) :
    Prog.wp (moves L alone) (Pass.sendOne L r R)
      (fun _ s' => Sends L ((Act.mark (.send r)).apply s) rest s' ∧
        underway s'.hist = underway ((Act.mark (.send r)).apply s).hist) (fun _ _ => True) s := by
  unfold Pass.sendOne
  rw [Prog.wp_bind, wp_mark]
  refine ⟨.send r (h.delivering r (.head _)) hdir hst h.sending, fun hs₁ => ?_⟩
  have h0₁ : ((Act.mark (.send r)).apply s).ghost.replying = none := h.replying
  rw [Prog.wp_bind, Prog.wp_handle]
  have hsend : Prog.wp (moves L alone) (do
      let a ← Store.ask L (.send r)
      let o ← Calls.outcome L a
      (Pure.pure (some o) : Program L (Option (Option SendOutcome))))
      (fun answer s₂ => Quiet L alone ((Act.mark (.send r)).apply s) s₂ ∧ ∃ o, answer = some o)
      (fun _ => Quiet L alone ((Act.mark (.send r)).apply s)) ((Act.mark (.send r)).apply s) := by
    rw [Prog.wp_bind]
    refine (wp_ask _).2 fun s₂ hrely a ha hs₃ => ?_
    have h₃ : Quiet L alone ((Act.mark (.send r)).apply s) (Ask.after (.send r) a s₂) :=
      (quiet_follows (follows hrely)).trans (quiet_after (.send r) a s₂)
    exact then_wp hs₃ (by rw [h₃.ghost]; exact h0₁) (outcome ha) (fun _ _ h => h₃.trans h)
      fun o s₄ h₄ _ _ => (Prog.wp_pure _).2 ⟨h₃.trans h₄, o, rfl⟩
  refine Prog.wp_mono_inv _ hs₁ hsend (fun answer s₂ hs₂ h₂ => ?_) fun e s₂ hs₂ h₂ => ?_
  · obtain ⟨hq₂, o, rfl⟩ := h₂
    have h0₂ : s₂.ghost.replying = none := by rw [hq₂.ghost]; exact h0₁
    cases o with
    | none => exact (wp_raise _).2 trivial
    | some o =>
      dsimp only
      rw [Prog.wp_bind]
      refine Prog.wp_mono_inv _ hs₂ (settleOutcome_wp o hs₂ h0₂) (fun confirmed s₃ hs₃ h₃ => ?_)
        fun _ _ _ _ => trivial
      obtain ⟨hc₃, status, hlive, hset⟩ := h₃
      rw [Prog.wp_bind]
      refine Prog.wp_mono_inv _ hs₃ (settled_wp h hR (hq₂.close.trans hc₃) hset hlive)
        (fun _ s₄ hs₄ h₄ => ?_) fun _ _ _ hx => hx
      split
      · exact Prog.wp_mono_inv _ hs₄ ((Safe.confirmed r confirmed R h₄.1.owing :
          Safe (quiet L alone) s₄ _) h₄.1.replying s₄ hs₄ (.refl s₄))
          (fun _ _ hs₅ h₅ => ⟨h₄.1.close h₅.close hs₅, h₅.underway.trans h₄.2⟩) fun _ _ _ _ => trivial
      · exact (Prog.wp_pure _).2 h₄
  -- What the channel threw is not known: the delivery is settled as such.
  · have h0₂ : s₂.ghost.replying = none := by rw [h₂.ghost]; exact h0₁
    rw [Prog.wp_bind]
    refine Prog.wp_mono_inv _ hs₂ (settleOutcome_wp ⟨.unknown, []⟩ hs₂ h0₂)
      (fun _ s₃ hs₃ h₃ => ?_) fun _ _ _ _ => trivial
    obtain ⟨hc₃, status, hlive, hset⟩ := h₃
    rw [Prog.wp_bind]
    exact Prog.wp_mono _ (settled_wp h hR (h₂.close.trans hc₃) hset hlive)
      (fun _ _ h₄ => (Prog.wp_pure _).2 ((Prog.wp_pure _).2 h₄)) fun _ _ hx => hx

/-- A record that is an outbound and pending one is sent. -/
theorem deliverRecord_wp (h : Sends L s₀ (r :: rest) s) :
    Prog.wp (moves L alone) (Pass.deliverRecord L r) (fun _ s' => Sends L s₀ rest s' ∧
      if toSend r = true then Logged s s' (· = .send r) ∧
        underway s'.hist = (underway s.hist).map (fun (records, sent) => (records, sent ++ [r]))
      else underway s'.hist = underway s.hist) (fun _ _ => True) s := by
  unfold Pass.deliverRecord
  split
  · rename_i d hd
    have hst : r.status = some d.status := by rw [MessageRecord.status, hd]; rfl
    split
    · rename_i hnot
      refine (Prog.wp_pure _).2 ⟨h.tail, ?_⟩
      rw [if_neg]
      simpa [toSend, hst, imp_iff_not_or] using hnot
    · rename_i hpend
      simp only [Bool.or_eq_true, decide_eq_true_eq, not_or, not_not] at hpend
      refine Prog.wp_mono _ (sendOne_wp h hpend.1 (by rw [hst, hpend.2])
        (by rw [MessageRecord.requestId, hd]; rfl)) (fun _ s' h' => ?_) fun _ _ _ => trivial
      rw [if_pos (by simp [toSend, hst, hpend])]
      exact ⟨h'.1.earlier (h.hist.trans (List.suffix_cons _ _)),
        (Logged.mark (s := s) (P := (· = .send r)) rfl).later h'.1.hist, h'.2⟩
  · rename_i hd
    refine (Prog.wp_pure _).2 ⟨h.tail, ?_⟩
    rw [if_neg (by simp [toSend, MessageRecord.status, hd])]

end Sends

/-- A delivery sends every reply that is pending as it begins, as they are listed. -/
structure Delivered (alone : Prop) (s s' : World) : Prop where
  replying : s'.ghost.replying = none
  sending : s'.ghost.sending = none
  recovering : s'.mem.recovering = none
  hist : s.hist <:+ s'.hist
  sends : alone → ∀ i x, s.disk.records.find i = some x → x.direction = .outbound →
    x.status = some .pending →
    ∃ r, Logged s s' (· = .send r) ∧ Kept x r ∧ r.delivery = x.delivery
  listed : ∃ records, underway s'.hist = some (records, records.filter toSend)

theorem deliver_wp (h0 : s.ghost.replying = none) (hsend : s.ghost.sending = none)
    (hrec : s.mem.recovering = none) :
    Prog.wp (moves L alone) (Pass.deliver L) (fun _ => Delivered alone s) (fun _ _ => True) s := by
  unfold Pass.deliver
  rw [Prog.wp_bind]
  refine wp_sync rfl fun confirmed _ hs₁ => ?_
  have h₁ : Quiet L alone s (Ask.after .listing confirmed s) := quiet_after .listing confirmed s
  refine then_wp hs₁ (by rw [h₁.ghost]; exact h0) (each fun r _ => completeReceipt r)
    (fun _ _ _ => trivial) fun _ s₂ h₂ hs₂ h0₂ => ?_
  rw [Prog.wp_bind]
  refine wp_sync rfl fun records hperm hs₃ => ?_
  have h₃ : Quiet L alone s (Ask.after .listing records s₂) :=
    (h₁.trans h₂).trans (quiet_after .listing records s₂)
  rw [Prog.wp_bind, wp_mark]
  refine ⟨.delivering records h0₂ fun r hr => Table.mem_find (hperm.mem_iff.1 hr), fun hs₄ => ?_⟩
  have hsends : Sends L s records ((Act.mark (.delivering records)).apply
      (Ask.after .listing records s₂)) :=
    ⟨hs₄, h0₂, (congrArg Ghost.sending h₃.ghost).trans hsend, h₃.recovering.trans hrec, rfl,
      fun r hr => hr, by rw [(hperm.map _).nodup_iff]; exact s₂.disk.records.nodup,
      h₃.hist.trans (List.suffix_cons _ _)⟩
  -- The records before those still to come were sent where they were pending, and no other.
  refine Prog.wp_mono _ (Prog.wp_each (P := moves L alone) (X := fun _ _ => True)
    (J := fun rest s' => Sends L s rest s' ∧ ∃ done, records = done ++ rest ∧
      underway s'.hist = some (records, done.filter toSend) ∧
      ∀ r ∈ done, toSend r = true → Logged s s' (· = .send r))
    _ (fun r rest s' h => ?_) records _ ⟨hsends, [], rfl, rfl, fun r hr => by cases hr⟩)
    (fun _ s' h => ?_) fun _ _ _ => trivial
  · obtain ⟨hsends, done, hdone, hunder, hlog⟩ := h
    refine Prog.wp_mono _ (deliverRecord_wp ({ hsends with hist := List.suffix_refl _ } : Sends L s' (r :: rest) s'))
      (fun _ s'' h' => ⟨h'.1.earlier hsends.hist, done ++ [r], by simp [hdone], ?_⟩)
      fun _ _ hx => hx
    obtain ⟨hsends', hsent⟩ := h'
    have hold : ∀ x ∈ done, toSend x = true → Logged s s'' (· = .send x) := fun x hx hto =>
      (hlog x hx hto).later hsends'.hist
    rw [List.filter_append]
    split at hsent
    · rename_i hto
      refine ⟨by rw [hsent.2, hunder]; simp [hto], fun x hx hx' => ?_⟩
      rcases List.mem_append.1 hx with hx | hx
      · exact hold x hx hx'
      · cases List.mem_singleton.1 hx
        exact hsent.1.earlier hsends.hist
    · rename_i hto
      refine ⟨by rw [hsent, hunder]; simp [hto], fun x hx hx' => ?_⟩
      rcases List.mem_append.1 hx with hx | hx
      · exact hold x hx hx'
      · cases List.mem_singleton.1 hx
        exact absurd hx' hto
  · obtain ⟨hsends, done, hdone, hunder, hlog⟩ := h
    rw [List.append_nil] at hdone
    subst hdone
    refine ⟨hsends.replying, hsends.sending, hsends.recovering, hsends.hist,
      fun ha i x hx hdir hst => ?_, records, hunder⟩
    obtain ⟨r, hr, hk, _⟩ := h₃.grows.records i x hx
    have hdel := (h₃.still ha i x r hx hr).delivery
    have hin : r ∈ records := hperm.mem_iff.2 (Table.find_mem hr)
    refine ⟨r, hlog r hin ?_, hk, hdel⟩
    rw [toSend, hk.direction, hdir, MessageRecord.status, hdel,
      show x.delivery.map (·.status) = some .pending from hst]
    rfl

/-! ## The pass -/

theorem releaseAndDeliver_wp (h : Idle s) :
    Prog.wp (moves L alone) (do
      let w ← Store.fetch L
      let reissue := w.mem.recovering.getD []
      Store.write L (.take reissue)
      Release.releasePass L reissue
      Pass.deliver L) (fun _ s' => Idle s' ∧ PassEnd L alone s s') (fun _ _ => True) s := by
  simp only [Prog.wp_bind, wp_fetch, wp_write]
  refine ⟨rfl, fun hs₂ => ?_⟩
  refine Prog.wp_mono_inv _ hs₂ (releasePass_wp hs₂ h.replying rfl rfl rfl rfl)
    (fun _ s₃ hs₃ h₃ => ?_) fun _ _ _ hx => hx
  obtain ⟨hon, hend⟩ := h₃
  refine Prog.wp_mono _ (deliver_wp (hon.replying.trans h.replying) (hon.sending.trans h.sending)
    hon.recovering) (fun _ s₄ h₄ => ⟨⟨h₄.replying, h₄.sending⟩, ?_⟩) fun _ _ hx => hx
  have hsuf : s.hist <:+ ((Act.take (s.mem.recovering.getD [])).apply s).hist :=
    List.suffix_cons _ _
  refine hend.imp (fun hh => (hh.later h₄.hist).earlier hsuf) fun htaken ha hb ids hids R hR => ?_
  intro x hx hdir hopen
  obtain ⟨⟨records, hr, h₁⟩, h₂⟩ := htaken ha hb R (by rw [hids]; exact hR) x hx hdir hopen
  exact ⟨⟨records, hr, (h₁.later h₄.hist).earlier hsuf⟩, (h₂.later h₄.hist).earlier hsuf⟩

theorem pass_wp (hs : base L s) (h : Idle s) :
    Prog.wp (moves L alone) (Pass.pass L) (fun _ s' => Idle s' ∧ PassEnd L alone s s')
      (fun _ _ => True) s := by
  have hgo : ∀ s₁, Quiet L alone s s₁ → base L s₁ → s₁.ghost.replying = none →
      Prog.wp (moves L alone) (do
        Pass.captureBatch L
        let w ← Store.fetch L
        let reissue := w.mem.recovering.getD []
        Store.write L (.take reissue)
        Release.releasePass L reissue
        Pass.deliver L) (fun _ s' => Idle s' ∧ PassEnd L alone s s') (fun _ _ => True) s₁ := by
    intro s₁ h₁ hs₁ h0₁
    refine then_wp hs₁ h0₁ captureBatch (fun _ _ _ => trivial) fun _ s₂ h₂ hs₂ _ => ?_
    have h02 := h₁.trans h₂
    refine Prog.wp_mono _ (releaseAndDeliver_wp (h.quiet h02)) (fun _ s' h' => ⟨h'.1, ?_⟩)
      fun _ _ hx => hx
    refine h'.2.imp (·.earlier h02.hist) fun htaken ha hb ids hids R hR => ?_
    exact (htaken ha hb ids (h02.recovering.trans hids) R hR).earlier ha h02 hb hids
  unfold Pass.pass
  refine then_wp hs h.replying Safe.poll (fun _ _ _ => trivial) fun holding s₁ h₁ hs₁ h0₁ => ?_
  split
  · unfold Turn.discard Release.holds
    rw [Prog.wp_bind', Prog.wp_bind, wp_mark]
    refine ⟨.holds, fun _ => (Prog.wp_pure _).2 ((Prog.wp_pure _).2 ⟨?_, ?_⟩)⟩
    · exact (h.quiet h₁).quiet (quiet_mark fun _ => rfl : Quiet L alone s₁ _)
    · exact .inl ((Logged.mark (.inl rfl)).earlier h₁.hist)
  · rw [Prog.wp_bind, wp_fetch]
    by_cases hrec : s₁.mem.recovering.isSome = true
    · rw [if_pos hrec]
      exact then_wp hs₁ h0₁ inspectBrowserRecovery (fun _ _ _ => trivial) fun _ s₂ h₂ hs₂ h0₂ =>
        hgo s₂ (h₁.trans h₂) hs₂ h0₂
    · rw [if_neg hrec]
      exact hgo s₁ h₁ hs₁ h0₁

theorem between (calls : List Call) : Safe F s₀ (Pass.between L calls) := by
  unfold Pass.between
  refine cond (fun hc => runCalls fun c hm => ?_) fun _ => pure _
  simpa using List.all_eq_true.1 hc c hm

/-! ## A start -/

theorem boot_wp (hg : s.ghost = {}) (hm : s.mem = {}) :
    Prog.wp (moves L alone) (Pass.boot L) (fun _ s' => Idle s') (fun _ _ => True) s := by
  have h0 : s.ghost.replying = none := by rw [hg]
  unfold Pass.boot
  rw [Prog.wp_bind, wp_mark]
  refine ⟨.started hg hm, fun hs₁ => ?_⟩
  have hlatch : Safe (quiet L alone) ((Act.mark .started).apply s) (Pass.refuseIfLatched L) :=
    fetch fun _ _ _ => cond (fun _ => raise _) fun _ => pure _
  refine then_wp hs₁ h0 hlatch (fun _ _ _ => trivial) fun _ s₂ h₂ hs₂ h0₂ => ?_
  have ho : ¬ Owing ((Act.mark .started).apply s) := by
    rintro (hne | hne)
    · exact hne (by show s.mem.recovering = none; rw [hm])
    · exact hne (by show s.ghost.reissuing = []; rw [hg])
  rw [Prog.wp_bind]
  refine Prog.wp_mono_inv _ hs₂ (recover_wp hs₂ h0₂ (h₂.close.owing.not.2 ho))
    (fun reissue s₃ hs₃ h₃ => ?_) fun _ _ _ hx => hx
  have hc := h₂.close.trans h₃.1
  have hhand : s₃.ghost.handed = none := by
    have := hc.handed
    rw [show ((Act.mark .started).apply s).ghost.handed = none by
      show s.ghost.handed = none; rw [hg]] at this
    simpa using this
  have hstarted : s₃.ghost.started = true := by rw [hc.ghost]; rfl
  simp only [Turn.setMem, Prog.wp_bind, wp_fetch, wp_write]
  refine ⟨⟨.inr ⟨reissue, rfl, hc.owing.not.2 ho, hstarted, hhand, h₃.2⟩, ⟨fun r hr => hs₃.group r hr, fun _ => rfl⟩,
    hs₃.browserActive⟩, fun _ => ⟨?_, ?_⟩⟩
  · exact hc.replying.trans h0
  · exact hc.sending.trans (by show s.ghost.sending = none; rw [hg])

end Safe

end CarbonRuntime.Moves
