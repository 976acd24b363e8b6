import CarbonRuntime.Runtime.SafeRelease

/-!
# The groups of a pass keep to the moves

How a pass makes its groups and goes through them. No answer is awaited between
the listing and the last group, so every record is in its group as it is on disk
(`Placed`); what a group that waits may rely on once others were released is
`Waits`. `Reissued` is what becomes of a group that was re-issued: it is handed
over and its release takes its turn, unless the pass logs what hinders it.
-/

open CarbonRuntime.Core CarbonRuntime.Stream

namespace CarbonRuntime.Moves

open Store Policy Turn Release

variable {L : Loop} {alone : Prop} {s₀ s s' : World} {X : Err → World → Prop}

/-! ## Groups -/

/-- The records of the groups, group after group. -/
def grouped (groups : List Group) : List MessageRecord := groups.flatMap (·.records)

theorem mem_grouped {groups : List Group} {r : MessageRecord} :
    r ∈ grouped groups ↔ ∃ g ∈ groups, r ∈ g.records := List.mem_flatMap

theorem grouped_addTo (g : Group) (groups : List Group) :
    (grouped (addTo g groups)).Perm (grouped groups ++ g.records) := by
  induction groups with
  | nil => simp [addTo, grouped]
  | cons h groups ih =>
    rw [addTo]
    split
    · simp only [grouped, List.flatMap_cons, List.append_assoc]
      exact List.Perm.append_left _ List.perm_append_comm
    · simp only [grouped, List.flatMap_cons, List.append_assoc]
      exact List.Perm.append_left _ ih

/-- A group of `addTo` is one that was there, with more records where it has the key. -/
theorem mem_addTo {g h : Group} {groups : List Group} (hm : h ∈ addTo g groups) :
    h ∈ groups ∨ h = g ∨
      ∃ k ∈ groups, k.key = g.key ∧ h = { k with records := k.records ++ g.records } := by
  induction groups with
  | nil => exact .inr (.inl (by simpa [addTo] using hm))
  | cons k groups ih =>
    rw [addTo] at hm
    split at hm
    · rename_i hk
      rcases List.mem_cons.1 hm with rfl | hm
      · exact .inr (.inr ⟨k, .head _, hk, rfl⟩)
      · exact .inl (.tail _ hm)
    · rcases List.mem_cons.1 hm with rfl | hm
      · exact .inl (.head _)
      · rcases ih hm with h | h | ⟨k', hk', h⟩
        · exact .inl (.tail _ h)
        · exact .inr (.inl h)
        · exact .inr (.inr ⟨k', .tail _ hk', h⟩)

theorem addTo_self (g : Group) (groups : List Group) :
    ∃ h ∈ addTo g groups, h.key = g.key ∧ ∀ r ∈ g.records, r ∈ h.records := by
  induction groups with
  | nil => exact ⟨g, by simp [addTo], rfl, fun _ hr => hr⟩
  | cons k groups ih =>
    rw [addTo]
    split
    · rename_i hk
      exact ⟨_, .head _, hk, fun r hr => List.mem_append_right _ hr⟩
    · obtain ⟨h, hm, hrest⟩ := ih
      exact ⟨h, .tail _ hm, hrest⟩

theorem addTo_old (g : Group) {k : Group} {groups : List Group} (hk : k ∈ groups) :
    ∃ h ∈ addTo g groups, h.key = k.key ∧ ∀ r ∈ k.records, r ∈ h.records := by
  induction groups with
  | nil => cases hk
  | cons k' groups ih =>
    rw [addTo]
    split
    · rcases List.mem_cons.1 hk with rfl | hk
      · exact ⟨_, .head _, rfl, fun r hr => List.mem_append_left _ hr⟩
      · exact ⟨k, .tail _ hk, rfl, fun _ hr => hr⟩
    · rcases List.mem_cons.1 hk with rfl | hk
      · exact ⟨k, .head _, rfl, fun _ hr => hr⟩
      · obtain ⟨h, hm, hrest⟩ := ih hk
        exact ⟨h, .tail _ hm, hrest⟩

/-- What a group's key says of the group. -/
structure Keyed (reissued : List String) (g : Group) : Prop where
  reissue : ∀ R, g.key = .reissue R → g.reissue = true ∧ g.releaseId = some R ∧ R ∈ reissued ∧
    ∀ r ∈ g.records, r.openRelease = some R
  fresh : (∀ R, g.key ≠ .reissue R) → g.reissue = false ∧
    ∀ r ∈ g.records, r.disposition ≠ .parked ∧ r.release = none

theorem Keyed.addTo {reissued : List String} {g : Group} {groups : List Group}
    (hg : Keyed reissued g) (h : ∀ k ∈ groups, Keyed reissued k) :
    ∀ k ∈ addTo g groups, Keyed reissued k := by
  intro k hk
  rcases mem_addTo hk with hk | rfl | ⟨k', hk', hkey, rfl⟩
  · exact h k hk
  · exact hg
  · refine ⟨fun R hR => ?_, fun hne => ?_⟩
    · obtain ⟨h₁, h₂, h₃, h₄⟩ := (h k' hk').reissue R hR
      obtain ⟨_, _, _, h₅⟩ := hg.reissue R (hkey ▸ hR)
      exact ⟨h₁, h₂, h₃, fun r hr => (List.mem_append.1 hr).elim (h₄ r) (h₅ r)⟩
    · obtain ⟨h₁, h₂⟩ := (h k' hk').fresh hne
      obtain ⟨_, h₃⟩ := hg.fresh (hkey ▸ hne)
      exact ⟨h₁, fun r hr => (List.mem_append.1 hr).elim (h₂ r) (h₃ r)⟩

theorem Keyed.isReissue {reissued : List String} {g : Group} (h : Keyed reissued g)
    (hr : g.reissue = true) : ∃ R ∈ reissued, g.key = .reissue R ∧ g.releaseId = some R ∧
      ∀ r ∈ g.records, r.openRelease = some R := by
  by_contra hne
  have hf : g.reissue = false := (h.fresh fun R hR => hne (by
    obtain ⟨_, h₂, h₃, h₄⟩ := h.reissue R hR
    exact ⟨R, h₃, hR, h₂, h₄⟩)).1
  rw [hr] at hf
  cases hf

/-! ## Making the groups -/

/-- What is known after some of the candidates `all` were placed: `rest` is still to come. -/
structure Placed (L : Loop) (alone : Prop) (reissued : List String) (all : List MessageRecord)
    (s : World) (groups : List Group) (rest : List MessageRecord) (s' : World) : Prop where
  quiet : Quiet L alone s s'
  base : base L s'
  keyed : ∀ g ∈ groups, Keyed reissued g
  there : ∀ r ∈ grouped groups ++ rest, s'.disk.records.find r.id = some r ∧ r.direction = .inbound
  nodup : ((grouped groups ++ rest).map (·.id)).Nodup
  all : L.browser = false → ∀ r ∈ all, r ∈ rest ∨ ∀ R ∈ reissued, r.openRelease = some R →
    ∃ g ∈ groups, g.key = .reissue R ∧ r ∈ g.records

section Placed
variable {reissued : List String} {all : List MessageRecord} {groups : List Group}
  {r : MessageRecord} {rest : List MessageRecord}

/-- A candidate is left out, the other records as they were. -/
theorem Placed.skip (h : Placed L alone reissued all s groups (r :: rest) s₀)
    (hq : Quiet L alone s₀ s') (hs : Moves.base L s')
    (hsame : ∀ i, i ≠ r.id → s'.disk.records.find i = s₀.disk.records.find i)
    (hout : L.browser = false → ∀ R ∈ reissued, r.openRelease ≠ some R) :
    Placed L alone reissued all s groups rest s' := by
  have hnd := h.nodup
  rw [List.map_append, List.map_cons, List.nodup_middle, List.nodup_cons] at hnd
  refine ⟨h.quiet.trans hq, hs, h.keyed, fun x hx => ?_, ?_, fun hb x hx => ?_⟩
  · have hx' := h.there x (by simp only [List.mem_append, List.mem_cons] at hx ⊢; tauto)
    rw [hsame]
    · exact hx'
    · intro he
      exact hnd.1 (by rw [← he, ← List.map_append]; exact List.mem_map_of_mem hx)
  · rw [List.map_append]
    exact hnd.2
  · rcases h.all hb x hx with hx | hx
    · rcases List.mem_cons.1 hx with rfl | hx
      · exact .inr fun R hR ho => absurd ho (hout hb R hR)
      · exact .inl hx
    · exact .inr hx

/-- A candidate is put into its group. -/
theorem Placed.add {g : Group} (h : Placed L alone reissued all s groups (r :: rest) s₀)
    (hg : Keyed reissued g) (hrec : g.records = [r])
    (hin : ∀ R ∈ reissued, r.openRelease = some R → g.key = .reissue R) :
    Placed L alone reissued all s (addTo g groups) rest s₀ := by
  have hperm : (grouped (addTo g groups) ++ rest).Perm (grouped groups ++ (r :: rest)) := by
    refine ((grouped_addTo g groups).append_right rest).trans ?_
    rw [hrec, List.append_assoc]
    rfl
  refine ⟨h.quiet, h.base, hg.addTo h.keyed, fun x hx => h.there x (hperm.mem_iff.1 hx),
    ((hperm.map _).nodup_iff).2 h.nodup, fun hb x hx => ?_⟩
  rcases h.all hb x hx with hx | hx
  · rcases List.mem_cons.1 hx with rfl | hx
    · refine .inr fun R hR ho => ?_
      obtain ⟨k, hk, hkey, hin'⟩ := addTo_self g groups
      exact ⟨k, hk, hkey.trans (hin R hR ho), hin' _ (by rw [hrec]; exact .head _)⟩
    · exact .inl hx
  · refine .inr fun R hR ho => ?_
    obtain ⟨k, hk, hkey, hxk⟩ := hx R hR ho
    obtain ⟨k', hk', hkey', hin'⟩ := addTo_old g hk
    exact ⟨k', hk', hkey'.trans hkey, hin' x hxk⟩

end Placed

namespace Safe

theorem browserHeld_wp (conversationId : String) {Q : Bool → World → Prop} (hX : ∀ e, X e s)
    (h : ∀ held, (held = true → L.browser = true) → Q held s) :
    Prog.wp (moves L alone) (Release.browserHeld L conversationId) Q X s := by
  unfold Release.browserHeld
  split
  · rename_i hb
    rw [Prog.wp_bind]
    exact wp_recordsIn _ hX fun records _ => (Prog.wp_pure _).2 (h _ fun _ => hb)
  · exact (Prog.wp_pure _).2 (h _ fun hf => by cases hf)

theorem policyDecision_wp (r : MessageRecord) (t : Int) {Q : Decision → World → Prop}
    (hX : ∀ e, X e s) (h : ∀ d, Q d s) :
    Prog.wp (moves L alone) (Policy.policyDecision L r t) Q X s := by
  unfold Policy.policyDecision
  split
  · exact (Prog.wp_pure _).2 (h _)
  · rw [Prog.wp_bind]
    refine wp_recordsIn _ hX fun records _ => ?_
    split
    · exact (Prog.wp_pure _).2 (h _)
    · exact (Prog.wp_pure _).2 (h _)
  · split
    · exact (Prog.wp_pure _).2 (h _)
    · exact (Prog.wp_pure _).2 (h _)
  · exact (wp_raise _).2 (hX _)

/-- The release decision reads only, and takes no parked record and no released one. -/
theorem releaseDecision_wp (r : MessageRecord) (t : Int) {Q : Decision → World → Prop}
    (hX : ∀ e, X e s)
    (h : ∀ d : Decision, (d.release = true → r.disposition ≠ .parked ∧ r.release = none) → Q d s) :
    Prog.wp (moves L alone) (Policy.releaseDecision L r t) Q X s := by
  have hno : ∀ reason, Q ⟨false, reason⟩ s := fun reason => h _ fun hf => by cases hf
  unfold Policy.releaseDecision
  split
  · exact (Prog.wp_pure _).2 (hno _)
  split
  · exact (Prog.wp_pure _).2 (hno _)
  split
  · exact (Prog.wp_pure _).2 (hno _)
  rename_i hparked
  split
  · exact (Prog.wp_pure _).2 (hno _)
  rename_i hrel
  have hyes : ∀ d, Q d s := fun d => h d fun _ => ⟨hparked, by simpa using hrel⟩
  split
  · split
    · exact (Prog.wp_pure _).2 (hno _)
    · rw [Prog.wp_bind]
      refine wp_recordsIn _ hX fun records _ => ?_
      split
      · exact (Prog.wp_pure _).2 (hno _)
      · exact policyDecision_wp r t hX hyes
  · exact policyDecision_wp r t hX hyes

/-- A record whose unit is not known is parked before any group is handed over. -/
theorem parkPlaced_wp {r : MessageRecord} {faults : List Fault} {Q : World → Prop} (hs : base L s)
    (hr : s.disk.records.find r.id = some r) (hdir : r.direction = .inbound)
    (hrel : r.release = none) (hw : s.ghost.waiting = []) (hX : ∀ e s', X e s')
    (h : ∀ s', Quiet L alone s s' → base L s' →
      (∀ i, i ≠ r.id → s'.disk.records.find i = s.disk.records.find i) → Q s') :
    Prog.wp (moves L alone) (Turn.parkRead L r.id faults none) (fun _ => Q) X s := by
  unfold Turn.parkRead
  simp only [Store.read, Prog.wp_bind, wp_refuse, wp_fetch, Prog.wp_pure]
  refine ⟨fun _ => ?_, fun _ => hX _ _⟩
  split
  · exact (wp_raise _).2 (hX _ _)
  · rw [Turn.discard, Prog.wp_bind']
    refine wp_rewrite _ _ hs trivial (fun e => hX _ _) fun old new s₁ hold hnew h₁ hs₁ => ?_
    rw [hr] at hold
    cases hold
    have hkept : Kept r new := by rw [Kept, hnew.eq]; rfl
    have hid : new.id = r.id := hkept.id
    have hold₁ : s₁.disk.records.find new.id = some r := by rw [h₁.records, hid]; exact hr
    have hwr : Rewrite L alone s₁ r new :=
      .parked hdir (by rw [hnew.eq]; rfl) (by rw [hnew.eq]; rfl) (by rw [hnew.eq]; rfl)
        (.inr ⟨hrel, by rw [h₁.ghost]; exact hw⟩)
    refine ⟨.rewritten r hold₁ hkept hwr, fun hs₂ => (Prog.wp_pure _).2 (h _ ?_ hs₂ fun i hi => ?_)⟩
    · exact (quiet_seqOnly h₁).trans (quiet_rewrite hs₁ hold₁ hkept hwr (by rw [hnew.eq]; rfl))
    · rw [Act.apply, World.putRecord_disk, ← h₁.records]
      exact Table.find_put_other _ _ (by rw [hid]; exact hi)

theorem groupKey_fresh (r : MessageRecord) (unitId R : String) :
    Release.groupKey L r unitId ≠ .reissue R := by
  unfold Release.groupKey
  split
  · simp
  · split <;> simp

theorem place_wp {reissued : List String} {all : List MessageRecord} {groups : List Group}
    {r : MessageRecord} {rest : List MessageRecord} {t : Int} (hw : s.ghost.waiting = [])
    (hX : ∀ e s', X e s')
    (h : Placed L alone reissued all s groups (r :: rest) s') :
    Prog.wp (moves L alone) (Release.place L reissued t groups r)
      (fun groups' => Placed L alone reissued all s groups' rest) X s' := by
  obtain ⟨hr, hdir⟩ := h.there r (by simp)
  unfold Release.place
  rw [Prog.wp_bind]
  refine browserHeld_wp _ (fun _ => hX _ _) fun held hheld => ?_
  split
  · rename_i hh
    exact (Prog.wp_pure _).2 (h.skip (.refl _) h.base (fun _ _ => rfl) fun hb => by
      rw [hheld hh] at hb
      cases hb)
  split
  · rename_i R hR
    rw [Option.filter_eq_some_iff] at hR
    obtain ⟨hopen, hmem⟩ := hR
    refine (Prog.wp_pure _).2 (h.add ⟨fun R' hR' => ?_, fun hne => absurd rfl (hne R)⟩ rfl
      fun R' _ ho => ?_)
    · cases hR'
      exact ⟨rfl, rfl, by simpa using hmem, by simpa using hopen⟩
    · rw [hopen] at ho
      cases ho
      rfl
  · rename_i hnone
    have hout : ∀ R ∈ reissued, r.openRelease ≠ some R := by
      intro R hR ho
      rw [ho] at hnone
      simp [hR] at hnone
    rw [Prog.wp_bind]
    refine releaseDecision_wp r t (fun _ => hX _ _) fun d hd => ?_
    split
    · exact (Prog.wp_pure _).2 (h.skip (.refl _) h.base (fun _ _ => rfl) fun _ => hout)
    rename_i hrel
    have hfree := hd (by simpa using hrel)
    split
    · refine (Prog.wp_pure _).2 (h.add ⟨fun R hR => absurd hR (groupKey_fresh _ _ _), fun _ =>
        ⟨rfl, by simpa using hfree⟩⟩ rfl fun R hR ho => absurd ho (hout R hR))
    · split
      · split
        · exact (wp_raise _).2 (hX _ _)
        · rw [Prog.wp_bind]
          refine parkPlaced_wp h.base hr hdir hfree.2 (by rw [h.quiet.ghost]; exact hw) hX
            fun s₁ h₁ hs₁ hsame => (Prog.wp_pure _).2 (h.skip h₁ hs₁ hsame fun _ => hout)
      · exact (wp_raise _).2 (hX _ _)

end Safe

/-! ## The groups that wait -/

/-- What a pass leaves as it was from its first group on. -/
structure Onward (s s' : World) : Prop where
  grows : Grows s.disk s'.disk
  replying : s'.ghost.replying = s.ghost.replying
  sending : s'.ghost.sending = s.ghost.sending
  recovering : s'.mem.recovering = s.mem.recovering
  owing : Owing s' → Owing s
  hist : s.hist <:+ s'.hist

theorem Onward.trans {s₁ : World} (h : Onward s s₁) (h' : Onward s₁ s') : Onward s s' :=
  ⟨h.grows.trans h'.grows, h'.replying.trans h.replying, h'.sending.trans h.sending,
    h'.recovering.trans h.recovering, fun ho => h.owing (h'.owing ho), h.hist.trans h'.hist⟩

theorem Close.onward (h : Close L s s') : Onward s s' :=
  ⟨h.grows, h.replying, h.sending, h.recovering, h.owing.1, h.hist⟩

theorem onward_hand (records : List MessageRecord) (R : String) (reissue : Bool) :
    Onward s ((Act.hand records R reissue).apply s) :=
  ⟨.refl _, rfl, rfl, rfl, id, List.suffix_cons _ _⟩

/-- What the groups that were not handed over yet may rely on. -/
structure Waits (L : Loop) (groups : List Group) (s : World) : Prop where
  waiting : ∀ g ∈ groups, g.records ∈ s.ghost.waiting
  there : ∀ g ∈ groups, ∀ r ∈ g.records, ∃ x, s.disk.records.find r.id = some x ∧
    x.direction = .inbound ∧ Kept r x
  reissued : ∀ g ∈ groups, g.reissue = true → L.browser = false ∧
    ∀ r ∈ g.records, Released s r.id
  apart : groups.Pairwise fun g h => ∀ r ∈ g.records, ∀ x ∈ h.records, r.id ≠ x.id
  owing : ¬ Owing s

theorem Waits.grows {groups : List Group} (h : Waits L groups s) (hg : Grows s.disk s'.disk)
    (hw : s'.ghost.waiting = s.ghost.waiting) (ho : Owing s' → Owing s) : Waits L groups s' where
  waiting g hm := by rw [hw]; exact h.waiting g hm
  there g hm r hr := by
    obtain ⟨x, hx, hdir, hk⟩ := h.there g hm r hr
    obtain ⟨x', hx', hk', _⟩ := hg.records _ x hx
    exact ⟨x', hx', hk'.direction.trans hdir, hk.trans hk'⟩
  reissued g hm hre :=
    ⟨(h.reissued g hm hre).1, fun r hr => ((h.reissued g hm hre).2 r hr).grows hg⟩
  apart := h.apart
  owing := fun hs' => h.owing (ho hs')

theorem Waits.close {groups : List Group} (h : Waits L groups s) (hc : Close L s s') :
    Waits L groups s' := h.grows hc.grows hc.waiting hc.owing.1

theorem Waits.tail {g : Group} {groups : List Group} (h : Waits L (g :: groups) s) :
    Waits L groups s where
  waiting k hk := h.waiting k (.tail _ hk)
  there k hk := h.there k (.tail _ hk)
  reissued k hk := h.reissued k (.tail _ hk)
  apart := (List.pairwise_cons.1 h.apart).2
  owing := h.owing

/-- The groups behind the one handed over wait on. -/
theorem Waits.hand {g : Group} {groups : List Group} {records : List MessageRecord} (R : String)
    (reissue : Bool) (h : Waits L (g :: groups) s)
    (hsub : ∀ r ∈ records, ∃ x ∈ g.records, x.id = r.id) :
    Waits L groups ((Act.hand records R reissue).apply s) where
  waiting k hk := by
    refine List.mem_filter.2 ⟨h.waiting k (.tail _ hk), List.all_eq_true.2 fun x hx => ?_⟩
    rw [decide_eq_true_iff, List.mem_map]
    rintro ⟨r, hr, he⟩
    obtain ⟨y, hy, hyr⟩ := hsub r hr
    exact (List.pairwise_cons.1 h.apart).1 k hk y hy x hx (hyr.trans he)
  there k hk := h.there k (.tail _ hk)
  reissued k hk := h.reissued k (.tail _ hk)
  apart := (List.pairwise_cons.1 h.apart).2
  owing := h.owing

/-- What keeps a pass from taking the turn of a group. -/
def Hinders (e : Event) : Prop := e = .holds ∨ e = .stops ∨ e = .faulted

/-- A group that was re-issued was handed over and its release took its turn. -/
def Reissued (s₀ s : World) (g : Group) : Prop :=
  ∀ R, g.releaseId = some R → g.reissue = true → g.records ≠ [] →
    Logged s₀ s (· = .handed g.records R true) ∧ Logged s₀ s (TookTurn R)

/-- Between two rounds over the groups `all`, of which `rest` are still to come. -/
structure Rounds (L : Loop) (all : List Group) (s₀ : World) (rest : List Group) (s : World) :
    Prop where
  base : base L s
  replying : s.ghost.replying = none
  waits : Waits L rest s
  onward : Onward s₀ s
  reissued : Logged s₀ s Hinders ∨ ∀ g ∈ all, g ∈ rest ∨ Reissued s₀ s g

namespace Safe

/-! ## Handing a group over -/

theorem releaseGroup_wp {record : MessageRecord} {more : List MessageRecord} {g : Group}
    (h0 : s.ghost.replying = none)
    (hm : HandMove L s (record :: more) g.reissue)
    (hre : g.reissue = true → ∀ r ∈ record :: more, Released s r.id) :
    Prog.wp (moves L alone) (Release.releaseGroup L record (record :: more) g)
      (fun _ s' => Close L ((Act.hand (record :: more) (g.releaseId.getD (releaseIdFor record))
          g.reissue).apply s) s' ∧
        Logged s s' (fun e => Hinders e ∨ TookTurn (g.releaseId.getD (releaseIdFor record)) e))
      (fun _ _ => True) s := by
  unfold Release.releaseGroup
  rw [Prog.wp_bind, wp_write]
  refine ⟨hm, fun hs₁ => ?_⟩
  have hsuf : s.hist <:+ ((Act.hand (record :: more) (g.releaseId.getD (releaseIdFor record))
      g.reissue).apply s).hist := List.suffix_cons _ _
  have hin : InRelease L record (record :: more) (g.releaseId.getD (releaseIdFor record))
      ((Act.hand (record :: more) (g.releaseId.getD (releaseIdFor record)) g.reissue).apply s) :=
    ⟨⟨_, rfl, rfl, rfl, rfl⟩, fun r hr => ⟨_, rfl, List.mem_map_of_mem hr⟩, fun _ => rfl⟩
  rw [Prog.wp_handle]
  refine Prog.wp_mono_inv _ hs₁ (releaseOne_wp hs₁ h0 hin hre) (fun taken s₂ _ h₂ => ⟨h₂.1, ?_⟩)
    fun e s₂ hs₂ h₂ => ?_
  · obtain ⟨new, hnew, e, he, hcame⟩ := h₂.2.earlier hsuf
    refine ⟨new, hnew, e, he, ?_⟩
    split at hcame
    · exact .inr hcame
    · exact .inl (.inl hcame)
  · split
    · rename_i faults _ _
      split
      · exact (wp_raise _).2 trivial
      · have h0₂ : s₂.ghost.replying = none := h₂.replying.trans h0
        have ho₂ : ¬ Owing s₂ := (h₂.owing).not.2 hm.owing
        rw [Prog.wp_bind, wp_mark]
        refine ⟨.faulted, fun hs₃ => ?_⟩
        have hmark : Close L s₂ ((Act.mark .faulted).apply s₂) := close_mark fun _ => rfl
        rw [Prog.wp_bind]
        have hpark : Safe (quiet L alone) ((Act.mark .faulted).apply s₂)
            (Release.parkGroup L faults) := parkGroup _ (hmark.owing.not.2 ho₂)
        refine Prog.wp_mono _ (hpark h0₂ _ hs₃ (.refl _))
          (fun _ s₄ h₄ => (Prog.wp_pure _).2 ⟨(h₂.trans hmark).trans h₄.close, ?_⟩)
          fun _ _ _ => trivial
        exact ((Logged.mark (.inl (.inr (.inr rfl)))).earlier (hsuf.trans h₂.hist)).later h₄.hist
    · exact (wp_raise _).2 trivial

/-- What `refresh` keeps is on disk as it answers it, and was not released. -/
theorem refresh_wp {records : List MessageRecord} {Q : List MessageRecord → World → Prop}
    (hX : ∀ e s', X e s')
    (h : ∀ kept, (∀ r ∈ kept, (∃ x ∈ records, x.id = r.id) ∧
      s.disk.records.find r.id = some r ∧ r.release = none) → Q kept s) :
    Prog.wp (moves L alone) (Release.refresh L records) Q X s := by
  unfold Release.refresh
  let J : List MessageRecord → List MessageRecord → World → Prop := fun kept rest s' =>
    s' = s ∧ (∀ r ∈ rest, r ∈ records) ∧ ∀ r ∈ kept, (∃ x ∈ records, x.id = r.id) ∧
      s.disk.records.find r.id = some r ∧ r.release = none
  have hJ : J [] records s := ⟨rfl, fun _ hr => hr, by simp⟩
  refine Prog.wp_mono _ (Prog.wp_fold (P := moves L alone) (J := J) (X := X) _ (fun kept r rest s' hj => ?_) records
    [] s hJ)
    (fun kept s' hj => ?_) fun _ _ hx => hx
  · obtain ⟨rfl, hrest, hkept⟩ := hj
    simp only [Store.read, Prog.wp_bind, wp_refuse, wp_fetch, Prog.wp_pure]
    refine ⟨fun _ => ?_, fun _ => hX _ _⟩
    split
    · exact (wp_raise _).2 (hX _ _)
    · rename_i x hx
      have hid := Table.find_key hx
      refine (Prog.wp_pure _).2 ⟨rfl, fun y hy => hrest y (.tail _ hy), fun y hy => ?_⟩
      split at hy
      · rename_i hfree
        rcases List.mem_append.1 hy with hy | hy
        · exact hkept y hy
        · rw [List.mem_singleton] at hy
          subst hy
          rw [Bool.and_eq_true] at hfree
          exact ⟨⟨r, hrest r (.head _), hid.symm⟩, by rw [hid]; exact hx, by simpa using hfree.1⟩
      · exact hkept y hy
  · obtain ⟨rfl, _, hkept⟩ := hj
    exact h kept hkept

/-! ## The rounds -/

section round
variable {all rest : List Group} {g : Group}

/-- A round that leaves its group to a later pass. -/
theorem rounds_skip (h : Rounds L all s₀ (g :: rest) s) (hskip : g.reissue = true → g.records = []) :
    Rounds L all s₀ rest s where
  base := h.base
  replying := h.replying
  waits := h.waits.tail
  onward := h.onward
  reissued := h.reissued.imp_right fun hall k hk => by
    rcases hall k hk with hk | hk
    · rcases List.mem_cons.1 hk with rfl | hk
      · exact .inr fun R _ hr hne => absurd (hskip hr) hne
      · exact .inl hk
    · exact .inr hk

theorem logged_or {P Q : Event → Prop} (h : Logged s s' fun e => P e ∨ Q e) :
    Logged s s' P ∨ Logged s s' Q := by
  obtain ⟨new, hnew, e, he, hP | hQ⟩ := h
  · exact .inl ⟨new, hnew, e, he, hP⟩
  · exact .inr ⟨new, hnew, e, he, hQ⟩

/-- The group of a round was handed over. -/
theorem rounds_hand {record : MessageRecord} {more : List MessageRecord}
    (h : Rounds L all s₀ (g :: rest) s) (hs' : base L s')
    (hsub : ∀ r ∈ record :: more, ∃ x ∈ g.records, x.id = r.id)
    (hrec : g.reissue = true → record :: more = g.records)
    (hclose : Close L ((Act.hand (record :: more) (g.releaseId.getD (releaseIdFor record))
      g.reissue).apply s) s')
    (hcame : Logged s s' fun e =>
      Hinders e ∨ TookTurn (g.releaseId.getD (releaseIdFor record)) e) :
    Rounds L all s₀ rest s' where
  base := hs'
  replying := hclose.replying.trans h.replying
  waits := (h.waits.hand _ _ hsub).close hclose
  onward := h.onward.trans ((onward_hand _ _ _).trans hclose.onward)
  reissued := by
    have hsuf : s.hist <:+ s'.hist := ((onward_hand _ _ _).trans hclose.onward).hist
    rcases h.reissued with hh | hall
    · exact .inl (hh.later hsuf)
    rcases logged_or (hcame.earlier h.onward.hist) with hh | htook
    · exact .inl hh
    refine .inr fun k hk => ?_
    rcases hall k hk with hk | hk
    · rcases List.mem_cons.1 hk with rfl | hk
      · refine .inr fun R hR hr _ => ?_
        rw [hR, Option.getD_some] at htook hclose
        rw [hrec hr, hr] at hclose
        have hlog : Logged s ((Act.hand k.records R true).apply s)
            (· = .handed k.records R true) :=
          ⟨[⟨_, s.disk, s.clock⟩], rfl, _, List.mem_cons_self, rfl⟩
        exact ⟨(hlog.earlier h.onward.hist).later hclose.hist, htook⟩
      · exact .inl hk
    · refine .inr fun R hR hr hne => ?_
      obtain ⟨h₁, h₂⟩ := hk R hR hr hne
      exact ⟨h₁.later hsuf, h₂.later hsuf⟩

/-- What `round` does once it has the records. -/
def handing (L : Loop) (g : Group) (records : List MessageRecord) : Program L Bool :=
  match records with
  | [] => Pure.pure true
  | record :: more => do
    let taken ← Release.releaseGroup L record (record :: more) g
    let w ← Store.fetch L
    if taken && w.mem.toolStatusStale then do
      Release.readToolServerStatus L
      let w ← Store.fetch L
      if w.mem.holdFaults = [] then Pure.pure true else Release.holds L
    else Pure.pure true

theorem round_wp (h : Rounds L all s₀ (g :: rest) s) :
    Prog.wp (moves L alone) (Release.round L g)
      (fun more s' => if more = true then Rounds L all s₀ rest s'
        else base L s' ∧ Onward s₀ s' ∧ Logged s₀ s' Hinders) (fun _ _ => True) s := by
  unfold Release.round
  rw [Prog.wp_bind]
  refine wp_sync rfl fun stop _ _ => ?_
  dsimp only [Ask.after]
  split
  · rw [Prog.wp_bind, wp_mark]
    refine ⟨.stops, fun hs₁ => (Prog.wp_pure _).2 ?_⟩
    have hc : Close L s ((Act.mark .stops).apply s) := close_mark fun _ => rfl
    exact ⟨hs₁, h.onward.trans hc.onward,
      (Logged.mark (.inr (.inl rfl))).earlier h.onward.hist⟩
  rw [Prog.wp_bind]
  refine browserHeld_wp _ (fun _ => trivial) fun held hheld => ?_
  split
  · rename_i hh
    refine (Prog.wp_pure _).2 (rounds_skip h fun hr => ?_)
    have hb := (h.waits.reissued g (.head _) hr).1
    rw [hheld hh] at hb
    cases hb
  -- A re-issued group is handed over as it was made, of any other what is not released yet.
  have hgo : ∀ records, (∀ r ∈ records, (∃ x ∈ g.records, x.id = r.id) ∧
      ∃ x, s.disk.records.find r.id = some x ∧ x.direction = .inbound ∧ Kept r x ∧
        (L.browser = true → x.release = none)) → (L.browser = false → records = g.records) →
      (g.reissue = true → records = g.records) →
      Prog.wp (moves L alone) (handing L g records)
        (fun more s' => if more = true then Rounds L all s₀ rest s'
          else base L s' ∧ Onward s₀ s' ∧ Logged s₀ s' Hinders) (fun _ _ => True) s := by
    intro records hrecords hplain hre
    unfold handing
    cases records with
    | nil => exact (Prog.wp_pure _).2 (rounds_skip h fun hr => (hre hr).symm)
    | cons record more =>
      dsimp only
      have hm : HandMove L s (record :: more) g.reissue := by
        refine ⟨⟨g.records, h.waits.waiting g (.head _), fun r hr => (hrecords r hr).1⟩, fun r hr => ?_,
          fun hb _ r hr x hx => ?_, fun hr => (h.waits.reissued g (.head _) hr).1, h.waits.owing⟩
        · obtain ⟨x, hx, hdir, hk, _⟩ := (hrecords r hr).2
          exact ⟨x, hx, hdir, hk⟩
        · obtain ⟨y, hy, _, _, hfree⟩ := (hrecords r hr).2
          rw [hy] at hx
          cases hx
          exact hfree hb
      have hrel : g.reissue = true → ∀ r ∈ record :: more, Released s r.id := fun hr r hmem => by
        rw [hre hr] at hmem
        exact (h.waits.reissued g (.head _) hr).2 r hmem
      rw [Prog.wp_bind]
      refine Prog.wp_mono_inv _ h.base (releaseGroup_wp h.replying hm hrel)
        (fun taken s₁ hs₁ h₁ => ?_) fun _ _ _ hx => hx
      have hr₁ := rounds_hand h hs₁ (fun r hr => (hrecords r hr).1) hre h₁.1 h₁.2
      rw [Prog.wp_bind, wp_fetch]
      split
      · refine then_wp hs₁ hr₁.replying readToolServerStatus (fun _ _ _ => trivial)
          fun _ s₂ h₂ hs₂ h0₂ => ?_
        have hr₂ : Rounds L all s₀ rest s₂ :=
          ⟨hs₂, h0₂, hr₁.waits.close h₂.close, hr₁.onward.trans h₂.close.onward,
            hr₁.reissued.imp (·.later h₂.hist) fun hall k hk => (hall k hk).imp_right
              fun hk R hR hr hne => (hk R hR hr hne).imp (·.later h₂.hist) (·.later h₂.hist)⟩
        rw [Prog.wp_bind, wp_fetch]
        split
        · exact (Prog.wp_pure _).2 hr₂
        · unfold Release.holds
          rw [Prog.wp_bind, wp_mark]
          refine ⟨.holds, fun hs₃ => (Prog.wp_pure _).2 ?_⟩
          have hc : Close L s₂ ((Act.mark .holds).apply s₂) := close_mark fun _ => rfl
          exact ⟨hs₃, hr₂.onward.trans hc.onward,
            (Logged.mark (.inl rfl)).earlier hr₂.onward.hist⟩
      · exact (Prog.wp_pure _).2 hr₁
  by_cases hfresh : (L.browser && !g.reissue) = true
  · rw [if_pos hfresh, Prog.wp_bind]
    rw [Bool.and_eq_true, Bool.not_eq_true'] at hfresh
    refine refresh_wp (fun _ _ => trivial) fun kept hkept => hgo kept (fun r hr => ?_)
      (fun hb => by rw [hfresh.1] at hb; cases hb) fun hr => by rw [hfresh.2] at hr; cases hr
    obtain ⟨⟨x, hx, hid⟩, hfind, hfree⟩ := hkept r hr
    obtain ⟨y, hy, hdir, _⟩ := h.waits.there g (.head _) x hx
    rw [hid, hfind] at hy
    cases hy
    exact ⟨⟨x, hx, hid⟩, r, hfind, hdir, .refl r, fun _ => hfree⟩
  · rw [if_neg hfresh, Prog.wp_bind, Prog.wp_pure]
    refine hgo g.records (fun r hr => ⟨⟨r, hr, rfl⟩, ?_⟩) (fun _ => rfl) fun _ => rfl
    obtain ⟨x, hx, hdir, hk⟩ := h.waits.there g (.head _) r hr
    refine ⟨x, hx, hdir, hk, fun hb => ?_⟩
    have hre : g.reissue = true := by simpa [hb] using hfresh
    rw [(h.waits.reissued g (.head _) hre).1] at hb
    cases hb

end round

end Safe

end CarbonRuntime.Moves
