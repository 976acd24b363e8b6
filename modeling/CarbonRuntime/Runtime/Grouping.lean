import CarbonRuntime.Core.Grouping
import CarbonRuntime.Runtime.Process

/-!
# The groups of a release pass

Which records `formGroups` (runtime/loop.ts:1297-1361) puts into which group, on a
channel with a quiet time. `groupFor` is what becomes of one record, as a
function of the disk the pass found; parking a record that has no unit of work changes no
other record's decision (`Alike`), so the groups are those of the whole listing
(`gathered`).

**Results.** `groups_formed`: the groups hold the eligible records, each once; a new
group holds those of one conversation and one unit; its records are in release order; and
where every record has an index line and no two lines carry one ordinal, the order of the
listing changes nothing.
-/

open CarbonRuntime.Core CarbonRuntime.Stream

namespace CarbonRuntime.Grouping

open Store Policy Turn Release Moves

/-! ## Release order -/

theorem releaseOrder_iff (J : Js) (index : List IndexEntry) (a b : MessageRecord) :
    releaseOrder J index a b = true ↔ J.localeCompare a.receivedAt b.receivedAt = .lt ∨
      J.localeCompare a.receivedAt b.receivedAt = .eq ∧
        ∃ m, seqOf index a.id = some m ∧ ∀ n, seqOf index b.id = some n → m < n := by
  unfold releaseOrder
  cases J.localeCompare a.receivedAt b.receivedAt with
  | lt => simp
  | gt => simp
  | eq => cases seqOf index a.id <;> cases seqOf index b.id <;> simp

/-- Release order is a weak order where `localeCompare` is one. -/
theorem releaseOrder_weak (J : Js) [Std.TransCmp J.localeCompare] (index : List IndexEntry) :
    WeakOrder (releaseOrder J index) where
  asymm a b h := by
    by_contra hne
    rw [Bool.not_eq_false] at hne
    rw [releaseOrder_iff] at h hne
    have hswap : J.localeCompare b.receivedAt a.receivedAt =
        (J.localeCompare a.receivedAt b.receivedAt).swap := Std.OrientedCmp.eq_swap
    rw [hswap] at hne
    rcases h with h | ⟨h, m, hm, hb⟩
    · simp [h] at hne
    · simp only [h, Ordering.swap_eq, reduceCtorEq, true_and, false_or] at hne
      obtain ⟨n, hn, ha⟩ := hne
      have := hb n hn
      have := ha m hm
      omega
  split a b c h := by
    by_contra hne
    rw [not_or, releaseOrder_iff, releaseOrder_iff] at hne
    rw [releaseOrder_iff] at h
    obtain ⟨hab, hbc⟩ := hne
    cases hcab : J.localeCompare a.receivedAt b.receivedAt with
    | lt => exact hab (.inl hcab)
    | gt =>
      have hac : J.localeCompare a.receivedAt c.receivedAt = .gt := by
        cases hcbc : J.localeCompare b.receivedAt c.receivedAt with
        | lt => exact absurd (.inl hcbc) hbc
        | eq => exact Std.TransCmp.gt_of_gt_of_eq hcab hcbc
        | gt => exact Std.TransCmp.gt_trans hcab hcbc
      simp [hac] at h
    | eq =>
      rw [Std.TransCmp.congr_left hcab] at h
      rcases h with h | ⟨h, m, hm, hc⟩
      · exact hbc (.inl h)
      · simp only [hcab, h, reduceCtorEq, false_or, true_and, not_exists, not_and, not_forall] at hab hbc
        obtain ⟨n, hn, hmn⟩ := hab m hm
        obtain ⟨k, hk, hnk⟩ := hbc n hn
        have := hc k hk
        omega

/-! ## What a conversation's records decide -/

/-- The same records, up to what later writes put on them. -/
def Alike (l l' : List MessageRecord) : Prop :=
  (∀ r ∈ l, ∃ r' ∈ l', Kept r r') ∧ ∀ r' ∈ l', ∃ r ∈ l, Kept r r'

variable {l l' : List MessageRecord}

theorem Alike.refl (l : List MessageRecord) : Alike l l :=
  ⟨fun r hr => ⟨r, hr, .refl r⟩, fun r hr => ⟨r, hr, .refl r⟩⟩

theorem Alike.of_perm {k : List MessageRecord} (h : Alike l l') (hp : k.Perm l') : Alike l k :=
  ⟨fun r hr => (h.1 r hr).imp fun _ h' => ⟨hp.mem_iff.2 h'.1, h'.2⟩,
    fun r' hr' => h.2 r' (hp.mem_iff.1 hr')⟩

theorem Alike.conversation (h : Alike l l') (c : String) :
    Alike (l.filter (·.conversationId = c)) (l'.filter (·.conversationId = c)) := by
  refine ⟨fun r hr => ?_, fun r' hr' => ?_⟩
  · obtain ⟨hr, hc⟩ := List.mem_filter.1 hr
    obtain ⟨r', hr', hk⟩ := h.1 r hr
    exact ⟨r', List.mem_filter.2 ⟨hr', by rw [hk.conversationId]; exact hc⟩, hk⟩
  · obtain ⟨hr', hc⟩ := List.mem_filter.1 hr'
    obtain ⟨r, hr, hk⟩ := h.2 r' hr'
    exact ⟨r, List.mem_filter.2 ⟨hr, by rw [← hk.conversationId]; exact hc⟩, hk⟩

/-- Putting a record over the one that is there leaves the records alike. -/
theorem Alike.put {t : Table MessageRecord.id} {old new : MessageRecord} (h : Alike l t.rows)
    (hold : t.find new.id = some old) (hk : Kept old new) : Alike l (t.put new).rows := by
  refine ⟨fun r hr => ?_, fun x hx => ?_⟩
  · obtain ⟨y, hy, hry⟩ := h.1 r hr
    by_cases he : y.id = new.id
    · have : y = old := by
        have := Table.mem_find hy
        rw [he, hold] at this
        exact (Option.some.inj this).symm
      subst this
      exact ⟨new, Table.mem_put.2 (.inl rfl), hry.trans hk⟩
    · exact ⟨y, Table.mem_put.2 (.inr ⟨hy, he⟩), hry⟩
  · rcases Table.mem_put.1 hx with rfl | ⟨hx, _⟩
    · obtain ⟨r, hr, hro⟩ := h.2 old (Table.find_mem hold)
      exact ⟨r, hr, hro.trans hk⟩
    · exact h.2 x hx

variable (L : Loop)

theorem Holding.kept {t : Int} {old new : MessageRecord} (hk : Kept old new) :
    Holding L t new ↔ Holding L t old := by
  unfold Holding
  rw [hk.hold]

/-- Alike records hold alike. -/
theorem Alike.held (h : Alike l l') (t : Int) : isHeld L l' t = isHeld L l t := by
  rw [Bool.eq_iff_iff, isHeld_iff, isHeld_iff]
  constructor
  · rintro ⟨r', hr', hh⟩
    obtain ⟨r, hr, hk⟩ := h.2 r' hr'
    exact ⟨r, hr, (Holding.kept L hk).1 hh⟩
  · rintro ⟨r, hr, hh⟩
    obtain ⟨r', hr', hk⟩ := h.1 r hr
    exact ⟨r', hr', (Holding.kept L hk).2 hh⟩

theorem foldl_max_le (times : List Int) :
    ∀ a x : Int, times.foldl max a ≤ x ↔ a ≤ x ∧ ∀ t ∈ times, t ≤ x := by
  induction times with
  | nil => simp
  | cons t times ih =>
    intro a x
    rw [List.foldl_cons, ih]
    simp only [List.mem_cons, forall_eq_or_imp, Int.max_le, and_assoc]

theorem newestArrival_le (J : Js) (l : List MessageRecord) (x : Int) :
    newestArrival J l ≤ x ↔ 0 ≤ x ∧ ∀ r ∈ l, r.direction = .inbound →
      ∀ t, J.parse r.receivedAt = some t → t ≤ x := by
  rw [newestArrival, foldl_max_le]
  refine and_congr_right fun _ => ⟨fun h r hr hdir t ht => h t ?_, fun h t ht => ?_⟩
  · exact List.mem_filterMap.2 ⟨r, List.mem_filter.2 ⟨hr, by simpa using hdir⟩, ht⟩
  · obtain ⟨r, hr, ht⟩ := List.mem_filterMap.1 ht
    obtain ⟨hr, hdir⟩ := List.mem_filter.1 hr
    exact h r hr (by simpa using hdir) t ht

/-- Alike records arrived alike. -/
theorem Alike.newest (h : Alike l l') (J : Js) :
    newestArrival J l' = newestArrival J l := by
  have hle : ∀ x, newestArrival J l' ≤ x ↔ newestArrival J l ≤ x := by
    intro x
    rw [newestArrival_le, newestArrival_le]
    refine and_congr_right fun _ => ⟨fun hx r hr hdir t ht => ?_, fun hx r' hr' hdir t ht => ?_⟩
    · obtain ⟨r', hr', hk⟩ := h.1 r hr
      exact hx r' hr' (hk.direction.trans hdir) t (by rw [hk]; exact ht)
    · obtain ⟨r, hr, hk⟩ := h.2 r' hr'
      exact hx r hr (hk.direction.symm.trans hdir) t (by rw [hk] at ht; exact ht)
  exact Int.le_antisymm ((hle _).2 (Int.le_refl _)) ((hle _).1 (Int.le_refl _))

/-! ## The release decision -/

/-- Whether a channel with the quiet time `ms` lets the record go. -/
def lets (d : Disk) (t : Int) (ms : Nat) (r : MessageRecord) : Bool :=
  r.direction == .inbound && !r.historical && r.disposition != .parked && r.release.isNone &&
    (!holdApplies L.channel r.conversationId ||
      r.role != .operator && !isHeld L (conversation d r.conversationId) t) &&
    (ms == 0 || decide (t - newestArrival L.js (conversation d r.conversationId) ≥ ms))

variable {L} {d : Disk} {t : Int} {ms : Nat} {reissue : List String} {r : MessageRecord} {s s' : World}
  {X : Err → World → Prop}

/-- The records of a conversation whose directory has a name. -/
theorem recordsIn_plain {c : String} (hc : componentFaults L.js "conversation_id" c = [])
    (ha : Alike d.records.rows s.disk.records.rows) {Q : List MessageRecord → World → Prop}
    (h : ∀ records, Alike (conversation d c) records → Q records s) :
    Prog.wp (plain L) (recordsIn L c) Q X s := by
  simp only [recordsIn, Prog.wp_bind, wp_refuse, hc, ne_eq, not_true_eq_false, false_implies,
    and_true, true_implies]
  refine plain_ask fun records hp => (Prog.wp_pure _).2 (h _ ?_)
  exact (ha.of_perm hp).conversation c

theorem policyDecision_plain (hq : L.channel.release = .quiet ms)
    (hc : componentFaults L.js "conversation_id" r.conversationId = [])
    (ha : Alike d.records.rows s.disk.records.rows) :
    Prog.wp (plain L) (policyDecision L r t) (fun dec s' => s' = s ∧
      dec.release = (ms == 0 ||
        decide (t - newestArrival L.js (conversation d r.conversationId) ≥ ms))) X s := by
  unfold policyDecision
  split
  · rename_i h
    rw [hq] at h
    cases h
    exact (Prog.wp_pure _).2 ⟨rfl, rfl⟩
  · rename_i n hne h
    rw [hq] at h
    cases h
    have h0 : ms ≠ 0 := hne
    rw [Prog.wp_bind]
    refine recordsIn_plain hc ha fun records hrec => ?_
    rw [hrec.newest]
    by_cases hquiet : t - newestArrival L.js (conversation d r.conversationId) ≥ ms
    · rw [if_pos hquiet]
      exact (Prog.wp_pure _).2 ⟨rfl, by simpa using .inr hquiet⟩
    · rw [if_neg hquiet]
      exact (Prog.wp_pure _).2 ⟨rfl, by simpa [h0] using hquiet⟩
  · rename_i h
    rw [hq] at h
    cases h
  · rename_i h
    rw [hq] at h
    cases h

theorem releaseDecision_plain (hq : L.channel.release = .quiet ms)
    (hc : componentFaults L.js "conversation_id" r.conversationId = [])
    (ha : Alike d.records.rows s.disk.records.rows) :
    Prog.wp (plain L) (releaseDecision L r t)
      (fun dec s' => s' = s ∧ dec.release = lets L d t ms r) X s := by
  have hno : ∀ reason, lets L d t ms r = false → Prog.wp (plain L)
      (pure ⟨false, reason⟩ : Program L Decision)
      (fun dec s' => s' = s ∧ dec.release = lets L d t ms r) X s :=
    fun reason h => (Prog.wp_pure _).2 ⟨rfl, h.symm⟩
  unfold releaseDecision
  by_cases hdir : r.direction = .inbound
  swap
  · rw [if_pos hdir]
    exact hno _ (by simp [lets, hdir])
  rw [if_neg (not_not.2 hdir)]
  by_cases hhist : r.historical = true
  · rw [if_pos hhist]
    exact hno _ (by simp [lets, hhist])
  rw [if_neg hhist]
  by_cases hpark : r.disposition = .parked
  · rw [if_pos hpark]
    exact hno _ (by simp [lets, hpark])
  rw [if_neg hpark]
  by_cases hrel : r.release.isSome = true
  · rw [if_pos hrel]
    exact hno _ (by simp [lets, Option.isSome_iff_ne_none.1 hrel])
  rw [if_neg hrel]
  have hrel' : r.release.isNone = true := by simpa using hrel
  by_cases hold : holdApplies L.channel r.conversationId = true
  · rw [if_pos hold]
    by_cases hop : r.role = .operator
    · rw [if_pos hop]
      exact hno _ (by simp [lets, hold, hop])
    rw [if_neg hop, Prog.wp_bind]
    refine recordsIn_plain hc ha fun records hrec => ?_
    rw [hrec.held L t]
    by_cases hheld : isHeld L (conversation d r.conversationId) t = true
    · rw [if_pos hheld]
      exact hno _ (by simp [lets, hold, hheld])
    rw [if_neg hheld]
    refine Prog.wp_mono _ (policyDecision_plain hq hc ha) (fun dec s' h => ⟨h.1, h.2.trans ?_⟩)
      fun _ _ h => h
    simp [lets, hdir, hhist, hpark, hrel', hop, hheld]
  · rw [if_neg hold]
    refine Prog.wp_mono _ (policyDecision_plain hq hc ha) (fun dec s' h => ⟨h.1, h.2.trans ?_⟩)
      fun _ _ h => h
    simp [lets, hdir, hhist, hpark, hrel', hold]

/-! ## One record -/

/-- What the loop over the listing has left of the disk it found. -/
structure Since (d : Disk) (t : Int) (s : World) : Prop where
  alike : Alike d.records.rows s.disk.records.rows
  there : ∀ r ∈ d.records.rows, (s.disk.records.find r.id).isSome = true
  clock : s.clock = t

/-- A record whose path the store refuses is never written, and read back as a fault. -/
def Readable (L : Loop) (d : Disk) : Prop := ∀ r ∈ d.records.rows, pathFaults L.js r.id = []

theorem parkRead_plain {faults : List Fault} (hr : r ∈ d.records.rows)
    (hp : pathFaults L.js r.id = []) (hs : Since d t s) :
    Prog.wp (plain L) (parkRead L r.id faults none) (fun _ => Since d t) (fun _ _ => False) s := by
  obtain ⟨old, hold⟩ := Option.isSome_iff_exists.1 (hs.there r hr)
  unfold parkRead
  simp only [Store.read, parkFailed, rewrite, Turn.discard, Prog.wp_bind, Prog.wp_bind', wp_refuse, wp_fetch,
    Prog.wp_pure, hp, ne_eq, not_true_eq_false, false_implies, and_true, true_implies, hold]
  refine wp_stamp _ trivial trivial fun new s₁ hnew hs₁ _ => ?_
  have hkept : Kept old new := by rw [Kept, hnew.eq]; rfl
  have hid : new.id = r.id := hkept.id.trans (Table.find_key (a := old) hold)
  rw [wp_write]
  refine ⟨trivial, fun _ => ⟨?_, fun x hx => ?_, ?_⟩⟩
  · rw [Act.apply, World.putRecord_disk, hs₁.records]
    exact hs.alike.put (by rw [hid]; exact hold) hkept
  · rw [Act.apply, World.putRecord_disk, hs₁.records]
    exact Table.find_put_isSome _ (hs.there x hx)
  · rw [Act.apply, World.putRecord_clock, hs₁.clock]
    exact hs.clock

variable (L)

/-- The group a record of the listing makes or joins. -/
def groupFor (d : Disk) (t : Int) (ms : Nat) (reissue : List String) (r : MessageRecord) :
    Option Group :=
  match r.openRelease.filter (· ∈ reissue) with
  | some releaseId => some ⟨.reissue releaseId, [r], true, some releaseId, none⟩
  | none =>
    if lets L d t ms r then
      match unitIdFor L.js L.declaration r with
      | .ok unitId => some ⟨.quiet r.conversationId unitId, [r], false, none, some unitId⟩
      | .error _ => none
    else none

def joined (groups : List Group) : Option Group → List Group
  | some g => addTo g groups
  | none => groups

variable {L}

theorem unitIdFor_error {e : Err} (h : unitIdFor L.js L.declaration r = .error e) :
    ∃ faults, e = .runtime faults Exit.fault ∧ endsTheProcess e = false := by
  unfold unitIdFor at h
  split at h
  · cases h
  · split at h
    · split at h
      · cases h
        exact ⟨_, rfl, by simp [endsTheProcess, unitIdAbsent, endingCodes]⟩
      · cases h
    · cases h
      exact ⟨_, rfl, by simp [endsTheProcess, unitIdAbsent, endingCodes]⟩
  · cases h
    exact ⟨_, rfl, by simp [endsTheProcess, unitOfWorkUnknown, endingCodes]⟩

theorem place_plain {groups : List Group} (hb : L.browser = false)
    (hq : L.channel.release = .quiet ms) (hr : r ∈ d.records.rows)
    (hp : pathFaults L.js r.id = []) (hs : Since d t s) :
    Prog.wp (plain L) (place L reissue t groups r)
      (fun groups' s' => Since d t s' ∧ groups' = joined groups (groupFor L d t ms reissue r))
      (fun _ _ => False) s := by
  have hc : componentFaults L.js "conversation_id" r.conversationId = [] :=
    (List.append_eq_nil_iff.1 hp).1
  unfold place browserHeld groupFor
  rw [hb, if_neg Bool.false_ne_true, Prog.wp_bind, Prog.wp_pure, if_neg Bool.false_ne_true]
  split
  · rename_i R hR
    exact (Prog.wp_pure _).2 ⟨hs, by simp only [hR, joined]⟩
  rename_i hnone
  rw [Prog.wp_bind]
  refine Prog.wp_mono _ (releaseDecision_plain hq hc hs.alike) (fun dec s₁ h => ?_) fun _ _ h => h
  obtain ⟨rfl, hdec⟩ := h
  rw [hdec]
  by_cases hl : lets L d t ms r = true
  swap
  · rw [Bool.not_eq_true] at hl
    simp only [hl, Bool.not_false, if_true]
    exact (Prog.wp_pure _).2 ⟨hs, by simp only [hnone, joined, Bool.false_eq_true, if_false]⟩
  simp only [hl, Bool.not_true, Bool.false_eq_true, if_false, if_true]
  split
  · rename_i unitId hu
    simp only [groupKey, hb, hq, Bool.false_eq_true, if_false]
    exact (Prog.wp_pure _).2 ⟨hs, by simp only [hnone, hu, joined]⟩
  · rename_i e hu
    obtain ⟨faults, rfl, hend⟩ := unitIdFor_error hu
    dsimp only
    rw [hend, if_neg Bool.false_ne_true, Prog.wp_bind]
    exact Prog.wp_mono _ (parkRead_plain hr hp hs)
      (fun _ s₂ h => (Prog.wp_pure _).2 ⟨h, by simp only [hnone, hu, joined]⟩) fun _ _ h => h

/-! ## The whole listing -/

section
variable (L : Loop) (d : Disk) (t : Int) (ms : Nat) (reissue : List String)

/-- The groups of a listing. -/
def gathered (records : List MessageRecord) : List Group :=
  (candidates L d.index records).foldl
    (fun groups r => joined groups (groupFor L d t ms reissue r)) []

/-- The records that are put into a group, each with the key of its group. -/
def keyed (records : List MessageRecord) : List (Key × MessageRecord) :=
  records.filterMap fun r => (groupFor L d t ms reissue r).map fun g => (g.key, r)

/-- What a pass may give to the model for the first time. -/
def Fresh (r : MessageRecord) (unitId : String) : Prop :=
  lets L d t ms r = true ∧ unitIdFor L.js L.declaration r = .ok unitId

/-- What a pass may give to the model. -/
def Eligible (r : MessageRecord) : Prop :=
  r.direction = .inbound ∧
    ((∃ R ∈ reissue, r.openRelease = some R) ∨ ∃ unitId, Fresh L d t ms r unitId)

end

theorem formGroups_plain (hb : L.browser = false) (hq : L.channel.release = .quiet ms)
    (hread : Readable L s.disk) :
    Prog.wp (plain L) (formGroups L reissue) (fun groups s' => ∃ records,
      records.Perm s.disk.records.rows ∧ groups = gathered L s.disk s'.clock ms reissue records)
      (fun _ _ => False) s := by
  unfold formGroups now rebuild
  rw [Prog.wp_bind]
  refine plain_ask fun t _ => ?_
  rw [Prog.wp_bind, wp_fetch, Prog.wp_bind]
  refine plain_ask fun records hp => ?_
  have hp : records.Perm s.disk.records.rows := hp
  have hsub : ∀ r ∈ candidates L s.disk.index records, r ∈ s.disk.records.rows := fun r hr =>
    hp.mem_iff.1 (List.mem_filter.1 ((sortBy_perm _ _).mem_iff.1 hr)).1
  have hthere : ∀ r ∈ s.disk.records.rows, (s.disk.records.find r.id).isSome = true :=
    fun r hr => by rw [Table.mem_find hr]; rfl
  -- What is still to come joins the groups that are made.
  have hfold := Prog.wp_fold (P := plain L) (X := fun _ _ => False)
    (J := fun groups rest s' => Since s.disk t s' ∧ (∀ r ∈ rest, r ∈ s.disk.records.rows) ∧
      rest.foldl (fun groups r => joined groups (groupFor L s.disk t ms reissue r)) groups =
        gathered L s.disk t ms reissue records)
    (place L reissue t) (fun groups r rest s₁ h => by
      obtain ⟨hs, hrows, hall⟩ := h
      have hr := hrows r (.head _)
      refine Prog.wp_mono _ (place_plain hb hq hr (hread r hr) hs) (fun groups' s₂ h => ?_)
        fun _ _ h => h
      obtain ⟨hs₂, rfl⟩ := h
      exact ⟨hs₂, fun x hx => hrows x (.tail _ hx), hall⟩) (candidates L s.disk.index records) []
    (Ask.after .listing records (Ask.after .now t s)) ⟨⟨.refl _, hthere, rfl⟩, hsub, rfl⟩
  refine Prog.wp_mono _ hfold (fun groups s₁ h => ?_) fun _ _ h => h
  obtain ⟨hs, -, hall⟩ := h
  exact ⟨records, hp, by rw [hs.clock]; exact hall⟩

theorem addTo_keys (g : Group) {r : MessageRecord} (hg : g.records = [r]) (groups : List Group) :
    (addTo g groups).map (fun g => (g.key, g.records)) =
      addAt g.key r (groups.map fun g => (g.key, g.records)) := by
  induction groups with
  | nil => simp [addTo, addAt, hg]
  | cons h groups ih =>
    rw [addTo, List.map_cons, addAt]
    split
    · simp [hg]
    · simp [ih]

theorem groupFor_records {g : Group} (h : groupFor L d t ms reissue r = some g) :
    g.records = [r] := by
  unfold groupFor at h
  split at h
  · cases h; rfl
  · split at h
    · split at h
      · cases h; rfl
      · cases h
    · cases h

/-- The groups of a listing are its keyed records, gathered. -/
theorem gathered_eq (records : List MessageRecord) :
    (gathered L d t ms reissue records).map (fun g => (g.key, g.records)) =
      gather (keyed L d t ms reissue (candidates L d.index records)) := by
  have hgo : ∀ (l : List MessageRecord) (groups : List Group),
      (l.foldl (fun groups r => joined groups (groupFor L d t ms reissue r)) groups).map
          (fun g => (g.key, g.records)) =
        (keyed L d t ms reissue l).foldl (fun gs p => addAt p.1 p.2 gs)
          (groups.map fun g => (g.key, g.records)) := by
    intro l
    induction l with
    | nil => exact fun _ => rfl
    | cons r l ih =>
      intro groups
      rw [List.foldl_cons, ih]
      cases hg : groupFor L d t ms reissue r with
      | none => simp [keyed, hg, joined]
      | some g =>
        rw [joined, addTo_keys g (groupFor_records hg)]
        simp [keyed, hg]
  exact hgo _ []

theorem keyed_values (k : Key) (l : List MessageRecord) :
    ((keyed L d t ms reissue l).filter fun p => p.1 = k).map (·.2) =
      l.filter fun r => (groupFor L d t ms reissue r).any fun g => g.key = k := by
  induction l with
  | nil => rfl
  | cons r l ih =>
    cases hg : groupFor L d t ms reissue r with
    | none => simpa [keyed, hg] using ih
    | some g =>
      by_cases hk : g.key = k
      · simpa [keyed, hg, hk] using ih
      · simpa [keyed, hg, hk] using ih

theorem keyed_all (l : List MessageRecord) : (keyed L d t ms reissue l).map (·.2) =
    l.filter fun r => (groupFor L d t ms reissue r).isSome := by
  induction l with
  | nil => rfl
  | cons r l ih =>
    cases hg : groupFor L d t ms reissue r with
    | none => simpa [keyed, hg] using ih
    | some g => simpa [keyed, hg] using ih

/-- The records of a group are those of its key, in release order. -/
theorem gathered_records {records : List MessageRecord} {g : Group}
    (hg : g ∈ gathered L d t ms reissue records) : g.records =
      (candidates L d.index records).filter fun r =>
        (groupFor L d t ms reissue r).any fun h => h.key = g.key := by
  have hm : (g.key, g.records) ∈ gather (keyed L d t ms reissue (candidates L d.index records)) := by
    rw [← gathered_eq]
    exact List.mem_map.2 ⟨g, hg, rfl⟩
  exact (mem_gather hm).trans (keyed_values _ _)

/-- The records of all groups are the candidates that are put into one. -/
theorem gathered_all (records : List MessageRecord) :
    ((gathered L d t ms reissue records).flatMap (·.records)).Perm
      ((candidates L d.index records).filter fun r => (groupFor L d t ms reissue r).isSome) := by
  rw [← keyed_all]
  refine .trans (.of_eq ?_) (flatten_gather _)
  rw [← gathered_eq, List.flatMap_map]

theorem groupFor_isSome : (groupFor L d t ms reissue r).isSome = true ↔
    (∃ R ∈ reissue, r.openRelease = some R) ∨ ∃ unitId, Fresh L d t ms r unitId := by
  unfold groupFor
  split
  · rename_i R hR
    rw [Option.filter_eq_some_iff] at hR
    simpa using .inl ⟨R, by simpa using hR.2, hR.1⟩
  · rename_i hnone
    rw [Option.filter_eq_none_iff] at hnone
    have hno : ¬ ∃ R ∈ reissue, r.openRelease = some R := by
      rintro ⟨R, hR, ho⟩
      exact hnone R ho (by simpa using hR)
    by_cases hl : lets L d t ms r = true
    · cases hu : unitIdFor L.js L.declaration r with
      | ok unitId => simp [hl, hu, Fresh]
      | error e => simp [hl, hu, Fresh, hno]
    · simp [hl, Fresh, hno]

/-- A record whose group is new is put there by its conversation and its unit. -/
theorem groupFor_fresh {c u : String} : (groupFor L d t ms reissue r).any
      (fun g => g.key = .quiet c u) = true ↔
    Fresh L d t ms r u ∧ r.conversationId = c := by
  unfold groupFor
  split
  · rename_i R hR
    rw [Option.filter_eq_some_iff] at hR
    have hrel : r.release.isNone = false := by
      have := hR.1
      unfold MessageRecord.openRelease at this
      cases hr : r.release with
      | none => rw [hr] at this; cases this
      | some rel => rfl
    simp [Fresh, lets, hrel]
  · by_cases hl : lets L d t ms r = true
    · cases hu : unitIdFor L.js L.declaration r with
      | ok unitId => simp [hl, hu, Fresh, and_comm]
      | error e => simp [hl, hu, Fresh]
    · simp [hl, Fresh]

/-- A group that is no re-issue is of a conversation and a unit. -/
theorem gathered_fresh {records : List MessageRecord} {g : Group}
    (hg : g ∈ gathered L d t ms reissue records) (hre : g.reissue = false) :
    ∃ c u, g.key = .quiet c u := by
  have hgo : ∀ (l : List MessageRecord) (groups : List Group),
      (∀ g ∈ groups, g.reissue = false → ∃ c u, g.key = .quiet c u) →
      ∀ g ∈ l.foldl (fun groups r => joined groups (groupFor L d t ms reissue r)) groups,
        g.reissue = false → ∃ c u, g.key = .quiet c u := by
    intro l
    induction l with
    | nil => exact fun _ h => h
    | cons r l ih =>
      intro groups h
      refine ih _ ?_
      dsimp only
      cases hf : groupFor L d t ms reissue r with
      | none => exact h
      | some f =>
        have hnew : f.reissue = false → ∃ c u, f.key = .quiet c u := by
          unfold groupFor at hf
          split at hf
          · cases hf
            exact fun h => by cases h
          · split at hf
            · split at hf
              · cases hf
                exact fun _ => ⟨_, _, rfl⟩
              · cases hf
            · cases hf
        intro k hk hkre
        rcases mem_addTo hk with hk | rfl | ⟨k', hk', -, rfl⟩
        · exact h k hk hkre
        · exact hnew hkre
        · exact h k' hk' hkre
  exact hgo _ [] (fun _ h => by cases h) g hg hre

/-! ## The groups of a pass -/

/-- What the groups of a pass are. -/
structure Formed (L : Loop) (d : Disk) (t : Int) (ms : Nat) (reissue : List String)
    (groups : List Group) : Prop where
  /-- Each eligible record is in a group, -/
  all : ∀ r, (∃ g ∈ groups, r ∈ g.records) ↔ r ∈ d.records.rows ∧ Eligible L d t ms reissue r
  /-- and in one place only. -/
  once : ((groups.flatMap (·.records)).map (·.id)).Nodup
  /-- A new group holds the records of one conversation and one unit. -/
  fresh : ∀ g ∈ groups, g.reissue = false → ∃ c u, ∀ r, r ∈ g.records ↔
    r ∈ d.records.rows ∧ r.direction = .inbound ∧ Fresh L d t ms r u ∧ r.conversationId = c
  /-- No record stands before one that is released before it. -/
  ordered : ∀ g ∈ groups, g.records.Pairwise fun a b => releaseOrder L.js d.index b a = false

/-- Every record has an index line. -/
def Indexed (d : Disk) : Prop := ∀ r ∈ d.records.rows, ∃ e ∈ d.index, e.id = r.id

/-- No two index lines carry one ordinal. -/
def Numbered (d : Disk) : Prop := (d.index.map (·.seq)).Nodup

theorem mem_candidates_of_perm (hb : L.browser = false) {records : List MessageRecord}
    (hp : records.Perm d.records.rows) :
    r ∈ candidates L d.index records ↔ r ∈ d.records.rows ∧ r.direction = .inbound := by
  unfold candidates
  rw [(sortBy_perm _ _).mem_iff, List.mem_filter, hp.mem_iff]
  simp [hb]

theorem formed_gathered (hb : L.browser = false) [Std.TransCmp L.js.localeCompare]
    {records : List MessageRecord} (hp : records.Perm d.records.rows) :
    Formed L d t ms reissue (gathered L d t ms reissue records) where
  all r := by
    rw [← List.mem_flatMap (f := fun g : Group => g.records), (gathered_all records).mem_iff,
      List.mem_filter, mem_candidates_of_perm hb hp, groupFor_isSome, and_assoc]
    rfl
  once := by
    rw [((gathered_all records).map _).nodup_iff]
    have hsub : ((candidates L d.index records).filter fun r =>
        (groupFor L d t ms reissue r).isSome).Sublist (candidates L d.index records) :=
      List.filter_sublist
    refine List.Nodup.sublist (hsub.map _) ?_
    unfold candidates
    rw [((sortBy_perm _ _).map _).nodup_iff]
    refine List.Nodup.sublist (List.Sublist.map _ List.filter_sublist) ?_
    rw [(hp.map _).nodup_iff]
    exact d.records.nodup
  fresh g hg hre := by
    obtain ⟨c, u, hk⟩ := gathered_fresh hg hre
    refine ⟨c, u, fun r => ?_⟩
    rw [gathered_records hg, List.mem_filter, mem_candidates_of_perm hb hp, hk, groupFor_fresh,
      and_assoc]
  ordered g hg := by
    rw [gathered_records hg]
    exact (sortBy_sorted (releaseOrder_weak L.js d.index) _).sublist List.filter_sublist

/-- Records of which neither is released before the other are of one ordinal. -/
theorem seqOf_eq (J : Js) [Std.TransCmp J.localeCompare] {index : List IndexEntry}
    {a b : MessageRecord} (hab : releaseOrder J index a b = false)
    (hba : releaseOrder J index b a = false) : seqOf index a.id = seqOf index b.id := by
  have hswap : J.localeCompare b.receivedAt a.receivedAt =
      (J.localeCompare a.receivedAt b.receivedAt).swap := Std.OrientedCmp.eq_swap
  rw [← Bool.not_eq_true, releaseOrder_iff] at hab hba
  rw [hswap] at hba
  cases hc : J.localeCompare a.receivedAt b.receivedAt with
  | lt => simp [hc] at hab
  | gt => simp [hc] at hba
  | eq =>
    cases ha : seqOf index a.id with
    | none => cases hb : seqOf index b.id with
      | none => rfl
      | some n => simp [hc, ha, hb] at hba
    | some m => cases hb : seqOf index b.id with
      | none => simp [hc, ha, hb] at hab
      | some n =>
        simp [hc, ha, hb] at hab hba
        rw [Nat.le_antisymm hba hab]

/-- A record with an index line has an ordinal, which no other record has. -/
theorem seqOf_inj (hi : Indexed d) (hn : Numbered d) {a b : MessageRecord}
    (ha : a ∈ d.records.rows) (hb : b ∈ d.records.rows)
    (h : seqOf d.index a.id = seqOf d.index b.id) : a = b := by
  have hsome : ∀ x ∈ d.records.rows, ∃ e ∈ d.index, e.id = x.id ∧
      seqOf d.index x.id = some e.seq := by
    intro x hx
    obtain ⟨e, he, hid⟩ := hi x hx
    have hfind : (d.index.reverse.find? fun e => decide (e.id = x.id)).isSome = true := by
      rw [List.find?_isSome]
      exact ⟨e, List.mem_reverse.2 he, by simpa using hid⟩
    obtain ⟨e', he'⟩ := Option.isSome_iff_exists.1 hfind
    exact ⟨e', List.mem_reverse.1 (List.mem_of_find?_eq_some he'),
      by simpa using List.find?_some he', by rw [seqOf, he']; rfl⟩
  obtain ⟨e, he, hea, hsa⟩ := hsome a ha
  obtain ⟨f, hf, hfb, hsb⟩ := hsome b hb
  rw [hsa, hsb, Option.some.injEq] at h
  have hef : e = f := List.inj_on_of_nodup_map hn he hf h
  exact Table.ext_key ha hb (by rw [← hea, ← hfb, hef])

/-- Where ordinals tell the records apart, the listing's order does not matter. -/
theorem gathered_perm [Std.TransCmp L.js.localeCompare] (hi : Indexed d) (hn : Numbered d)
    {records records' : List MessageRecord} (hp : records.Perm d.records.rows)
    (hp' : records'.Perm d.records.rows) :
    gathered L d t ms reissue records = gathered L d t ms reissue records' := by
  have hsort : candidates L d.index records = candidates L d.index records' := by
    refine sortBy_perm_eq (releaseOrder_weak L.js d.index) ((hp.trans hp'.symm).filter _)
      fun a ha b hb hab hba => ?_
    have ha := hp.mem_iff.1 (List.mem_filter.1 ha).1
    have hb := hp.mem_iff.1 (List.mem_filter.1 hb).1
    exact seqOf_inj hi hn ha hb (seqOf_eq L.js hab hba)
  unfold gathered
  rw [hsort]

/-- On a quiet channel other than the browser's a pass forms its groups, they are as
`Formed` says, and where the index gives every record an ordinal of its own, another
listing of the directories and files at the same time gives the same groups. -/
theorem groups_formed (hb : L.browser = false) (hq : L.channel.release = .quiet ms)
    (hread : Readable L s.disk) [Std.TransCmp L.js.localeCompare]
    {x : Prog.Result (sig L) (List Group)} (h : Prog.Runs (formGroups L reissue) s x s') :
    ∃ groups, x = .ok groups ∧ Formed L s.disk s'.clock ms reissue groups ∧
      (Indexed s.disk → Numbered s.disk → ∀ x₁ s₁, Prog.Runs (formGroups L reissue) s x₁ s₁ →
        s₁.clock = s'.clock → x₁ = .ok groups) := by
  have hrun : ∀ {x : Prog.Result (sig L) (List Group)} {s₁ : World},
      Prog.Runs (formGroups L reissue) s x s₁ → ∃ records, records.Perm s.disk.records.rows ∧
        x = .ok (gathered L s.disk s₁.clock ms reissue records) := by
    intro x s₁ h
    have := plain_runs h (formGroups_plain hb hq hread)
    cases x with
    | ok groups =>
      obtain ⟨records, hp, rfl⟩ := this
      exact ⟨records, hp, rfl⟩
    | error e => exact this.elim
  obtain ⟨records, hp, rfl⟩ := hrun h
  refine ⟨_, rfl, formed_gathered hb hp, fun hi hn x₁ s₁ h₁ hclock => ?_⟩
  obtain ⟨records₁, hp₁, rfl⟩ := hrun h₁
  rw [hclock, gathered_perm hi hn hp₁ hp]

/-! ## Two messages that arrived at once -/

abbrev mail : Channel := { kind := "email", account := "agent@example.org" }

abbrev desk : Channel := { kind := "browser", account := "agent@example.org" }

abbrev loopOf (channel : Channel) : Loop := oneLoop channel { channels := [channel] }

/-- Two messages of one conversation, and the ordinals of their index lines. -/
def twoMessages (channel : Channel) (m n : Nat) : World :=
  let first := inboundMessage channel "first" "1"
  let second := inboundMessage channel "second" "1"
  { disk := { records := (Table.empty.put first).put second, index := [⟨m, first.id⟩, ⟨n, second.id⟩] } }

/-- The files are listed as they were written, or the other way round. -/
def listedAs (turned : Bool) (n : Nat) (w : World) : (q : Ask) → q.Answer
  | .listing => if turned then w.disk.records.rows.reverse else w.disk.records.rows
  | q => Given.answer {} n w q

def groupsOf (channel : Channel) (turned : Bool) (s : World) : Option (List Group × World) :=
  match Prog.finishWith (listedAs turned) 0 (formGroups (loopOf channel) []) s with
  | some (.ok groups, s') => some (groups, s')
  | _ => none

theorem groupsOf_runs {channel : Channel} {turned : Bool} {groups : List Group}
    (h : groupsOf channel turned s = some (groups, s')) :
    Prog.Runs (formGroups (loopOf channel) []) s (.ok groups) s' := by
  unfold groupsOf at h
  split at h
  · rename_i hf
    cases h
    exact Prog.finishWith_runs _ hf
  · cases h

/-- Index lines that carry one ordinal leave the order of the group to the listing; and the
browser's channel, which may be quiet too, makes two groups of one conversation. -/
theorem listing_decides :
    (∃ s s₁ s₂ groups groups', Readable (loopOf mail) s.disk ∧ Indexed s.disk ∧
      Prog.Runs (formGroups (loopOf mail) []) s (.ok groups) s₁ ∧
      Prog.Runs (formGroups (loopOf mail) []) s (.ok groups') s₂ ∧ s₁.clock = s₂.clock ∧
      groups ≠ groups') ∧
    ∃ s s₁ groups, Readable (loopOf desk) s.disk ∧
      Prog.Runs (formGroups (loopOf desk) []) s (.ok groups) s₁ ∧
      ∃ g ∈ groups, g.reissue = false ∧ ∃ r ∈ g.records, ∃ r' ∈ s.disk.records.rows,
        r' ∉ g.records ∧ r'.conversationId = r.conversationId ∧
        Fresh (loopOf desk) s.disk s₁.clock 0 r' r.conversationId := by
  constructor
  · have hrun : (groupsOf mail false (twoMessages mail 1 1)).any (fun (groups, s₁) =>
        (groupsOf mail true (twoMessages mail 1 1)).any fun (groups', s₂) =>
          decide (s₁.clock = s₂.clock) && decide (groups ≠ groups')) = true := by decide +kernel
    obtain ⟨⟨groups, s₁⟩, h₁, hrun⟩ := (Option.any_eq_true _ _).1 hrun
    obtain ⟨⟨groups', s₂⟩, h₂, hne⟩ := (Option.any_eq_true _ _).1 hrun
    rw [Bool.and_eq_true, decide_eq_true_eq, decide_eq_true_eq] at hne
    exact ⟨_, s₁, s₂, groups, groups', by unfold Readable; decide +kernel,
      by unfold Indexed; decide +kernel, groupsOf_runs h₁, groupsOf_runs h₂, hne⟩
  · have hrun : (groupsOf desk false (twoMessages desk 1 2)).any (fun (groups, s₁) =>
        groups.any fun g => !g.reissue && g.records.any fun r =>
          (twoMessages desk 1 2).disk.records.rows.any fun r' => decide (r' ∉ g.records) &&
            decide (r'.conversationId = r.conversationId) &&
            lets (loopOf desk) (twoMessages desk 1 2).disk s₁.clock 0 r') = true := by
      decide +kernel
    obtain ⟨⟨groups, s₁⟩, h₁, hrun⟩ := (Option.any_eq_true _ _).1 hrun
    simp only [List.any_eq_true, Bool.and_eq_true, Bool.not_eq_true', decide_eq_true_eq] at hrun
    obtain ⟨g, hg, hre, r, hr, r', hr', ⟨hout, hc⟩, hl⟩ := hrun
    exact ⟨_, s₁, groups, by unfold Readable; decide +kernel, groupsOf_runs h₁, g, hg, hre, r, hr,
      r', hr', hout, hc, hl, congrArg Except.ok hc⟩

theorem plainJs_collates : Std.TransCmp plainJs.localeCompare :=
  inferInstanceAs (Std.TransCmp (compare : String → String → Ordering))

/-- With ordinals that differ the other listing makes the same group. -/
theorem listing_decides_nothing : ∃ s s' x groups, Prog.Runs (formGroups (loopOf mail) []) s x s' ∧
    x = .ok groups ∧ groups ≠ [] ∧ Formed (loopOf mail) s.disk s'.clock 0 [] groups ∧
    ∀ x₁ s₁, Prog.Runs (formGroups (loopOf mail) []) s x₁ s₁ → s₁.clock = s'.clock →
      x₁ = .ok groups := by
  have hrun : (groupsOf mail false (twoMessages mail 1 2)).any (fun (groups, _) =>
      decide (groups ≠ [])) = true := by decide +kernel
  obtain ⟨⟨groups, s'⟩, h, hne⟩ := (Option.any_eq_true _ _).1 hrun
  rw [decide_eq_true_eq] at hne
  have : Std.TransCmp (loopOf mail).js.localeCompare := plainJs_collates
  obtain ⟨_, hx, hformed, hlisting⟩ := groups_formed (L := loopOf mail)
    (s := twoMessages mail 1 2) (by decide +kernel) rfl (by unfold Readable; decide +kernel)
    (groupsOf_runs h)
  cases hx
  exact ⟨_, s', _, groups, groupsOf_runs h, rfl, hne, hformed,
    hlisting (by unfold Indexed; decide +kernel) (by unfold Numbered; decide +kernel)⟩

end CarbonRuntime.Grouping
