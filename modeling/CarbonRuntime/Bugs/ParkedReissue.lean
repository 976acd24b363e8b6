import CarbonRuntime.Runtime.Process

/-!
# A parked record is given to the model again

`releaseDecision` refuses a parked record (runtime/loop.ts:167), and a record marked
`permanent-error` was released. A release id a start answers to re-issue is grouped without the
decision (loop.ts:1328-1331), and `recover` looks at the dispositions of no
record (loop.ts:1083-1121). A process that dies between parking a record and
completing its release leaves a record that is parked and open, and a fault
other than `PROGRAM_*` leaves it so without a death (loop.ts:1377-1393).

Counterexample: a message is released, its two turns write no reply, the
message is parked, and the process dies before the release is completed.
-/

open CarbonRuntime.Core CarbonRuntime.Stream

namespace CarbonRuntime.Bugs.ParkedReissue

open Moves Pass

/-- Out of reach: it was never understood, or its turn failed. -/
def OutOfReach (r : MessageRecord) : Prop :=
  r.disposition = .parked ∨ r.disposition = .permanentError

instance (r : MessageRecord) : Decidable (OutOfReach r) := by
  unfold OutOfReach
  infer_instance

/-- No inbound record is both out of reach and open. -/
def NoneOpen (d : Disk) : Prop :=
  ∀ i x, d.records.find i = some x → x.direction = .inbound → x.openRelease.isSome = true →
    ¬ OutOfReach x

/-- Every start finds none that is out of reach and open; a browser's loop re-issues
nothing. -/
def StartsClean (L : Loop) (hist : List Entry) : Prop :=
  L.browser = false → ∀ t ∈ hist, t.event = .started → NoneOpen t.disk

/-- No group that was handed over has a record out of reach. -/
def HandedClean (hist : List Entry) : Prop :=
  ∀ t ∈ hist, ∀ records R reissue, t.event = .handed records R reissue →
    ∀ r ∈ records, ∀ x, t.disk.records.find r.id = some x → ¬ OutOfReach x

variable {L : Loop} {s : World}

/-- What keeps the records of the groups within reach until they are handed over. -/
structure Reach (L : Loop) (s : World) : Prop where
  failed : ∀ i x, s.disk.records.find i = some x → x.disposition = .permanentError →
    x.release.isSome = true
  inbound : ∀ g ∈ s.ghost.waiting, ∀ r ∈ g, ∃ x, s.disk.records.find r.id = some x ∧
    x.direction = .inbound
  /-- A browser's input that was released meanwhile may be out of reach. -/
  waiting : ∀ g ∈ s.ghost.waiting, ∀ r ∈ g, ∀ x, s.disk.records.find r.id = some x →
    ¬ OutOfReach x ∨ L.browser = true ∧ x.release.isSome = true
  apart : ∀ h, s.ghost.handed = some h → ∀ g ∈ s.ghost.waiting, ∀ r ∈ g, r.id ∉ h.ids
  fresh : s.ghost.started = true → s.ghost.handed = none
  open_ : L.browser = false → s.ghost.started = true ∨ Owing s → NoneOpen s.disk
  handed : HandedClean s.hist

/-- What a write does to a record that waits. -/
theorem waiting_rewrite {old new : MessageRecord} (hw : Rewrite L True s old new)
    (hfind : s.disk.records.find old.id = some old) (hdir : old.direction = .inbound)
    (hnot : ¬ InHand s old.id) (hwait : s.ghost.waiting ≠ [])
    (h : ¬ OutOfReach old ∨ L.browser = true ∧ old.release.isSome = true) :
    ¬ OutOfReach new ∨ L.browser = true ∧ new.release.isSome = true := by
  have htaken : Taken L s old.id → L.browser = true ∧ old.release.isSome = true := by
    rintro ⟨r, hr, _, hc⟩
    rw [hfind] at hr
    cases hr
    exact hc.resolve_left hnot
  have hsame : new.disposition = old.disposition →
      ¬ OutOfReach new ∨ L.browser = true ∧ new.release.isSome = true := fun hd =>
    h.imp (fun hn ho => hn (by rwa [OutOfReach, hd] at ho)) fun ⟨hb, hr⟩ => ⟨hb, hw.release hr⟩
  cases hw with
  | noted hu => exact hsame hu.disposition
  | parked _ _ hrel _ hc =>
    rcases hc with hc | ⟨_, hnil⟩
    · exact .inr ⟨(htaken hc).1, by rw [hrel]; exact (htaken hc).2⟩
    · exact absurd hnil hwait
  | parkedReply g hout =>
    rw [hdir] at hout
    cases hout
  | failed ht _ _ hrel => exact .inr ⟨(htaken ht).1, by rw [hrel]; exact (htaken ht).2⟩
  | released _ _ _ hd => exact hsame hd
  | completed _ _ hd => exact hsame hd
  | settled _ _ _ _ _ _ _ hd => exact hsame hd

/-- Before a group is handed over, a write leaves no record both out of reach and open. -/
theorem open_rewrite {old new : MessageRecord} (hw : Rewrite L True s old new)
    (hb : L.browser = false) (hnone : s.ghost.handed = none) (hopen : new.openRelease.isSome = true)
    (h : old.openRelease.isSome = true → ¬ OutOfReach old) : ¬ OutOfReach new := by
  have hnot : ¬ InHand s old.id := by
    rintro ⟨g, hg, _⟩
    rw [hnone] at hg
    cases hg
  have htaken : ¬ Taken L s old.id := by
    rintro ⟨_, _, _, hc | ⟨hb', _⟩⟩
    · exact hnot hc
    · rw [hb] at hb'
      cases hb'
  have hsame : new.release = old.release → new.disposition = old.disposition → ¬ OutOfReach new := by
    intro hr hd ho
    rw [MessageRecord.openRelease, hr] at hopen
    rw [OutOfReach, hd] at ho
    exact h hopen ho
  cases hw with
  | noted hu => exact hsame hu.release hu.disposition
  | parked _ _ hrel _ hc =>
    rcases hc with hc | ⟨hnil, _⟩
    · exact absurd hc htaken
    · rw [MessageRecord.openRelease, hrel, hnil] at hopen
      cases hopen
  | parkedReply g _ hg =>
    rw [hnone] at hg
    cases hg
  | failed ht => exact absurd ht htaken
  | released _ _ hc =>
    rcases hc with hc | hc
    · exact absurd hc hnot
    · rw [hb] at hc
      cases hc
  | completed _ _ _ hrel =>
    simp [MessageRecord.openRelease, hrel, Store.completedRelease] at hopen
  | settled _ _ _ _ _ _ _ hd hrel => exact hsame hrel hd

/-- A record whose turn failed was released. -/
theorem failed_rewrite {old new : MessageRecord} (hw : Rewrite L True s old new)
    (hd : new.disposition = .permanentError)
    (h : old.disposition = .permanentError → old.release.isSome = true) :
    new.release.isSome = true := by
  cases hw with
  | failed _ hsome _ hrel => rw [hrel]; exact hsome
  | parked _ hpark | parkedReply _ _ _ _ _ _ hpark =>
    rw [hpark] at hd
    cases hd
  | noted hu => rw [hu.release]; exact h (hu.disposition.symm.trans hd)
  | released _ _ _ _ hrel => rw [hrel]; rfl
  | completed _ _ _ hrel => rw [hrel]; rfl
  | settled _ _ _ _ _ _ _ hsame hrel => rw [hrel]; exact h (hsame.symm.trans hd)

theorem startsClean_of_suffix {h h' : List Entry} (hs : h <:+ h') (hc : StartsClean L h') :
    StartsClean L h := fun hb t ht => hc hb t (hs.subset ht)

/-- The write of a record file keeps the groups within reach. -/
theorem Reach.record {r : MessageRecord} (h : Reach L s) (hbase : base L s)
    (hm : RecordMove L True s r) : Reach L ((Act.record r).apply s) := by
  have hghost : ((Act.record r).apply s).ghost.waiting = s.ghost.waiting ∧
      ((Act.record r).apply s).ghost.handed = s.ghost.handed ∧
      ((Act.record r).apply s).ghost.started = s.ghost.started ∧
      ((Act.record r).apply s).ghost.reissuing = s.ghost.reissuing := by
    rw [Act.apply, World.putRecord_ghost, Ghost.put_eq]
    exact ⟨rfl, rfl, rfl, rfl⟩
  have howing : Owing ((Act.record r).apply s) ↔ Owing s := by
    rw [Owing, hghost.2.2.2, Act.apply, World.putRecord_mem, Owing]
  have hfind : ∀ i, ((Act.record r).apply s).disk.records.find i =
      if i = r.id then some r else s.disk.records.find i := fun i => by
    rw [Act.apply, World.putRecord_disk, Table.find_put]
  constructor
  case failed =>
    intro i x hx hd
    rw [hfind] at hx
    split at hx
    · cases hx
      cases hm with
      | captured _ hfits =>
        obtain ⟨_, _, hc, _⟩ := hfits
        rcases hc with hc | hc | hc <;> rw [show r.disposition = _ from hc] at hd <;> cases hd
      | refused _ _ _ _ hc | replied _ _ _ _ hc =>
        rw [hc] at hd
        cases hd
      | rewritten old hold _ hr => exact failed_rewrite hr hd (h.failed _ old hold)
    · exact h.failed i x hx hd
  case inbound =>
    rw [hghost.1]
    intro g hg y hy
    obtain ⟨x, hx, hdir⟩ := h.inbound g hg y hy
    obtain ⟨x', hx', hk, _⟩ := (Move.grows (a := .record r) hm).records _ x hx
    exact ⟨x', hx', hk.direction.trans hdir⟩
  case waiting =>
    rw [hghost.1]
    intro g hg y hy x hx
    rw [hfind] at hx
    split at hx
    · rename_i hi
      cases hx
      obtain ⟨old, hold, hdir⟩ := h.inbound g hg y hy
      have hreach := h.waiting g hg y hy old hold
      rw [hi] at hold
      cases hm with
      | captured hnone | refused _ hnone | replied _ hnone =>
        rw [hnone] at hold
        cases hold
      | rewritten old' hold' hk hr =>
        rw [hold'] at hold
        cases hold
        refine waiting_rewrite hr (by rw [← hk.id]; exact hold') hdir ?_ (List.ne_nil_of_mem hg) hreach
        rintro ⟨f, hf, hmem⟩
        exact h.apart f hf g hg y hy (by rw [hi, hk.id]; exact hmem)
    · exact h.waiting g hg y hy x hx
  case apart =>
    rw [hghost.1, hghost.2.1]
    exact h.apart
  case fresh =>
    rw [hghost.2.1, hghost.2.2.1]
    exact h.fresh
  case open_ =>
    intro hb hwhen i x hx hdir hopen
    rw [hghost.2.2.1, howing] at hwhen
    rw [hfind] at hx
    have hnone : s.ghost.handed = none := hwhen.elim h.fresh hbase.owing
    split at hx
    · cases hx
      cases hm with
      | captured _ hfits =>
        rw [MessageRecord.openRelease, show r.release = none from hfits.1] at hopen
        cases hopen
      | refused _ _ hout | replied _ _ hout =>
        rw [hout] at hdir
        cases hdir
      | rewritten old hold hk hr =>
        exact open_rewrite hr hb hnone hopen fun ho =>
          h.open_ hb hwhen _ old hold (hk.direction.symm.trans hdir) ho
    · exact h.open_ hb hwhen i x hx hdir hopen
  case handed =>
    intro t ht records R reissue he
    rcases World.mem_hist_apply ht with ht | ⟨e, hlog, rfl⟩
    · exact h.handed t ht records R reissue he
    · subst he
      simp only [Act.logs, writeEvents] at hlog
      split at hlog
      · cases hlog
      · split at hlog <;> cases hlog

/-- Acts that write no record and hand no group over say nothing of either. -/
theorem Reach.congr {s' : World} (h : Reach L s) (hdisk : s'.disk.records = s.disk.records)
    (hwait : s'.ghost.waiting = s.ghost.waiting)
    (hids : s'.ghost.handed.map (·.ids) = s.ghost.handed.map (·.ids))
    (hstart : s'.ghost.started = true → s.ghost.started = true)
    (howing : Owing s' → s.ghost.started = true ∨ Owing s)
    (hhist : HandedClean s'.hist) : Reach L s' where
  failed := by rw [hdisk]; exact h.failed
  inbound := by rw [hdisk, hwait]; exact h.inbound
  waiting := by rw [hdisk, hwait]; exact h.waiting
  apart f hf := by
    rw [hf, Option.map_some, eq_comm, Option.map_eq_some_iff] at hids
    obtain ⟨f', hf', he⟩ := hids
    rw [hwait, ← he]
    exact h.apart f' hf'
  fresh hs := by
    have := h.fresh (hstart hs)
    rw [this] at hids
    exact Option.map_eq_none_iff.1 hids
  open_ hb hwhen := by
    rw [NoneOpen, hdisk]
    exact h.open_ hb (hwhen.elim (fun hs => .inl (hstart hs)) howing)
  handed := hhist

theorem HandedClean.cons {hist : List Entry} {t : Entry} (h : HandedClean hist)
    (ht : ∀ records R reissue, t.event ≠ .handed records R reissue) : HandedClean (t :: hist) := by
  intro u hu records R reissue he
  rcases List.mem_cons.1 hu with rfl | hu
  · exact absurd he (ht records R reissue)
  · exact h u hu records R reissue he

/-- The program points keep the groups within reach; the groups that are made are. -/
theorem Reach.mark {e : Event} (h : Reach L s) (hbase : base L s) (hm : MarkMove L True s e)
    (hclean : L.browser = false → e = .started → NoneOpen s.disk) : Reach L ((Act.mark e).apply s) := by
  have hhist : HandedClean ((Act.mark e).apply s).hist := h.handed.cons fun records R reissue he => by
    rw [show e = .handed records R reissue from he] at hm
    cases hm
  cases hm with
  | started hg hmem =>
    refine ⟨h.failed, h.inbound, h.waiting, h.apart, fun _ => ?_, fun hb _ => hclean hb rfl, hhist⟩
    simp [Act.apply, Ghost.mark, hg]
  | grouped groups _ hnone _ hgroups =>
    refine ⟨h.failed, fun g hg r hr => ⟨r, (hgroups g hg r hr).1, (hgroups g hg r hr).2.1⟩,
      fun g hg r hr x hx => ?_, fun f hf => ?_, h.fresh, fun hb hwhen => ?_, hhist⟩
    · obtain ⟨hfind, hdir, hcase⟩ := hgroups g hg r hr
      have hxr : x = r := Option.some.inj (Eq.trans (show some x = s.disk.records.find r.id from hx.symm) hfind)
      subst hxr
      left
      rcases hcase with ⟨hpark, hrel⟩ | ⟨R, hR, hopen⟩
      · rintro (hd | hd)
        · exact hpark hd
        · have := h.failed _ x hfind hd
          rw [hrel] at this
          cases this
      · have hne : s.ghost.reissuing ≠ [] := List.ne_nil_of_mem hR
        have hb : L.browser = false := by
          by_contra hb
          exact hne (hbase.reissuing (by simpa using hb))
        exact h.open_ hb (.inr (.inr hne)) _ x hfind hdir (by rw [hopen]; rfl)
    · rw [show s.ghost.handed = some f from hf] at hnone
      cases hnone
    · exact h.open_ hb (hwhen.imp id fun ho => ho.elim .inl fun ho => absurd rfl ho)
  | delivering =>
    exact h.congr rfl rfl rfl id (fun ho => .inr (ho.elim .inl fun ho => absurd rfl ho)) hhist
  | unrecorded =>
    exact h.congr rfl rfl (Ghost.mark_ids _ _) id (fun ho => .inr ho) hhist
  | begun | turn | turned | letGo | holds | stops | faulted | send | settled =>
    exact h.congr rfl rfl rfl id (fun ho => .inr ho) hhist

/-- A group that is handed over waited, and leaves the groups it shares no record with. -/
theorem Reach.hand {records : List MessageRecord} {R : String} {reissue : Bool} (h : Reach L s)
    (hm : HandMove L s records reissue) : Reach L ((Act.hand records R reissue).apply s) where
  failed := h.failed
  inbound g hg := h.inbound g (List.mem_of_mem_filter hg)
  waiting g hg := h.waiting g (List.mem_of_mem_filter hg)
  apart f hf g hg r hr := by
    cases hf
    have := (List.mem_filter.1 hg).2
    simpa using List.all_eq_true.1 this r hr
  fresh hs := by cases hs
  open_ _ hwhen := by
    rcases hwhen with hs | ho
    · cases hs
    · exact absurd ho hm.owing
  handed := by
    intro t ht records' R' reissue' he
    rcases List.mem_cons.1 ht with rfl | ht
    · cases he
      intro r hr x hx
      obtain ⟨g, hg, hin⟩ := hm.waiting
      obtain ⟨y, hy, hid⟩ := hin r hr
      rcases h.waiting g hg y hy x (by rw [hid]; exact hx) with hn | ⟨hb, hrel⟩
      · exact hn
      · have hre : reissue = false := by
          cases reissue with
          | false => rfl
          | true => rw [hm.reissue rfl] at hb; cases hb
        rw [hm.browser hb hre r hr x hx] at hrel
        cases hrel
    · exact h.handed t ht records' R' reissue' he

theorem reach_lasts (L : Loop) : Lasting L fun s => StartsClean L s.hist → Reach L s where
  act a s hbase hj hm hclean := by
    have h := hj (startsClean_of_suffix (World.suffix_apply a s) hclean)
    cases a with
    | record r => exact h.record hbase hm
    | mark e => exact h.mark hbase hm fun hb he => hclean hb _ (.head _) he
    | mem m =>
      refine h.congr rfl rfl rfl id (fun ho => ?_) h.handed
      rcases ho with ho | ho
      · rcases hm.recovering with he | ⟨_, _, _, hs, _⟩
        · exact .inr (.inl (by rw [← he]; exact ho))
        · exact .inl hs
      · exact .inr (.inr ho)
    | take releaseIds =>
      refine ⟨h.failed, fun g hg => (by cases hg), fun g hg => (by cases hg), fun f hf => (by cases hf),
        fun _ => rfl, fun hb hwhen => h.open_ hb (hwhen.imp id fun ho => ?_),
        h.handed.cons fun _ _ _ he => by cases he⟩
      rcases ho with ho | ho
      · exact absurd rfl ho
      · left
        intro hnone
        rw [Move] at hm
        rw [hnone] at hm
        exact ho hm
    | hand records R reissue => exact h.hand hm
    | seq | raw | index | request | teaching | cursor | thread | poll | latch =>
      exact h.congr rfl rfl rfl id (fun ho => .inr ho) h.handed
  clock s t hj hclean :=
    (hj hclean).congr rfl rfl rfl id (fun ho => .inr ho) (hj hclean).handed
  tend s s' hj ht hclean := by
    subst ht
    exact (hj hclean).congr rfl rfl rfl id (fun ho => .inr ho) (hj hclean).handed
  dies s hj hclean := by
    have h := hj (startsClean_of_suffix (List.suffix_cons _ _) hclean)
    exact ⟨h.failed, fun g hg => (by cases hg), fun g hg => (by cases hg), fun f hf => (by cases hf),
      fun _ => rfl, fun _ hwhen => hwhen.elim (fun h => (by cases h)) fun ho =>
        ho.elim (fun h => absurd rfl h) fun h => absurd rfl h,
      h.handed.cons fun _ _ _ he => by cases he⟩

/-- In a run in which every start finds no inbound record both out of reach and open, no
group that is handed over has a record out of reach. -/
theorem handed_clean {c : Service.State (sig L)} (hc : (process L).Reachable c)
    (hstarts : StartsClean L c.st.hist) : HandedClean c.st.hist := by
  refine ((reach_lasts L).reachable (fun s hs _ => ?_) hc hstarts).handed
  obtain ⟨_, hmem, hghost, hhist, hrows⟩ := hs
  refine ⟨fun i x hx hd => ?_, ?_, ?_, ?_, ?_, fun _ hwhen => ?_, ?_⟩
  · obtain ⟨_, _, hc, _⟩ := hrows x (Table.find_mem hx)
    rcases hc with hc | hc | hc <;> rw [show x.disposition = _ from hc] at hd <;> cases hd
  · rw [hghost]
    exact fun g hg => by cases hg
  · rw [hghost]
    exact fun g hg => by cases hg
  · rw [hghost]
    exact fun f hf => by cases hf
  · rw [hghost]
    exact fun _ => rfl
  · rw [Owing, hghost, hmem] at hwhen
    rcases hwhen with h | h | h
    · cases h
    · exact absurd rfl h
    · exact absurd rfl h
  · rw [hhist]
    exact fun t ht => by cases ht

/-! ## The run that gives a parked message to the model -/

abbrev mail : Channel := { kind := "email", account := "agent@example.org" }

abbrev mailLoop : Loop := oneLoop mail { channels := [mail] }

def captures : Given := { batch := { entries := [{ record := inboundMessage mail "client" "1" }] } }

/-- The first process dies between the parking of the message and the end of its
release; the second re-issues the release. -/
def script : List (Service.Episode (sig mailLoop) Job) :=
  [.boot (Given.answer {}), .cut .pass 74 (Given.answer captures),
    .boot (Given.answer {}), .job .pass (Given.answer {})]

/-- A group that is handed over has a record out of reach. -/
def handsParked (w : World) : Bool :=
  w.hist.any fun t => match t.event with
    | .handed records _ _ =>
      records.any fun r => (t.disk.records.find r.id).any fun x => decide (OutOfReach x)
    | _ => false

theorem parked_handed : ∃ c : Service.State (sig mailLoop), (process mailLoop).Reachable c ∧
    ¬ HandedClean c.st.hist := by
  obtain ⟨c, hc, hbad⟩ := played handsParked script (by decide +kernel)
  refine ⟨c, hc, fun hclean => ?_⟩
  obtain ⟨t, ht, hbad⟩ := List.any_eq_true.1 hbad
  split at hbad
  · rename_i records R reissue he
    obtain ⟨r, hr, hbad⟩ := List.any_eq_true.1 hbad
    obtain ⟨x, hx, hout⟩ := (Option.any_eq_true _ _).1 hbad
    exact hclean t ht records R reissue he r hr x hx (by simpa using hout)
  · cases hbad

/-- A start with an inbound record both out of reach and open. -/
def startsUnclean (w : World) : Bool :=
  w.hist.any fun t => match t.event with
    | .started => t.disk.records.rows.any fun x =>
      x.direction == .inbound && x.openRelease.isSome && decide (OutOfReach x)
    | _ => false

def hands (w : World) : Bool :=
  w.hist.any fun t => match t.event with
    | .handed _ _ _ => true
    | _ => false

/-- The message is released and dropped by a crash of the turn, and handed over again. -/
theorem handed_clean_run : ∃ c : Service.State (sig mailLoop), (process mailLoop).Reachable c ∧
    hands c.st = true ∧ HandedClean c.st.hist := by
  obtain ⟨c, hc, hrun⟩ := played (L := mailLoop) (fun w => hands w && !startsUnclean w)
    ([.boot (Given.answer {}), .cut .pass 60 (Given.answer captures),
      .boot (Given.answer {}), .job .pass (Given.answer {})]) (by decide +kernel)
  simp only [Bool.and_eq_true, Bool.not_eq_true', startsUnclean, List.any_eq_false] at hrun
  refine ⟨c, hc, hrun.1, handed_clean hc fun _ t ht he i x hx hdir hopen hout => ?_⟩
  have := hrun.2 t ht
  rw [he] at this
  simp only [List.any_eq_true, not_exists, not_and, Bool.and_eq_true, beq_iff_eq,
    decide_eq_true_eq] at this
  exact this x (Table.find_mem hx) ⟨hdir, hopen⟩ hout

end CarbonRuntime.Bugs.ParkedReissue
