import CarbonRuntime.Runtime.Process
import CarbonRuntime.Stream.Changes

/-!
# A record that is captured again

The calls that touch one record of one source, in any order: captures, releases, their completions,
annotations and settlements (stream/store.ts:287-330, 368-377, 574-624, 719-738, 802-816). A capture merges
into the record that is there: its attachments are added by their digests, and nothing else changes.

**Results.** `unionAttachments_joined`: a union adds at the end, no digest twice and none that is there.
`capture_converges`: so does any run, and its digests are those the record had and those of every capture that
was not refused, whatever the order; a capture of what is there leaves the ordinal, the payloads and the cursor
alone changed.
-/

open CarbonRuntime.Core CarbonRuntime.Stream

namespace CarbonRuntime.Store

/-! ## A union by digest -/

def digests (l : List Attachment) : List String := l.map (·.sha256)

/-- Attachments were added at the end, no digest of them twice and none that was there; the digests are those
that were there and `D`. -/
structure Joined (l : List Attachment) (D : String → Prop) (m : List Attachment) : Prop where
  added : ∃ more, m = l ++ more ∧ (digests more).Nodup ∧ ∀ d ∈ digests more, d ∉ digests l
  digests : ∀ d, d ∈ digests m ↔ d ∈ digests l ∨ D d

variable {l m k : List Attachment} {D E : String → Prop}

theorem Joined.refl (l : List Attachment) : Joined l (fun _ => False) l :=
  ⟨⟨[], by simp [Store.digests]⟩, fun d => by simp⟩

theorem Joined.trans (h : Joined l D m) (h' : Joined m E k) : Joined l (fun d => D d ∨ E d) k := by
  obtain ⟨a, rfl, ha, hal⟩ := h.added
  obtain ⟨b, rfl, hb, hbm⟩ := h'.added
  refine ⟨⟨a ++ b, List.append_assoc l a b, ?_, ?_⟩, fun d => ?_⟩
  · rw [Store.digests, List.map_append, List.nodup_append]
    refine ⟨ha, hb, ?_⟩
    rintro d hd _ hd' rfl
    exact hbm d hd' (by rw [Store.digests, List.map_append]; exact List.mem_append_right _ hd)
  · intro d hd
    rw [Store.digests, List.map_append] at hd
    rcases List.mem_append.1 hd with hd | hd
    · exact hal d hd
    · exact fun hl => hbm d hd (by rw [Store.digests, List.map_append]; exact List.mem_append_left _ hl)
  · rw [h'.digests, h.digests, or_assoc]

theorem Joined.congr (h : Joined l D m) (hD : ∀ d, D d ↔ E d) : Joined l E m :=
  ⟨h.added, fun d => by rw [h.digests, hD]⟩

theorem unionAttachments_joined (more l : List Attachment) :
    Joined l (· ∈ digests more) (unionAttachments l more) := by
  induction more generalizing l with
  | nil => exact (Joined.refl l).congr fun d => by simp [digests]
  | cons a more ih =>
    rw [unionAttachments]
    split
    · rename_i hany
      refine ⟨(ih l).added, fun d => ?_⟩
      obtain ⟨b, hb, hsha⟩ := List.any_eq_true.1 hany
      have hmem : a.sha256 ∈ digests l := List.mem_map.2 ⟨b, hb, by simpa using hsha⟩
      have hcons : d ∈ digests (a :: more) ↔ d = a.sha256 ∨ d ∈ digests more := by simp [digests]
      rw [(ih l).digests, hcons]
      constructor
      · exact fun h => h.imp_right .inr
      · rintro (h | rfl | h)
        · exact .inl h
        · exact .inl hmem
        · exact .inr h
    · rename_i hany
      have hnew : a.sha256 ∉ digests l := fun h => by
        obtain ⟨b, hb, hsha⟩ := List.mem_map.1 h
        exact hany (List.any_eq_true.2 ⟨b, hb, by simp [hsha]⟩)
      have hone : Joined l (· = a.sha256) (l ++ [a]) :=
        ⟨⟨[a], rfl, by simp [digests], by simpa [digests] using hnew⟩, fun d => by simp [digests]⟩
      exact (hone.trans (ih (l ++ [a]))).congr fun d => by simp [digests]

/-! ## The calls -/

inductive Touch
  | capture (r : MessageRecord) (cursor : Option (CursorKind × String)) (typeFaults : List Fault)
      (raw : Option String)
  | release (record : MessageRecord) (rel : Release) (at_ : Int) (holdApplies : Bool)
  | completeRelease (i : Identity) (at_ : String)
  | annotate (i : Identity) (fields : AdapterFields → AdapterFields)
  | settleDelivery (requestId : String) (status : Status) (chunkIds : Option (List String))
      (completedAt : Option String)

def Touch.program (L : Loop) : Touch → Program L MessageRecord
  | .capture r cursor typeFaults raw => Store.capture L r cursor typeFaults none raw
  | .release record rel at_ holdApplies => Store.release L record rel at_ holdApplies
  | .completeRelease i at_ => Store.completeRelease L i at_
  | .annotate i fields => Store.annotate L i fields
  | .settleDelivery requestId status chunkIds completedAt =>
    Store.settleDelivery L requestId status chunkIds completedAt

/-- What is captured, is captured at this path and by this source. -/
def Touch.Fits (i : Identity) (source : String) : Touch → Prop
  | .capture r _ _ _ => r.id = i ∧ r.source = source
  | _ => True

/-- The digests that come with a capture that is not refused. -/
def Touch.brings (L : Loop) : Touch → List String
  | .capture r _ typeFaults _ => if captureFaults L.js r typeFaults = [] then digests r.attachments else []
  | _ => []

/-- Whole calls, one after the other. -/
def touches (L : Loop) (i : Identity) (source : String) : LTS World Touch where
  init _ := True
  step s c s' := c.Fits i source ∧ ∃ x, Prog.Runs (c.program L) s x s'

variable {L : Loop} {i : Identity} {from_ : String} {s s' : World} {r x : MessageRecord}
  {cursor : Option (CursorKind × String)} {typeFaults : List Fault} {raw : Option String} {c : Touch}
  {cs cs' : List Touch}

/-- A capture leaves the disk as `captured` says, refused or not. -/
theorem capture_disk {y : Prog.Result (sig L) MessageRecord}
    (h : Prog.Runs (capture L r cursor typeFaults none raw) s y s') :
    s'.disk = (captured L.js r cursor typeFaults raw s.disk).2 := by
  have hwp := wp_capture (I := fun _ _ => True) (s := s) (L := L) r cursor typeFaults raw trivial
    fun _ => ⟨trivial, trivial⟩
  rw [tracking_true] at hwp
  have := plain_runs h hwp
  cases y with
  | ok y => exact (congrArg Prod.snd this).symm
  | error e =>
    obtain ⟨faults, -, hd⟩ := this
    exact (congrArg Prod.snd hd).symm

/-- What a capture leaves at the record's path. -/
theorem capture_find {y : Prog.Result (sig L) MessageRecord}
    (h : Prog.Runs (capture L r cursor typeFaults none raw) s y s') (hx : s.disk.records.find r.id = some x)
    (hsource : x.source = r.source) : s'.disk.records.find r.id = some
      (if captureFaults L.js r typeFaults = [] then mergeRecords x r else x) := by
  rw [capture_disk h, captured_records]
  split
  · have hclaimed : claimed x r = false := by simp [claimed, hsource]
    rw [find_stored, if_pos rfl, landed, hx]
    simp [hclaimed]
  · exact hx

/-- The record is there, with these attachments and of this source. -/
def Carries (i : Identity) (l : List Attachment) (source : String) (t : Table MessageRecord.id)
    (_ : Table Cursors.conversationId) : Prop :=
  ∃ x, t.find i = some x ∧ x.attachments = l ∧ x.source = source

/-- A write that keeps the identity, the attachments and source of what was there keeps them of the record. -/
theorem carries_put {t : Table MessageRecord.id} {u : Table Cursors.conversationId} {old new : MessageRecord}
    (h : Carries i l from_ t u) (hold : t.find old.id = some old) (hid : new.id = old.id)
    (hattachments : new.attachments = old.attachments) (hsource : new.source = old.source) :
    Carries i l from_ (t.put new) u := by
  obtain ⟨x, hx, hl, hs⟩ := h
  by_cases hi : i = new.id
  · rw [hi, hid, hold] at hx
    obtain rfl := Option.some.inj hx
    exact ⟨new, by rw [Table.find_put, if_pos hi], hattachments.trans hl, hsource.trans hs⟩
  · exact ⟨x, by rw [Table.find_put, if_neg hi]; exact hx, hl, hs⟩

theorem Stamped.attachments {r r' : MessageRecord} (h : Stamped r r') : r'.attachments = r.attachments := by
  rw [h.eq]

theorem Stamped.source {r r' : MessageRecord} (h : Stamped r r') : r'.source = r.source := by rw [h.eq]

theorem tracking_record {I : Table MessageRecord.id → Table Cursors.conversationId → Prop} {new : MessageRecord} :
    (tracking L I).ok (.record new) s ↔ I (s.disk.records.put new) s.disk.cursors := by
  have hd : ((Act.record new).apply s).disk = { s.disk with records := s.disk.records.put new } :=
    World.putRecord_disk s new
  simp only [tracking, hd]

/-- What a function that writes on a record leaves of it. -/
structure Aside (f : MessageRecord → MessageRecord) : Prop where
  id : ∀ r, (f r).id = r.id
  attachments : ∀ r, (f r).attachments = r.attachments
  source : ∀ r, (f r).source = r.source

theorem wp_rewrite_carries {f : MessageRecord → MessageRecord} (hf : Aside f) (j : Identity)
    (hs : Carries i l from_ s.disk.records s.disk.cursors) :
    Prog.wp (tracking L (Carries i l from_)) (rewrite L j f) (fun _ _ => True) (fun _ _ => True) s := by
  refine wp_rewrite j f hs (by simpa [tracking, Act.apply] using hs) (fun _ => trivial)
    fun old new s' hold hnew hs' hi' => ?_
  have hj : old.id = j := Table.find_key hold
  have hold' : s'.disk.records.find old.id = some old := by rw [hs'.records, hj, hold]
  refine ⟨?_, fun _ => trivial⟩
  exact tracking_record.2 <| carries_put hi' hold' (hnew.id.trans (hf.id old)) (hnew.attachments.trans (hf.attachments old))
    (hnew.source.trans (hf.source old))

theorem aside_withRelease (rel : Release) : Aside (withRelease rel) := ⟨fun _ => rfl, fun _ => rfl, fun _ => rfl⟩

theorem aside_completed (at_ : String) : Aside (completed at_) := ⟨fun _ => rfl, fun _ => rfl, fun _ => rfl⟩

theorem aside_annotated (fields : AdapterFields → AdapterFields) : Aside (annotated fields) :=
  ⟨fun _ => rfl, fun _ => rfl, fun _ => rfl⟩

theorem wp_release_carries (record : MessageRecord) (rel : Release) (at_ : Int) (holdApplies : Bool)
    (hs : Carries i l from_ s.disk.records s.disk.cursors) :
    Prog.wp (tracking L (Carries i l from_)) (release L record rel at_ holdApplies) (fun _ _ => True)
      (fun _ _ => True) s := by
  have hrest : ∀ (held : Bool) (s : World), Carries i l from_ s.disk.records s.disk.cursors →
      Prog.wp (tracking L (Carries i l from_)) (do
        refuse L (pathFaults L.js record.id)
        let w ← fetch L
        refuse L (releaseFaults record held (w.disk.records.find record.id).isSome)
        rewrite L record.id (withRelease rel)) (fun _ _ => True) (fun _ _ => True) s := by
    intro held s hs
    simp only [Prog.wp_bind, wp_refuse, wp_fetch]
    refine ⟨fun _ => ⟨fun _ => ?_, fun _ => trivial⟩, fun _ => trivial⟩
    exact wp_rewrite_carries (aside_withRelease rel) record.id hs
  unfold release
  split
  · simp only [recordsIn, Prog.wp_bind, wp_refuse, Prog.wp_pure]
    refine ⟨fun _ => (wp_ask _).2 fun s₁ _ a _ hi => ?_, fun _ => trivial⟩
    simpa only [Prog.wp_bind, wp_refuse] using hrest _ _ hi
  · simpa only [Prog.wp_bind, Prog.wp_pure, wp_refuse, wp_fetch] using hrest false s hs

theorem wp_settle_carries (requestId : String) (status : Status) (chunkIds : Option (List String))
    (completedAt : Option String) (hs : Carries i l from_ s.disk.records s.disk.cursors) :
    Prog.wp (tracking L (Carries i l from_)) (settleDelivery L requestId status chunkIds completedAt)
      (fun _ _ => True) (fun _ _ => True) s := by
  refine wp_settle requestId status chunkIds completedAt hs (by simpa [tracking, Act.apply] using hs)
    (fun _ _ => trivial) fun q old new s' _ hold hnew hs' hi' => ?_
  have hold' : s'.disk.records.find old.id = some old := by
    rw [hs'.records]
    exact Table.mem_find (Table.find_mem hold)
  refine ⟨tracking_record.2 (carries_put hi' hold' hnew.id hnew.attachments hnew.source), fun hi => ⟨?_, fun _ => trivial⟩⟩
  simpa [tracking, Act.apply] using hi

/-- A call that is no capture keeps the record's attachments. -/
theorem touch_carries (hnot : ∀ r cursor typeFaults raw, c ≠ .capture r cursor typeFaults raw)
    (hs : Carries i l from_ s.disk.records s.disk.cursors) :
    Prog.wp (tracking L (Carries i l from_)) (c.program L) (fun _ _ => True) (fun _ _ => True) s := by
  cases c with
  | capture r cursor typeFaults raw => exact absurd rfl (hnot r cursor typeFaults raw)
  | release record rel at_ holdApplies => exact wp_release_carries record rel at_ holdApplies hs
  | completeRelease j at_ => exact wp_rewrite_carries (aside_completed at_) j hs
  | annotate j fields => exact wp_rewrite_carries (aside_annotated fields) j hs
  | settleDelivery requestId status chunkIds completedAt =>
    exact wp_settle_carries requestId status chunkIds completedAt hs

/-! ## Runs -/

/-- The attachments of a record after a call: as they were, or with those of the capture. -/
theorem touch_step (h : (touches L i from_).step s c s') (hx : s.disk.records.find i = some x)
    (hsource : x.source = from_) : ∃ y, s'.disk.records.find i = some y ∧ y.source = from_ ∧
      Joined x.attachments (· ∈ c.brings L) y.attachments := by
  obtain ⟨hfits, z, hrun⟩ := h
  by_cases hcapture : ∃ r cursor typeFaults raw, c = .capture r cursor typeFaults raw
  · obtain ⟨r, cursor, typeFaults, raw, rfl⟩ := hcapture
    obtain ⟨rfl, hr⟩ := hfits
    have hfind := capture_find hrun hx (hsource.trans hr.symm)
    simp only [Touch.brings]
    by_cases hok : captureFaults L.js r typeFaults = []
    · rw [if_pos hok] at hfind ⊢
      exact ⟨_, hfind, hsource, unionAttachments_joined _ _⟩
    · rw [if_neg hok] at hfind ⊢
      exact ⟨_, hfind, hsource, (Joined.refl _).congr fun d => by simp⟩
  · have hnot : ∀ r cursor typeFaults raw, c ≠ .capture r cursor typeFaults raw := fun r cursor typeFaults raw he =>
      hcapture ⟨r, cursor, typeFaults, raw, he⟩
    have hcarries : Carries i x.attachments from_ s.disk.records s.disk.cursors := ⟨x, hx, rfl, hsource⟩
    obtain ⟨y, hy, hl, hs⟩ := (Prog.wp_runs (P := tracking L (Carries i x.attachments from_)) (fun _ _ _ hv => hv.1)
      hrun hcarries (touch_carries hnot hcarries)).1
    have hbrings : c.brings L = [] := by
      cases c with
      | capture r cursor typeFaults raw => exact absurd rfl (hnot r cursor typeFaults raw)
      | _ => rfl
    refine ⟨y, hy, hs, ?_⟩
    rw [hl, hbrings]
    exact (Joined.refl _).congr fun d => by simp

theorem touch_run (h : (touches L i from_).Run s cs s') (hx : s.disk.records.find i = some x)
    (hsource : x.source = from_) : ∃ y, s'.disk.records.find i = some y ∧ y.source = from_ ∧
      Joined x.attachments (fun d => ∃ c ∈ cs, d ∈ c.brings L) y.attachments := by
  induction h generalizing x with
  | nil => exact ⟨x, hx, hsource, (Joined.refl _).congr fun d => by simp⟩
  | cons hst _ ih =>
    obtain ⟨y, hy, hys, hj⟩ := touch_step hst hx hsource
    obtain ⟨z, hz, hzs, hj'⟩ := ih hy hys
    exact ⟨z, hz, hzs, (hj.trans hj').congr fun d => by simp⟩

/-- A record that is there, captured again with what it has: the ordinal, the payloads and the cursor. -/
theorem capture_again (h : (touches L i from_).step s (.capture r cursor typeFaults raw) s')
    (hx : s.disk.records.find i = some x) (hsource : x.source = from_)
    (hhas : ∀ d ∈ digests r.attachments, d ∈ digests x.attachments) :
    ∃ seq raws cursors, s'.disk = { s.disk with seq, raws, cursors } := by
  obtain ⟨⟨rfl, hr⟩, z, hrun⟩ := h
  have hsame : mergeRecords x r = x := by
    rw [mergeRecords, unionAttachments_covered _ _ fun a ha => by
      obtain ⟨b, hb, hsha⟩ := List.mem_map.1 (hhas a.sha256 (List.mem_map_of_mem ha))
      exact ⟨b, hb, hsha⟩]
  have hwritten : ∀ d : Disk, d.records = s.disk.records → written r (s.disk.seq + 1) d = (.ok x, d) := by
    intro d hd
    unfold written
    rw [hd, hx]
    dsimp only
    rw [if_neg (by simp [hsource, hr]), if_neg (not_not.2 hsame)]
  rw [capture_disk hrun, captured]
  split
  · rw [hwritten (Disk.appendRaw { s.disk with seq := s.disk.seq + 1 } r.id raw) rfl]
    cases cursor with
    | none => exact ⟨_, _, _, rfl⟩
    | some k =>
      simp only [Disk.advanceTo, Disk.advance]
      split
      · exact ⟨_, _, _, rfl⟩
      · exact ⟨_, _, _, rfl⟩
  · exact ⟨s.disk.seq, s.disk.raws, s.disk.cursors, rfl⟩

/-- The captures among the calls. -/
def captures (cs : List Touch) : List Touch := cs.filter fun
  | .capture _ _ _ _ => true
  | _ => false

theorem mem_brings {d : String} : (∃ c ∈ cs, d ∈ c.brings L) ↔ ∃ c ∈ captures cs, d ∈ c.brings L := by
  constructor
  · rintro ⟨c, hc, hd⟩
    refine ⟨c, List.mem_filter.2 ⟨hc, ?_⟩, hd⟩
    cases c with
    | capture r cursor typeFaults raw => rfl
    | _ => cases hd
  · rintro ⟨c, hc, hd⟩
    exact ⟨c, (List.mem_filter.1 hc).1, hd⟩

/-- Of a record on disk, whatever calls touch it: its attachments are those it had with those of the captures
that are not refused, added at the end and no digest twice; a capture after them changes its attachments alone,
and the ordinal, the payloads and the cursor alone where it brings nothing; and the same captures in another
order, among any other calls, leave the same digests. -/
theorem capture_converges (hx : s.disk.records.find i = some x) (hsource : x.source = from_)
    (h : (touches L i from_).Run s cs s') : ∃ y, s'.disk.records.find i = some y ∧
      Joined x.attachments (fun d => ∃ c ∈ cs, d ∈ c.brings L) y.attachments ∧
      (∀ r cursor typeFaults raw s'', (touches L i from_).step s' (.capture r cursor typeFaults raw) s'' →
        (∃ z, s''.disk.records.find i = some z ∧ z = { y with attachments := z.attachments } ∧
          y.attachments <+: z.attachments) ∧
        ((∀ d ∈ digests r.attachments, d ∈ digests y.attachments) →
          ∃ seq raws cursors, s''.disk = { s'.disk with seq, raws, cursors })) ∧
      ∀ cs' s'' z, (touches L i from_).Run s cs' s'' → (captures cs').Perm (captures cs) →
        s''.disk.records.find i = some z → ∀ d, d ∈ digests z.attachments ↔ d ∈ digests y.attachments := by
  obtain ⟨y, hy, hys, hj⟩ := touch_run h hx hsource
  refine ⟨y, hy, hj, fun r cursor typeFaults raw s'' hst => ⟨?_, capture_again hst hy hys⟩, ?_⟩
  · obtain ⟨z, hz, -, hjz⟩ := touch_step hst hy hys
    obtain ⟨⟨rfl, hr⟩, w, hrun⟩ := hst
    obtain ⟨more, hmore, -⟩ := hjz.added
    refine ⟨z, hz, ?_, more, hmore.symm⟩
    have hfind := capture_find hrun hy (hys.trans hr.symm)
    rw [hz] at hfind
    have := Option.some.inj hfind
    subst this
    split <;> rfl
  · intro cs' s'' z h' hperm hz d
    obtain ⟨z', hz', -, hj'⟩ := touch_run h' hx hsource
    obtain rfl := Option.some.inj (hz.symm.trans hz')
    rw [hj'.digests, hj.digests, mem_brings, @mem_brings _ cs]
    exact or_congr_right (exists_congr fun c => and_congr_left fun _ => hperm.mem_iff)

/-! ## A photograph that comes later -/

def smallChannel : Channel := { kind := "telegram", account := "bot" }

def smallLoop : Loop := oneLoop smallChannel { channels := [smallChannel] }

instance (q : Ask) (a : q.Answer) (w : World) : Decidable (smallLoop.outside q a w) :=
  inferInstanceAs (Decidable True)

def photo : Attachment :=
  { file := "captures/c/m.attachments/1", mime := "image/png", bytes := 1
    sha256 := "1111111111111111111111111111111111111111111111111111111111111111" }

def message : MessageRecord := inboundMessage smallChannel "m" "1"

/-- The photograph, and the completion of the message. -/
def messageTouches : List Touch :=
  [.capture { message with attachments := [photo] } none [] none, .completeRelease message.id "2"]

/-- The calls, each run to its end. -/
def played : List Touch → World → Option World
  | [], s => some s
  | c :: cs, s => (Prog.finishWith (Given.answer {}) 0 (c.program smallLoop) s).bind fun x => played cs x.2

theorem played_run (hfits : ∀ c ∈ cs, c.Fits i from_) (h : played cs s = some s') :
    (touches smallLoop i from_).Run s cs s' := by
  induction cs generalizing s with
  | nil =>
    obtain rfl := Option.some.inj h
    exact .nil s
  | cons c cs ih =>
    obtain ⟨⟨x, s₁⟩, hc, hrest⟩ := Option.bind_eq_some_iff.1 h
    exact .cons ⟨hfits c List.mem_cons_self, x, Prog.finishWith_runs _ hc⟩
      (ih (fun d hd => hfits d (List.mem_cons_of_mem _ hd)) hrest)

/-- The message has the photograph's digest after both. -/
theorem photo_joined : ∃ s' y, played messageTouches { disk := { records := Table.empty.put message } } = some s' ∧
    s'.disk.records.find message.id = some y ∧
      Joined [] (fun d => ∃ c ∈ messageTouches, d ∈ c.brings smallLoop) y.attachments := by
  obtain ⟨s', hs'⟩ : ∃ s', played messageTouches { disk := { records := Table.empty.put message } } = some s' :=
    ⟨_, rfl⟩
  obtain ⟨y, hy, hj, -⟩ := capture_converges (x := message) rfl rfl
    (@played_run message.id "telegram" _ _ _ (by
      intro c hc
      rcases List.mem_cons.1 hc with rfl | hc
      · exact ⟨rfl, rfl⟩
      · rw [List.mem_singleton.1 hc]
        trivial) hs')
  exact ⟨s', y, hs', hy, hj⟩

end CarbonRuntime.Store
