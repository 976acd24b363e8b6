import CarbonRuntime.Runtime.Process

/-!
# A record whose index line was lost is never indexed

`capture` writes the record file and then its index line (stream/store.ts:314-317), and a
death may fall between the two. The same payload captured again finds the file, is
merged into it, and merging appends no line (store.ts:304-313). The record stays out of
`index.jsonl`, and behind every other record in the release order.

Counterexample: a message is captured, the process dies between the file and the line,
and the message is captured again.
-/

open CarbonRuntime.Core CarbonRuntime.Stream

namespace CarbonRuntime.Bugs.UnindexedRecord

open Store Pass

variable (L : Loop)

/-! ## A store that is captured into -/

/-- What is handed to the store. -/
inductive Item
  | capture (record : MessageRecord) (cursor : Option (CursorKind × String))
    (typeFaults : List Fault) (disposition : Option Disposition) (raw : Option String)
  | park (record : MessageRecord) (reason : String) (cursor : Option (CursorKind × String))
    (typeFaults : List Fault) (raw : Option String)

/-- One item is captured; what the store refuses is its caller's to log. -/
def take : Item → Program L Unit
  | .capture record cursor typeFaults disposition raw =>
    Prog.handle (𝔖 := sig L)
      (Turn.discard L (capture L record cursor typeFaults disposition raw)) fun _ => pure ()
  | .park record reason cursor typeFaults raw =>
    Prog.handle (𝔖 := sig L) (Turn.discard L (park L record reason cursor typeFaults raw))
      fun _ => pure ()

/-- A process that captures what it is handed, and may die at any write. -/
def capturing : Service (sig L) Item where
  boot := pure ()
  job := take L
  lose := lose
  tend s s' := s' = s

/-- It begins on an empty store. -/
def store : LTS (Service.State (sig L)) (Service.Label Item) := (capturing L).lts (· = {})

/-! ## Agreement -/

/-- The index names the records that are on disk, each once, in rising order. -/
structure Agrees (d : Disk) : Prop where
  named : ∀ i, (∃ e ∈ d.index, e.id = i) ↔ (d.records.find i).isSome = true
  once : (d.index.map (·.id)).Nodup
  rising : (d.index.map (·.seq)).Pairwise (· < ·)

/-- A record file without an index line. -/
def Missing (d : Disk) (i : Identity) : Prop :=
  (d.records.find i).isSome = true ∧ ∀ e ∈ d.index, e.id ≠ i

/-- No death fell between a record file and its index line. -/
def Whole (hist : List Entry) : Prop :=
  ∀ t ∈ hist, ∀ replying, t.event = .died replying → ∀ i, ¬ Missing t.disk i

/-- What every write keeps: what is missing once a process died is missing for good. -/
structure Sound (s : World) : Prop where
  there : ∀ e ∈ s.disk.index, (s.disk.records.find e.id).isSome = true
  once : (s.disk.index.map (·.id)).Nodup
  rising : (s.disk.index.map (·.seq)).Pairwise (· < ·)
  below : ∀ e ∈ s.disk.index, e.seq ≤ s.disk.seq
  lost : ∀ t ∈ s.hist, ∀ replying, t.event = .died replying → ∀ i, Missing t.disk i →
    Missing s.disk i

/-- Between two items nothing is missing but what a death took. -/
def Settled (s : World) : Prop :=
  ∀ i, Missing s.disk i → ∃ t ∈ s.hist, ∃ replying, t.event = .died replying ∧ Missing t.disk i

/-- What the writes of a capture meet. -/
def Ok : Act → World → Prop
  | .index e, s => (s.disk.records.find e.id).isSome = true ∧ (∀ x ∈ s.disk.index, x.id ≠ e.id) ∧
    (∀ x ∈ s.disk.index, x.seq < e.seq) ∧ e.seq ≤ s.disk.seq ∧
    ∀ t ∈ s.hist, ∀ replying, t.event = .died replying → ¬ Missing t.disk e.id
  | .seq n, s => s.disk.seq ≤ n
  | .mark _, _ | .take _, _ | .hand _ _ _, _ => False
  | _, _ => True

variable {L} {s s' : World}

theorem Sound.act {a : Act} (h : Sound s) (ha : Ok a s) : Sound (a.apply s) := by
  cases a with
  | mark | take | hand => cases ha
  | seq n => exact ⟨h.there, h.once, h.rising, fun e he => Nat.le_trans (h.below e he) ha, h.lost⟩
  | record r =>
    have hfind : ∀ i, (s.disk.records.find i).isSome = true →
        (((Act.record r).apply s).disk.records.find i).isSome = true := fun i hi => by
      rw [Act.apply, World.putRecord_disk]
      exact Table.find_put_isSome r hi
    have hindex : ((Act.record r).apply s).disk.index = s.disk.index := by
      rw [Act.apply, World.putRecord_disk]
    refine ⟨?_, ?_, ?_, ?_, fun t ht replying he i hi => ?_⟩
    · rw [hindex]
      exact fun e he => hfind _ (h.there e he)
    · rw [hindex]
      exact h.once
    · rw [hindex]
      exact h.rising
    · rw [hindex, Act.apply, World.putRecord_disk]
      exact h.below
    · rcases World.mem_hist_apply ht with ht | ⟨e, hlog, rfl⟩
      · have := h.lost t ht replying he i hi
        exact ⟨hfind i this.1, by rw [hindex]; exact this.2⟩
      · subst he
        simp only [Act.logs, writeEvents] at hlog
        split at hlog
        · cases hlog
        · split at hlog <;> cases hlog
  | index e =>
    obtain ⟨hthere, hnew, hlast, hseq, hlost⟩ := ha
    refine ⟨fun x hx => ?_, ?_, ?_, fun x hx => ?_, fun t ht replying he i hi => ?_⟩
    · rcases List.mem_append.1 hx with hx | hx
      · exact h.there x hx
      · cases List.mem_singleton.1 hx
        exact hthere
    · show ((s.disk.index ++ [e]).map (·.id)).Nodup
      rw [List.map_append, List.nodup_append]
      refine ⟨h.once, by simp, fun i hi j hj => ?_⟩
      obtain ⟨x, hx, rfl⟩ := List.mem_map.1 hi
      rw [List.map_cons, List.map_nil, List.mem_singleton] at hj
      rw [hj]
      exact hnew x hx
    · show ((s.disk.index ++ [e]).map (·.seq)).Pairwise (· < ·)
      rw [List.map_append, List.pairwise_append]
      refine ⟨h.rising, by simp, fun m hm n hn => ?_⟩
      obtain ⟨x, hx, rfl⟩ := List.mem_map.1 hm
      rw [List.map_cons, List.map_nil, List.mem_singleton] at hn
      rw [hn]
      exact hlast x hx
    · rcases List.mem_append.1 hx with hx | hx
      · exact h.below x hx
      · cases List.mem_singleton.1 hx
        exact hseq
    · have := h.lost t ht replying he i hi
      refine ⟨this.1, fun x hx => ?_⟩
      rcases List.mem_append.1 hx with hx | hx
      · exact this.2 x hx
      · cases List.mem_singleton.1 hx
        intro hid
        exact hlost t ht replying he (hid ▸ hi)
  | raw | request | teaching | cursor | thread | poll | latch | mem =>
    exact ⟨h.there, h.once, h.rising, h.below, h.lost⟩

/-- The protocol of a capture. -/
def guarded (L : Loop) : Proto (sig L) where
  inv := Sound
  ok := Ok
  heard q a s := q.fits L.browser a s
  rely _ s s' := s' = s
  act_inv _ _ h ha := h.act ha
  hear_inv q a s h _ := by cases q <;> exact ⟨h.there, h.once, h.rising, h.below, h.lost⟩
  rely_inv _ _ _ h hr := by rw [hr]; exact h
  rely_refl := still_refl
  rely_trans := still_trans

/-! ## What one item does -/

theorem Settled.of (h : Settled s) (hm : ∀ i, Missing s'.disk i → Missing s.disk i)
    (hh : ∀ t ∈ s.hist, t ∈ s'.hist) : Settled s' := by
  intro i hi
  obtain ⟨t, ht, replying, he, hmiss⟩ := h i (hm i hi)
  exact ⟨t, hh t ht, replying, he, hmiss⟩

theorem Settled.same (h : Settled s) (hr : s'.disk.records = s.disk.records)
    (hi : s'.disk.index = s.disk.index) (hh : s'.hist = s.hist) : Settled s' :=
  h.of (fun i hm => by rwa [Missing, hr, hi] at hm) fun t ht => by rwa [hh]

/-- Writing over a record that is there takes no line away. -/
theorem Settled.rewritten {r : MessageRecord} (h : Settled s)
    (hr : (s.disk.records.find r.id).isSome = true) : Settled ((Act.record r).apply s) := by
  refine h.of (fun i hm => ?_) fun t ht => (World.suffix_apply (.record r) s).subset ht
  rw [Act.apply, World.putRecord_disk, Missing] at hm
  refine ⟨?_, hm.2⟩
  have hsome := hm.1
  simp only [Table.find_put] at hsome
  split at hsome
  · rename_i he
    rw [he]
    exact hr
  · exact hsome

/-- A record that is new, with its line, leaves nothing more missing. -/
theorem Settled.indexed {r : MessageRecord} {seq : Nat} (h : Settled s) :
    Settled ((Act.index ⟨seq, r.id⟩).apply ((Act.record r).apply s)) := by
  refine h.of (fun i hm => ?_) fun t ht => (World.suffix_apply (.record r) s).subset ht
  have hindex : ((Act.index ⟨seq, r.id⟩).apply ((Act.record r).apply s)).disk.index =
      s.disk.index ++ [⟨seq, r.id⟩] := by
    show ((Act.record r).apply s).disk.index ++ _ = _
    rw [Act.apply, World.putRecord_disk]
  have hrecords : ((Act.index ⟨seq, r.id⟩).apply ((Act.record r).apply s)).disk.records =
      s.disk.records.put r := by
    show ((Act.record r).apply s).disk.records = _
    rw [Act.apply, World.putRecord_disk]
  rw [Missing, hindex, hrecords] at hm
  have hne : i ≠ r.id := fun he => hm.2 ⟨seq, r.id⟩ (by simp) he.symm
  rw [Table.find_put_other _ _ hne] at hm
  exact ⟨hm.1, fun e he => hm.2 e (List.mem_append_left _ he)⟩

theorem Settled.seqOnly (h : Settled s) (hs : SeqOnly s s') : Settled s' := by
  obtain ⟨_, _, rfl⟩ := hs
  exact h.same rfl rfl rfl

/-- What the store refuses leaves nothing missing either. -/
abbrev Keeps (L : Loop) {α : Type} (p : Program L α) : Prop :=
  ∀ s, Sound s → Settled s → Prog.wp (guarded L) p (fun _ => Settled) (fun _ => Settled) s

theorem keeps_cursor (conversationId : String) (kind : CursorKind) (position : String) :
    Keeps L (advanceCursor L conversationId kind position) := by
  intro s _ hset
  unfold advanceCursor
  simp only [Prog.wp_bind, wp_refuse, wp_fetch]
  refine ⟨fun _ => ?_, fun _ => hset⟩
  have hwrite : ∀ c : Cursors, Prog.wp (guarded L) (write L (.cursor c)) (fun _ => Settled)
      (fun _ => Settled) s := fun c => (wp_write _).2 ⟨trivial, fun _ => hset.same rfl rfl rfl⟩
  split <;> split
  · exact (Prog.wp_pure _).2 hset
  · exact hwrite _
  · exact (Prog.wp_pure _).2 hset
  · exact hwrite _

theorem keeps_accept (r : MessageRecord) : Keeps L (acceptBrowserInput L r) := by
  intro s _ hset
  unfold acceptBrowserInput
  split
  · simp only [Prog.wp_bind, wp_fetch, wp_write]
    exact ⟨trivial, fun _ => hset.same rfl rfl rfl⟩
  · exact (Prog.wp_pure _).2 hset

theorem keeps_setDisposition (i : Identity) (d : Disposition) : Keeps L (setDisposition L i d) := by
  intro s hs hset
  refine wp_rewrite i _ hs (Nat.le_succ _) (fun _ => hset) fun old new s₁ hold hnew hs₁ _ => ?_
  have hid : new.id = i := hnew.id.trans (Table.find_key (a := old) hold)
  exact ⟨trivial, fun _ => (hset.seqOnly hs₁).rewritten (by rw [hs₁.records, hid, hold]; rfl)⟩

/-- The file of a record that is new, then its line under the next ordinal. -/
theorem keeps_captureWrite (r : MessageRecord) (hs : Sound s) (hset : Settled s)
    (hseq : ∀ e ∈ s.disk.index, e.seq < s.disk.seq) :
    Prog.wp (guarded L) (captureWrite L r s.disk.seq) (fun _ => Settled) (fun _ => Settled) s := by
  refine wp_captureWrite r _ (fun _ => hset) (fun old hold => ?_) fun hnone => ?_
  · have hid : (mergeRecords old r).id = r.id := Table.find_key (a := old) hold
    exact ⟨fun _ => ⟨trivial, fun _ => hset.rewritten (by rw [hid, hold]; rfl)⟩, fun _ => hset⟩
  · have hnot : ¬ (s.disk.records.find r.id).isSome = true := by
      rw [hnone]
      exact fun h => by cases h
    refine ⟨trivial, fun hs₁ => ⟨?_, fun _ => hset.indexed⟩⟩
    have hdisk := World.putRecord_disk s r
    refine ⟨?_, ?_, ?_, ?_, fun t ht replying he hmiss => ?_⟩
    · rw [Act.apply, hdisk]
      exact (congrArg Option.isSome (Table.find_put_self _ _)).trans rfl
    · rw [Act.apply, hdisk]
      exact fun x hx hid => hnot (by rw [← show x.id = r.id from hid]; exact hs.there x hx)
    · rw [Act.apply, hdisk]
      exact hseq
    · simp only [Act.apply, hdisk, Nat.le_refl]
    · rcases World.mem_hist_apply ht with ht | ⟨e, hlog, rfl⟩
      · exact hnot (hs.lost t ht replying he _ hmiss).1
      · subst he
        simp only [Act.logs, writeEvents, hnone] at hlog
        cases hlog

/-- What `capture` does at its end, whatever it throws. -/
def moving (L : Loop) (r : MessageRecord) (cursor : Option (CursorKind × String)) : Program L Unit :=
  match cursor with
  | some (kind, position) => advanceCursor L r.conversationId kind position
  | none => pure ()

theorem keeps_capture (r : MessageRecord) (cursor : Option (CursorKind × String))
    (typeFaults : List Fault) (disposition : Option Disposition) (raw : Option String) :
    Keeps L (capture L r cursor typeFaults disposition raw) := by
  intro s hs hset
  have hcursor : ∀ s, Sound s → Settled s →
      Prog.wp (guarded L) (moving L r cursor) (fun _ => Settled) (fun _ => Settled) s := by
    intro s₁ hs₁ hset₁
    unfold moving
    split
    · exact keeps_cursor _ _ _ s₁ hs₁ hset₁
    · exact (Prog.wp_pure _).2 hset₁
  simp only [capture, Prog.wp_bind, wp_refuse, Prog.wp_andFinally]
  refine ⟨fun _ => ⟨fun _ => ?_, fun _ => hset⟩, fun _ => hset⟩
  refine wp_nextSeq (Nat.le_succ _) fun s₀ h₀ hseq₀ hs₀ => ?_
  refine wp_appendRaw _ _ hs₀ (fun _ => trivial) fun s₁ h₀₁ hseq₁ hs₁ => ?_
  have hseq : s₁.disk.seq = s.disk.seq + 1 := hseq₁.trans hseq₀
  have hset₁ := hset.seqOnly (h₀.trans h₀₁)
  have hbelow : ∀ e ∈ s₁.disk.index, e.seq < s₁.disk.seq := by
    obtain ⟨_, _, rfl⟩ := h₀.trans h₀₁
    exact fun e he => by rw [hseq]; exact Nat.lt_succ_of_le (hs.below e he)
  have hwrite := keeps_captureWrite (L := L) r hs₁ hset₁ hbelow
  rw [hseq] at hwrite
  refine Prog.wp_mono_inv _ hs₁ hwrite (fun x s₂ hs₂ hset₂ => ?_)
    fun _ s₂ hs₂ hset₂ => hcursor s₂ hs₂ hset₂
  obtain ⟨written, merged⟩ := x
  -- The disposition, the browser's steering and the cursor write no line.
  have hrest : ∀ written : MessageRecord, ∀ s₃, Sound s₃ → Settled s₃ → Prog.wp (guarded L) (do
      if !merged then acceptBrowserInput L written
      pure written)
      (fun _ s₄ => Prog.wp (guarded L) (moving L r cursor) (fun _ => Settled) (fun _ => Settled) s₄)
      (fun _ s₄ => Prog.wp (guarded L) (moving L r cursor) (fun _ => Settled) (fun _ => Settled) s₄)
      s₃ := by
    intro written s₃ hs₃ hset₃
    split
    · rw [Prog.wp_bind]
      exact Prog.wp_mono_inv _ hs₃ (keeps_accept written s₃ hs₃ hset₃)
        (fun _ s₄ hs₄ hset₄ => (Prog.wp_pure _).2 (hcursor s₄ hs₄ hset₄))
        fun _ s₄ hs₄ hset₄ => hcursor s₄ hs₄ hset₄
    · exact (Prog.wp_pure _).2 (hcursor s₃ hs₃ hset₃)
  dsimp only
  split
  · split
    · rw [Prog.wp_bind]
      exact Prog.wp_mono_inv _ hs₂ (keeps_setDisposition _ _ s₂ hs₂ hset₂)
        (fun written' s₃ hs₃ hset₃ => hrest written' s₃ hs₃ hset₃)
        fun _ s₃ hs₃ hset₃ => hcursor s₃ hs₃ hset₃
    · exact hrest written s₂ hs₂ hset₂
  · exact hrest written s₂ hs₂ hset₂

theorem keeps_take (item : Item) : Keeps L (take L item) := by
  intro s hs hset
  have hgo : ∀ p : Program L MessageRecord, Keeps L p → Prog.wp (guarded L)
      (Prog.handle (𝔖 := sig L) (Turn.discard L p) fun _ => pure ()) (fun _ => Settled)
      (fun _ => Settled) s := by
    intro p hp
    rw [Prog.wp_handle]
    unfold Turn.discard
    rw [Prog.wp_bind']
    exact Prog.wp_mono _ (hp s hs hset) (fun _ _ h => (Prog.wp_pure _).2 h)
      fun _ _ h => (Prog.wp_pure _).2 h
  cases item with
  | capture r cursor typeFaults disposition raw =>
    exact hgo _ (keeps_capture r cursor typeFaults disposition raw)
  | park r reason cursor typeFaults raw => exact hgo _ (keeps_capture _ cursor typeFaults none raw)

/-! ## Runs -/

/-- What is known of a store that is captured into. -/
def Known (L : Loop) : Service.State (sig L) → Prop :=
  Service.Good (guarded L) (guarded L) (fun s => Sound s ∧ Settled s) (fun s => Sound s ∧ Settled s)
    (fun _ _ => True) fun _ _ => True

/-- A death takes what is missing into the history. -/
theorem Sound.lose (h : Sound s) : Sound (lose s) ∧ Settled (lose s) := by
  refine ⟨⟨h.there, h.once, h.rising, h.below, fun t ht replying he i hi => ?_⟩, fun i hi =>
    ⟨_, .head _, _, rfl, hi⟩⟩
  rcases List.mem_cons.1 ht with rfl | ht
  · exact hi
  · exact h.lost t ht replying he i hi

theorem known_reachable {c : Service.State (sig L)} (hc : (store L).Reachable c) : Known L c := by
  obtain ⟨⟨ph, s⟩, ls, ⟨hph, hs⟩, hr⟩ := hc
  simp only at hph hs
  subst hph hs
  have hv : ∀ q a s, (sig L).valid q a s → (guarded L).heard q a s := fun _ _ _ h => h.1
  have hinit : Known L ⟨.down, {}⟩ :=
    ⟨⟨fun _ he => (by cases he), List.nodup_nil, List.Pairwise.nil, fun _ he => (by cases he),
      fun _ ht => (by cases ht)⟩, fun _ hi => (by cases hi.1)⟩
  have hall : ∀ {c c' : Service.State (sig L)} {ls : List (Service.Label Item)},
      (store L).Run c ls c' → Known L c → Known L c' := by
    intro c c' ls hr
    induction hr with
    | nil => exact id
    | cons hst _ ih =>
      refine fun hk => ih (Service.rule (capturing L) hv hv (fun s s' hs ht => ?_)
        (fun s hs => ⟨hs.1, (Prog.wp_pure _).2 hs⟩) (fun item s hs => ⟨hs.1, ?_⟩)
        (fun s hs => hs.lose) (fun s hs => hs.1.lose) (fun s hs => hs.lose) hst hk)
      · rw [show s' = s from ht]
        exact hs
      · exact Prog.wp_mono_inv _ hs.1 (keeps_take item s hs.1 hs.2) (fun _ _ hi h => ⟨hi, h⟩)
          fun _ _ _ _ => trivial
  exact hall hr hinit

/-- Between two items the index agrees with the record files exactly where no death of the
run fell between a record file and its line. -/
theorem agrees_iff {s : World} (hc : (store L).Reachable ⟨.idle, s⟩) :
    Agrees s.disk ↔ Whole s.hist := by
  have hk : Sound s ∧ Settled s := known_reachable hc
  obtain ⟨hs, hset⟩ := hk
  constructor
  · intro h t ht replying he i hi
    obtain ⟨hsome, hno⟩ := hs.lost t ht replying he i hi
    obtain ⟨e, hin, hid⟩ := (h.named i).2 hsome
    exact hno e hin hid
  · intro h
    refine ⟨fun i => ⟨?_, fun hsome => ?_⟩, hs.once, hs.rising⟩
    · rintro ⟨e, he, rfl⟩
      exact hs.there e he
    · by_contra hno
      push Not at hno
      obtain ⟨t, ht, replying, he, hmiss⟩ := hset i ⟨hsome, hno⟩
      exact h t ht replying he i hmiss

/-! ## The record that stays out of the index -/

abbrev mail : Channel := { kind := "email", account := "agent@example.org" }

abbrev mailLoop : Loop := oneLoop mail { channels := [mail] }

def message (messageId : String) : Item :=
  .capture (inboundMessage mail messageId "1") none [] none (some "mail")

theorem played_store (check : World → Bool) (script : List (Service.Episode (sig mailLoop) Item))
    (h : ((capturing mailLoop).play (false, {}) script).any (fun c => c.1 && check c.2) = true) :
    ∃ s, (store mailLoop).Reachable ⟨.idle, s⟩ ∧ check s = true := by
  obtain ⟨⟨b, s⟩, hs, hc⟩ := (Option.any_eq_true _ _).1 h
  obtain ⟨rfl, hc⟩ := Bool.and_eq_true_iff.1 hc
  exact ⟨s, Service.play_reachable script hs ⟨⟨.down, {}⟩, [], ⟨rfl, rfl⟩, .nil _⟩, hc⟩

/-- A record file without an index line. -/
def missing (d : Disk) : Bool := d.records.rows.any fun r => d.index.all fun e => decide (e.id ≠ r.id)

theorem missing_iff {d : Disk} : missing d = true ↔ ∃ i, Missing d i := by
  simp only [missing, List.any_eq_true, List.all_eq_true, decide_eq_true_eq]
  constructor
  · rintro ⟨r, hr, hno⟩
    exact ⟨r.id, by rw [Table.mem_find hr]; rfl, hno⟩
  · rintro ⟨i, hsome, hno⟩
    obtain ⟨r, hr⟩ := Option.isSome_iff_exists.1 hsome
    exact ⟨r, Table.find_mem hr, by rw [show r.id = i from Table.find_key hr]; exact hno⟩

/-- A death fell between a record file and its index line. -/
def torn (w : World) : Bool :=
  w.hist.any fun t => match t.event with
    | .died _ => missing t.disk
    | _ => false

/-- The first process dies before the record's index line, and before the record. -/
theorem captures_play :
    ((capturing mailLoop).play (false, {})
      [.boot (Given.answer {}), .cut (message "client") 5 (Given.answer {}),
        .boot (Given.answer {}), .job (message "client") (Given.answer {})]).any
          (fun c => c.1 && missing c.2.disk) = true ∧
    ((capturing mailLoop).play (false, {})
      [.boot (Given.answer {}), .cut (message "client") 3 (Given.answer {}),
        .boot (Given.answer {}), .job (message "client") (Given.answer {})]).any
          (fun c => c.1 && (decide (c.2.disk.index ≠ []) && !torn c.2)) = true := by decide +kernel

/-- The message was captured without a death at last, and the index does not name it. -/
theorem recaptured_unindexed : ∃ s, (store mailLoop).Reachable ⟨.idle, s⟩ ∧ ¬ Agrees s.disk := by
  obtain ⟨s, hs, hbad⟩ := played_store (fun w => missing w.disk)
    ([.boot (Given.answer {}), .cut (message "client") 5 (Given.answer {}),
      .boot (Given.answer {}), .job (message "client") (Given.answer {})]) captures_play.1
  refine ⟨s, hs, fun h => ?_⟩
  obtain ⟨i, hsome, hno⟩ := missing_iff.1 hbad
  obtain ⟨e, he, hid⟩ := (h.named i).2 hsome
  exact hno e he hid

/-- A death before the record file leaves the capture to be made again. -/
theorem agrees_run : ∃ s, (store mailLoop).Reachable ⟨.idle, s⟩ ∧ s.disk.index ≠ [] ∧
    Agrees s.disk := by
  obtain ⟨s, hs, hgood⟩ := played_store
    (fun w => decide (w.disk.index ≠ []) && !torn w)
    ([.boot (Given.answer {}), .cut (message "client") 3 (Given.answer {}),
      .boot (Given.answer {}), .job (message "client") (Given.answer {})]) captures_play.2
  simp only [Bool.and_eq_true, decide_eq_true_eq, Bool.not_eq_true', torn, List.any_eq_false] at hgood
  refine ⟨s, hs, hgood.1, (agrees_iff hs).2 fun t ht replying he i hi => ?_⟩
  have := hgood.2 t ht
  rw [he] at this
  exact this (missing_iff.2 ⟨i, hi⟩)

end CarbonRuntime.Bugs.UnindexedRecord
