import CarbonRuntime.Stream.Stored

/-!
# What the store's writers leave

A write on a record that is there (`Rewrote`) replaces its file and nothing else of the records and
the index; where the record is the browser's it takes the next ordinal, which is the record's
`browser_event_seq` after it. A first capture (`FirstCaptured`) adds the record and its index line
under the next ordinal. A function of the store that is refused leaves both as they were
(`Untouched`).
-/

open CarbonRuntime.Core CarbonRuntime.Stream

namespace CarbonRuntime.Store

/-- The records and the index are as they were, and the ordinal is not behind. -/
structure Untouched (d d' : Disk) : Prop where
  records : d'.records = d.records
  index : d'.index = d.index
  seq : d.seq ≤ d'.seq

theorem Untouched.refl (d : Disk) : Untouched d d := ⟨rfl, rfl, Nat.le_refl _⟩

theorem Untouched.trans {d d₁ d' : Disk} (h : Untouched d d₁) (h' : Untouched d₁ d') :
    Untouched d d' :=
  ⟨h'.records.trans h.records, h'.index.trans h.index, Nat.le_trans h.seq h'.seq⟩

/-- A record that was there is another; the browser's has the ordinal the write took. -/
structure Rewrote (d : Disk) (written : MessageRecord) (d' : Disk) : Prop where
  old : ∃ old, d.records.find written.id = some old ∧ old.source = written.source ∧
    (written.source ≠ "browser" →
      written.adapterFields.browserEventSeq = old.adapterFields.browserEventSeq)
  records : d'.records = d.records.put written
  index : d'.index = d.index
  seq : d.seq ≤ d'.seq
  fresh : written.source = "browser" →
    written.adapterFields.browserEventSeq = some d'.seq ∧ d.seq < d'.seq

/-- A record that was not there is, with its index line; a disposition may have been written on
it after that. -/
structure FirstCaptured (d : Disk) (r written : MessageRecord) (d' : Disk) : Prop where
  id : written.id = r.id
  source : written.source = r.source
  find : ∀ i, d'.records.find i = if i = r.id then some written else d.records.find i
  index : d'.index = d.index ++ [⟨d.seq + 1, r.id⟩]
  seq : d.seq + 1 ≤ d'.seq
  fields : written.adapterFields.browserEventSeq = r.adapterFields.browserEventSeq ∨
    written.source = "browser" ∧ ∃ n, written.adapterFields.browserEventSeq = some n ∧
      d.seq + 1 < n ∧ n ≤ d'.seq

/-- A disposition is written on a record that was captured just now. -/
theorem FirstCaptured.rewritten {d d₁ d' : Disk} {r written : MessageRecord}
    (h : FirstCaptured d r r d₁) (hw : Rewrote d₁ written d') (hid : written.id = r.id) :
    FirstCaptured d r written d' := by
  obtain ⟨old, hold, hsource, hevent⟩ := hw.old
  rw [h.find, if_pos hid] at hold
  cases hold
  refine ⟨hid, hsource.symm, fun i => ?_, hw.index.trans h.index, Nat.le_trans h.seq hw.seq, ?_⟩
  · rw [hw.records, Table.find_put, hid, h.find]
    split <;> rfl
  · by_cases hb : written.source = "browser"
    · obtain ⟨hn, hlt⟩ := hw.fresh hb
      exact .inr ⟨hb, _, hn, Nat.lt_of_le_of_lt h.seq hlt, Nat.le_refl _⟩
    · exact .inl (hevent hb)

/-- What a function that writes on a record may change of it. -/
structure Keeping (f : MessageRecord → MessageRecord) : Prop where
  id : ∀ r, (f r).id = r.id
  source : ∀ r, (f r).source = r.source
  event : ∀ r, (f r).adapterFields.browserEventSeq = r.adapterFields.browserEventSeq

theorem keeping_parked (faults : List Fault) (reason : Option String) :
    Keeping (parked faults reason) := ⟨fun _ => rfl, fun _ => rfl, fun _ => rfl⟩

theorem keeping_annotated {fields : AdapterFields → AdapterFields}
    (h : ∀ f, (fields f).browserEventSeq = f.browserEventSeq) : Keeping (annotated fields) :=
  ⟨fun _ => rfl, fun _ => rfl, fun r => h r.adapterFields⟩

theorem keeping_disposed (d : Disposition) : Keeping (disposed d) :=
  ⟨fun _ => rfl, fun _ => rfl, fun _ => rfl⟩

theorem keeping_withRelease (rel : Release) : Keeping (withRelease rel) :=
  ⟨fun _ => rfl, fun _ => rfl, fun _ => rfl⟩

theorem keeping_completed (at_ : String) : Keeping (completed at_) where
  id _ := rfl
  source _ := rfl
  event r := by
    unfold completed
    dsimp only
    split <;> rfl

theorem keeping_settled (status : Status) (chunkIds : Option (List String))
    (completedAt : Option String) : Keeping (settled status chunkIds completedAt) :=
  ⟨fun _ => rfl, fun _ => rfl, fun _ => rfl⟩

variable {L : Loop} {s : World}

/-- The ordinal is taken for the browser's records only. -/
theorem wp_stamp_disk (r : MessageRecord) {Q : MessageRecord → World → Prop}
    {X : Err → World → Prop}
    (hb : r.source = "browser" → ∀ s', s'.disk = { s.disk with seq := s.disk.seq + 1 } →
      Q { r with adapterFields := { r.adapterFields with
        browserEventSeq := some (s.disk.seq + 1) } } s')
    (ho : r.source ≠ "browser" → Q r s) : Prog.wp (plain L) (stamp L r) Q X s := by
  unfold stamp
  split
  · rename_i h
    simp only [nextSeq, Prog.wp_bind, wp_fetch, wp_write, Prog.wp_pure]
    exact ⟨trivial, fun _ => hb h _ rfl⟩
  · rename_i h
    exact (Prog.wp_pure _).2 (ho h)

/-- The write of a record that was read and changed. -/
theorem wp_stampWrite {f : MessageRecord → MessageRecord} (hf : Keeping f) {old : MessageRecord}
    (hold : s.disk.records.find old.id = some old) {Q : MessageRecord → World → Prop}
    {X : Err → World → Prop} (hQ : ∀ written s', Rewrote s.disk written s'.disk →
      written.id = old.id → Q written s') :
    Prog.wp (plain L) (do
      let written ← stamp L (f old)
      write L (.record written)
      pure written) Q X s := by
  rw [Prog.wp_bind]
  refine wp_stamp_disk (f old) (fun hb s' hs' => ?_) fun ho => ?_
  · simp only [Prog.wp_bind, wp_write, Prog.wp_pure]
    refine ⟨trivial, fun _ => hQ _ _ ⟨⟨old, ?_, (hf.source old).symm, ?_⟩, ?_, ?_, ?_, ?_⟩ ?_⟩
    · exact (congrArg _ (hf.id old)).trans hold
    · intro hne
      exact absurd hb hne
    · simp [Act.apply, hs']
    · simp [Act.apply, hs']
    · simp [Act.apply, hs']
    · intro _
      simp [Act.apply, hs']
    · exact hf.id old
  · simp only [Prog.wp_bind, wp_write, Prog.wp_pure]
    refine ⟨trivial, fun _ => hQ _ _ ⟨⟨old, ?_, (hf.source old).symm, ?_⟩, ?_, ?_, ?_, ?_⟩ ?_⟩
    · rw [hf.id]
      exact hold
    · exact fun _ => hf.event old
    · simp [Act.apply]
    · simp [Act.apply]
    · simp [Act.apply]
    · exact fun hb => absurd hb ho
    · exact hf.id old

theorem wp_rewrite_disk (i : Identity) {f : MessageRecord → MessageRecord} (hf : Keeping f)
    {Q : MessageRecord → World → Prop} {X : Err → World → Prop}
    (hQ : ∀ written s', Rewrote s.disk written s'.disk → written.id = i → Q written s')
    (hX : pathFaults L.js i ≠ [] ∨ s.disk.records.find i = none → ∀ e, X e s) :
    Prog.wp (plain L) (rewrite L i f) Q X s := by
  simp only [rewrite, Prog.wp_bind, wp_refuse, wp_fetch]
  refine ⟨fun _ => ?_, fun h => hX (.inl h) _⟩
  split
  · rename_i h
    exact (wp_raise _).2 (hX (.inr h) _)
  · rename_i old hold
    have hid : old.id = i := Table.find_key hold
    subst hid
    exact wp_stampWrite hf hold hQ

theorem wp_listing {Q : List MessageRecord → World → Prop} {X : Err → World → Prop}
    (conversationId : String) (hQ : ∀ records, Q records s) (hX : ∀ e, X e s) :
    Prog.wp (plain L) (recordsIn L conversationId) Q X s := by
  simp only [recordsIn, Prog.wp_bind, wp_refuse]
  exact ⟨fun _ => plain_ask fun a _ => (Prog.wp_pure _).2 (hQ _), fun _ => hX _⟩

theorem wp_release_disk (record : MessageRecord) (rel : Release) (at_ : Int) (holdApplies : Bool)
    {Q : MessageRecord → World → Prop} {X : Err → World → Prop}
    (hQ : ∀ written s', Rewrote s.disk written s'.disk → written.id = record.id → Q written s')
    (hX : ∀ e, X e s) : Prog.wp (plain L) (release L record rel at_ holdApplies) Q X s := by
  have hrest : ∀ held : Bool, Prog.wp (plain L) (do
      refuse L (pathFaults L.js record.id)
      let w ← fetch L
      refuse L (releaseFaults record held (w.disk.records.find record.id).isSome)
      rewrite L record.id (withRelease rel)) Q X s := by
    intro held
    simp only [Prog.wp_bind, wp_refuse, wp_fetch]
    refine ⟨fun _ => ⟨fun _ => ?_, fun _ => hX _⟩, fun _ => hX _⟩
    exact wp_rewrite_disk _ (keeping_withRelease rel) hQ fun _ e => hX e
  unfold release
  split
  · rw [Prog.wp_bind]
    refine wp_listing _ (fun records => ?_) hX
    exact (Prog.wp_bind _ _).2 ((Prog.wp_pure _).2 (hrest _))
  · exact (Prog.wp_bind _ _).2 ((Prog.wp_pure _).2 (hrest _))

theorem wp_settle_disk (requestId : String) (status : Status) (chunkIds : Option (List String))
    (completedAt : Option String) {Q : MessageRecord → World → Prop} {X : Err → World → Prop}
    (hQ : ∀ written s', Rewrote s.disk written s'.disk → Q written s') (hX : ∀ e, X e s) :
    Prog.wp (plain L) (settleDelivery L requestId status chunkIds completedAt) Q X s := by
  simp only [settleDelivery, readRequest, read, Prog.wp_bind, wp_refuse, wp_fetch, Prog.wp_pure]
  refine ⟨fun _ => ?_, fun _ => hX _⟩
  split
  · exact (wp_raise _).2 (hX _)
  · rename_i q hq
    simp only [Prog.wp_bind, wp_refuse, wp_fetch, Prog.wp_pure]
    refine ⟨fun _ => ?_, fun _ => hX _⟩
    split
    · exact (wp_raise _).2 (hX _)
    · rename_i old hold
      have hold : s.disk.records.find old.id = some old := Table.mem_find (Table.find_mem hold)
      have := wp_stampWrite (L := L) (X := X) (keeping_settled status chunkIds completedAt) hold
        (Q := fun written s' => Prog.wp (plain L) (do
          write L (.request { q with status, chunkIds := chunkIds.getD q.chunkIds })
          pure written) Q X s')
        (fun written s' h _ => by
          simp only [Prog.wp_bind, wp_write, Prog.wp_pure]
          refine ⟨trivial, fun _ => hQ written _ ?_⟩
          exact ⟨h.old, h.records, h.index, h.seq, h.fresh⟩)
      simpa only [Prog.wp_bind, Prog.wp_pure, wp_write] using this

/-- The cursor goes last; a conversation that has a path has a cursor file. -/
theorem wp_lastCursor (conversationId : String) (cursor : Option (CursorKind × String))
    (hc : componentFaults L.js "conversation_id" conversationId = [])
    {Q : Unit → World → Prop} {X : Err → World → Prop} :
    (∀ s', s'.disk.records = s.disk.records → s'.disk.index = s.disk.index →
      s'.disk.seq = s.disk.seq → Q () s') →
    Prog.wp (plain L) (match cursor with
      | some (kind, position) => advanceCursor L conversationId kind position
      | none => pure ()) Q X s := by
  intro hQ
  cases cursor with
  | none => exact (Prog.wp_pure _).2 (hQ s rfl rfl rfl)
  | some c =>
    rw [← tracking_true]
    refine wp_advanceCursor _ _ _ (fun _ => trivial) (fun _ s' hs' => ?_) fun h => absurd hc h
    refine hQ s' ?_ ?_ ?_ <;>
      · rw [hs']
        unfold Disk.advance
        split <;> rfl

theorem wp_capture_disk (r : MessageRecord) (cursor : Option (CursorKind × String))
    (typeFaults : List Fault) (disposition : Option Disposition) (raw : Option String)
    (hnew : s.disk.records.find r.id = none) {Q : MessageRecord → World → Prop}
    {X : Err → World → Prop}
    (hQ : ∀ written s', FirstCaptured s.disk r written s'.disk → Q written s')
    (hX : ∀ e s', Untouched s.disk s'.disk → X e s') :
    Prog.wp (plain L) (capture L r cursor typeFaults disposition raw) Q X s := by
  simp only [capture, Prog.wp_bind, wp_refuse, Prog.wp_andFinally]
  refine ⟨fun _ => ⟨fun hp => ?_, fun _ => hX _ s (.refl _)⟩, fun _ => hX _ s (.refl _)⟩
  have hc : componentFaults L.js "conversation_id" r.conversationId = [] :=
    (List.append_eq_nil_iff.1 hp).1
  simp only [nextSeq, Prog.wp_bind, wp_fetch, wp_write, Prog.wp_pure]
  refine ⟨trivial, fun _ => ?_⟩
  rw [← tracking_true]
  refine Prog.wp_mono _ (wp_appendRaw_disk r.id raw (X := fun _ _ => False) trivial)
    (fun _ s₁ h₁ => ?_) fun _ _ h => h.elim
  have h₁ : s₁.disk = Disk.appendRaw { s.disk with seq := s.disk.seq + 1 } r.id raw := h₁
  have hnew₁ : s₁.disk.records.find r.id = none := by rw [h₁]; exact hnew
  refine Prog.wp_mono _ (wp_captureWrite_disk r (s.disk.seq + 1) trivial) (fun x s₂ h₂ => ?_) ?_
  · rw [tracking_true]
    simp only [written, hnew₁, Prod.mk.injEq, Except.ok.injEq] at h₂
    obtain ⟨hx, h₂⟩ := h₂
    rw [← hx]
    -- What is left writes on the record at most, and takes it to be steered.
    have hlast : ∀ (written : MessageRecord) (s₃ : World),
        FirstCaptured s.disk r written s₃.disk →
        Prog.wp (plain L) (do
          if !x.2 then acceptBrowserInput L written
          pure written) (fun a s₄ => Prog.wp (plain L) (match cursor with
            | some (kind, position) => advanceCursor L r.conversationId kind position
            | none => pure ()) (fun _ => Q a) X s₄) (fun e s₄ => Prog.wp (plain L) (match cursor with
            | some (kind, position) => advanceCursor L r.conversationId kind position
            | none => pure ()) (fun _ => X e) X s₄) s₃ := by
      intro written s₃ h₃
      have hend : ∀ s₄ : World, s₄.disk = s₃.disk → Prog.wp (plain L) (match cursor with
            | some (kind, position) => advanceCursor L r.conversationId kind position
            | none => pure ()) (fun _ => Q written) X s₄ := by
        intro s₄ h₄
        refine wp_lastCursor (Q := fun _ => Q written) _ _ hc fun s₅ hr hi hq => hQ written s₅ ?_
        rw [h₄] at hr hi hq
        exact ⟨h₃.id, h₃.source, fun i => by rw [hr]; exact h₃.find i, hi.trans h₃.index,
          by rw [hq]; exact h₃.seq, by rw [hq]; exact h₃.fields⟩
      split
      · rw [Prog.wp_bind, ← tracking_true]
        exact Prog.wp_mono _ (wp_acceptBrowserInput _ (X := fun _ _ => False) trivial)
          (fun _ s₄ h₄ => (Prog.wp_pure _).2 (hend s₄ h₄)) fun _ _ (h : False) => h.elim
      · exact (Prog.wp_pure _).2 (hend s₃ rfl)
    have hfirst : FirstCaptured s.disk r r s₂.disk := by
      refine ⟨rfl, rfl, fun i => ?_, ?_, ?_, .inl rfl⟩
      · rw [← h₂, h₁]
        exact Table.find_put _ _ _
      · rw [← h₂, h₁]
        rfl
      · rw [← h₂, h₁]
        exact Nat.le_refl _
    have hsame := hlast r s₂ hfirst
    cases disposition with
    | none => exact (Prog.wp_bind _ _).2 ((Prog.wp_pure _).2 hsame)
    | some d =>
      dsimp only
      split
      · rw [Prog.wp_bind]
        refine wp_rewrite_disk _ (keeping_disposed d) (fun written s₃ h₃ hid =>
          hlast written s₃ (hfirst.rewritten h₃ hid)) fun h => ?_
        rcases h with h | h
        · exact absurd hp h
        · rw [hfirst.find] at h
          simp at h
      · exact (Prog.wp_bind _ _).2 ((Prog.wp_pure _).2 hsame)
  · rintro e s₂ ⟨faults, rfl, h₂⟩
    simp only [written, hnew₁, Prod.mk.injEq, reduceCtorEq, false_and] at h₂

end CarbonRuntime.Store
