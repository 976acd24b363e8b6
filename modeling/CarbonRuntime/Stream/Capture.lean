import CarbonRuntime.Stream.Rules

/-!
# What a capture leaves on disk

A capture asks nothing outside the process: what it comes to, and the disk after it, are a
function of the disk before. `captured` is that function and `wp_capture` says that every
run is it; `Disk.advance` and `wp_advanceCursor` are the same for a cursor.
-/

open CarbonRuntime.Core CarbonRuntime.Stream

namespace CarbonRuntime

/-! ## Cursors -/

def Cursors.at' (c : Cursors) : CursorKind → Option String
  | .message => c.message
  | .revision => c.revision

def Cursors.set (c : Cursors) (position : String) : CursorKind → Cursors
  | .message => { c with message := some position }
  | .revision => { c with revision := some position }

/-- The cursors of a conversation, absent where there is no file. -/
def Disk.cursorsOf (d : Disk) (conversationId : String) : Cursors :=
  (d.cursors.find conversationId).getD { conversationId }

/-- The position is past the cursor. -/
def past (position : String) (held : Option String) : Bool :=
  !held.any fun held => decide (position ≤ held)

/-- The disk after a cursor was advanced. -/
def Disk.advance (d : Disk) (conversationId : String) (kind : CursorKind) (position : String) :
    Disk :=
  if past position ((d.cursorsOf conversationId).at' kind) then
    { d with cursors := d.cursors.put ((d.cursorsOf conversationId).set position kind) }
  else d

def Disk.advanceTo (d : Disk) (conversationId : String) : Option (CursorKind × String) → Disk
  | some (kind, position) => d.advance conversationId kind position
  | none => d

def Disk.appendRaw (d : Disk) (i : Identity) (raw : Option String) : Disk :=
  { d with raws := d.raws ++ (raw.map (i, ·)).toList }

namespace Store

/-! ## A capture -/

/-- The write of a record: the file as it stands after it, and the disk. -/
def written (r : MessageRecord) (seq : Nat) (d : Disk) :
    Except (List Fault) MessageRecord × Disk :=
  match d.records.find r.id with
  | some old =>
    if old.source ≠ r.source && !merges r.source then (.error [messageIdClaimed r old], d)
    else if mergeRecords old r ≠ old then
      (.ok (mergeRecords old r), { d with records := d.records.put (mergeRecords old r) })
    else (.ok old, d)
  | none =>
    (.ok r, { d with records := d.records.put r, index := d.index ++ [⟨seq, r.id⟩] })

/-- What is refused of a record before anything is written. -/
def captureFaults (J : Js) (r : MessageRecord) (typeFaults : List Fault) : List Fault :=
  if typeFaults ++ validate J r = [] then pathFaults J r.id else typeFaults ++ validate J r

theorem paths_of_captureFaults {J : Js} {r : MessageRecord} {typeFaults : List Fault}
    (h : captureFaults J r typeFaults = []) : pathFaults J r.id = [] := by
  unfold captureFaults at h
  split at h
  · exact h
  · rename_i hne
    exact absurd h hne

/-- What a capture comes to, and the disk after it. -/
def captured (J : Js) (r : MessageRecord) (cursor : Option (CursorKind × String))
    (typeFaults : List Fault) (raw : Option String) (d : Disk) :
    Except (List Fault) MessageRecord × Disk :=
  if captureFaults J r typeFaults = [] then
    let (x, d') :=
      written r (d.seq + 1) (Disk.appendRaw { d with seq := d.seq + 1 } r.id raw)
    (x, d'.advanceTo r.conversationId cursor)
  else (.error (captureFaults J r typeFaults), d)

/-! ## Between the writes

What is said of a program under `tracking` holds of the record files and the cursors after
each of its writes, so of what a death leaves between any two of them. -/

/-- `I` holds of the records and the cursors after every act. -/
def tracking (L : Loop) (I : Table MessageRecord.id → Table Cursors.conversationId → Prop) :
    Proto (sig L) where
  inv s := I s.disk.records s.disk.cursors
  ok a s := I (a.apply s).disk.records (a.apply s).disk.cursors
  heard q a s := q.fits L.browser a s
  rely _ s s' := s' = s
  act_inv _ _ _ h := h
  hear_inv q a s h _ := by cases q <;> exact h
  rely_inv _ _ _ h hr := by cases hr; exact h
  rely_refl := still_refl
  rely_trans := still_trans

variable {L : Loop} {s : World} {I : Table MessageRecord.id → Table Cursors.conversationId → Prop}
  {P : Proto (sig L)}

theorem tracking_true : tracking L (fun _ _ => True) = plain L := rfl

theorem advance_records (d : Disk) (conversationId : String) (kind : CursorKind)
    (position : String) : (d.advance conversationId kind position).records = d.records := by
  unfold Disk.advance
  split <;> rfl

theorem advanceTo_records (d : Disk) (conversationId : String)
    (cursor : Option (CursorKind × String)) :
    (d.advanceTo conversationId cursor).records = d.records := by
  cases cursor with
  | none => rfl
  | some c => exact advance_records d conversationId c.1 c.2

theorem wp_advanceCursor (conversationId : String) (kind : CursorKind) (position : String)
    {Q : Unit → World → Prop} {X : Err → World → Prop}
    (hI : componentFaults L.js "conversation_id" conversationId = [] →
      I s.disk.records (s.disk.advance conversationId kind position).cursors)
    (hok : componentFaults L.js "conversation_id" conversationId = [] →
      ∀ s', s'.disk = s.disk.advance conversationId kind position → Q () s')
    (herr : componentFaults L.js "conversation_id" conversationId ≠ [] →
      X (.stream (componentFaults L.js "conversation_id" conversationId)) s) :
    Prog.wp (tracking L I) (advanceCursor L conversationId kind position) Q X s := by
  simp only [advanceCursor, Prog.wp_bind, wp_refuse, wp_fetch]
  refine ⟨fun hc => ?_, herr⟩
  have hcur : (s.disk.cursors.find conversationId).getD { conversationId } =
    s.disk.cursorsOf conversationId := rfl
  rw [hcur]
  have hI := hI hc
  -- The two kinds differ in the field that is compared and written.
  cases kind with
  | message =>
    by_cases hp : (s.disk.cursorsOf conversationId).message.any
        (fun held => decide (position ≤ held)) = true
    · simp only [hp, if_true, Prog.wp_pure]
      exact hok hc s (by simp [Disk.advance, past, Cursors.at', hp])
    · simp only [hp, if_false, wp_write, Bool.false_eq_true]
      have hd : s.disk.advance conversationId .message position =
          ((Act.cursor { s.disk.cursorsOf conversationId with message := some position }).apply
            s).disk := by
        simp [Disk.advance, past, Cursors.at', Cursors.set, hp, Act.apply]
      rw [hd] at hI
      exact ⟨hI, fun _ => hok hc _ hd.symm⟩
  | revision =>
    by_cases hp : (s.disk.cursorsOf conversationId).revision.any
        (fun held => decide (position ≤ held)) = true
    · simp only [hp, if_true, Prog.wp_pure]
      exact hok hc s (by simp [Disk.advance, past, Cursors.at', hp])
    · simp only [hp, if_false, wp_write, Bool.false_eq_true]
      have hd : s.disk.advance conversationId .revision position =
          ((Act.cursor { s.disk.cursorsOf conversationId with revision := some position }).apply
            s).disk := by
        simp [Disk.advance, past, Cursors.at', Cursors.set, hp, Act.apply]
      rw [hd] at hI
      exact ⟨hI, fun _ => hok hc _ hd.symm⟩

theorem wp_captureWrite_disk (r : MessageRecord) (seq : Nat)
    (hI : I (written r seq s.disk).2.records s.disk.cursors) :
    Prog.wp (tracking L I) (captureWrite L r seq)
      (fun x s' => written r seq s.disk = (.ok x.1, s'.disk))
      (fun e s' => ∃ faults, e = .stream faults ∧ written r seq s.disk = (.error faults, s'.disk))
      s := by
  simp only [captureWrite, Prog.wp_bind, wp_fetch]
  cases hold : s.disk.records.find r.id with
  | none =>
    simp only [written, hold] at hI
    simp only [written, hold, Prog.wp_bind, wp_write, Prog.wp_pure]
    have hd : ((Act.record r).apply s).disk = { s.disk with records := s.disk.records.put r } :=
      World.putRecord_disk s r
    refine ⟨by simpa only [tracking, hd] using hI, fun _ => ⟨?_, fun _ => by simp [Act.apply]⟩⟩
    simpa [tracking, Act.apply] using hI
  | some old =>
    simp only [written, hold] at hI ⊢
    by_cases hclaim : (old.source ≠ r.source && !merges r.source) = true
    · rw [if_pos hclaim, if_pos hclaim]
      exact (wp_raise _).2 ⟨_, rfl, rfl⟩
    · rw [if_neg hclaim] at hI
      rw [if_neg hclaim, if_neg hclaim]
      by_cases hne : mergeRecords old r = old
      · simp [hne]
      · rw [if_pos hne] at hI
        rw [if_pos hne, if_pos hne]
        simp only [Prog.wp_bind, wp_write, Prog.wp_pure]
        exact ⟨by simpa [tracking, Act.apply] using hI, fun _ => by simp [Act.apply]⟩

theorem wp_appendRaw_disk (i : Identity) (raw : Option String) {X : Err → World → Prop}
    (hI : I s.disk.records s.disk.cursors) :
    Prog.wp (tracking L I) (appendRaw L i raw)
      (fun _ s' => s'.disk = Disk.appendRaw s.disk i raw) X s := by
  cases raw with
  | none => exact (Prog.wp_pure _).2 (by simp [Disk.appendRaw])
  | some payload => exact (wp_write _).2 ⟨hI, fun _ => rfl⟩

/-- What waits to be steered is in memory. -/
theorem wp_acceptBrowserInput (r : MessageRecord) {X : Err → World → Prop}
    (hI : I s.disk.records s.disk.cursors) :
    Prog.wp (tracking L I) (acceptBrowserInput L r) (fun _ s' => s'.disk = s.disk) X s := by
  unfold acceptBrowserInput
  split
  · simp only [Prog.wp_bind, wp_fetch, wp_write]
    exact ⟨hI, fun _ => rfl⟩
  · exact (Prog.wp_pure _).2 rfl

section capture
variable {J : Js} {r : MessageRecord} {cursor : Option (CursorKind × String)}
  {typeFaults : List Fault} {raw : Option String} {d : Disk}

/-- The write of a record touches no cursor. -/
theorem written_cursors (r : MessageRecord) (seq : Nat) (d : Disk) :
    (written r seq d).2.cursors = d.cursors := by
  unfold written
  cases d.records.find r.id with
  | none => rfl
  | some old =>
    dsimp only
    split
    · rfl
    · split <;> rfl

end capture

/-- A run of a capture is what `captured` says, where no disposition is written after it. The
record goes first and the cursor last. -/
theorem wp_capture (r : MessageRecord) (cursor : Option (CursorKind × String))
    (typeFaults : List Fault) (raw : Option String) (hI : I s.disk.records s.disk.cursors)
    (hw : captureFaults L.js r typeFaults = [] →
      I (captured L.js r cursor typeFaults raw s.disk).2.records s.disk.cursors ∧
        I (captured L.js r cursor typeFaults raw s.disk).2.records
          (captured L.js r cursor typeFaults raw s.disk).2.cursors) :
    Prog.wp (tracking L I) (capture L r cursor typeFaults none raw)
      (fun x s' => captured L.js r cursor typeFaults raw s.disk = (.ok x, s'.disk))
      (fun e s' => ∃ faults, e = .stream faults ∧
        captured L.js r cursor typeFaults raw s.disk = (.error faults, s'.disk)) s := by
  have hrefused : ∀ faults, captureFaults L.js r typeFaults = faults → faults ≠ [] →
      captured L.js r cursor typeFaults raw s.disk = (.error faults, s.disk) := by
    intro faults hf hne
    rw [captured, if_neg (hf ▸ hne), hf]
  simp only [capture, Prog.wp_bind, wp_refuse, Prog.wp_andFinally]
  refine ⟨fun hv => ⟨fun hp => ?_, fun hp => ?_⟩, fun hv => ?_⟩
  · have hnone : captureFaults L.js r typeFaults = [] := by rw [captureFaults, if_pos hv, hp]
    have hcomp : componentFaults L.js "conversation_id" r.conversationId = [] :=
      (List.append_eq_nil_iff.1 hp).1
    obtain ⟨hrec, hcur⟩ := hw hnone
    -- The cursor goes last, whatever the write comes to.
    have hlast : ∀ {Q : Unit → World → Prop} {X : Err → World → Prop} (s : World),
        I s.disk.records (s.disk.advanceTo r.conversationId cursor).cursors →
        (∀ s', s'.disk = s.disk.advanceTo r.conversationId cursor → Q () s') →
        Prog.wp (tracking L I) (match cursor with
          | some (kind, position) => advanceCursor L r.conversationId kind position
          | none => pure ()) Q X s := by
      intro Q X s hI hQ
      cases cursor with
      | none => exact (Prog.wp_pure _).2 (hQ s rfl)
      | some c => exact wp_advanceCursor _ _ _ (fun _ => hI) (fun _ => hQ) fun hne => absurd hcomp hne
    simp only [captured, hnone, if_true, advanceTo_records] at hrec hcur ⊢
    simp only [nextSeq, Prog.wp_bind, wp_fetch, wp_write, Prog.wp_pure]
    refine ⟨hI, fun _ => ?_⟩
    refine Prog.wp_mono _ (wp_appendRaw_disk r.id raw (X := fun _ _ => False) hI)
      (fun _ s₂ h₂ => ?_) fun _ _ h => h.elim
    have h₂ : s₂.disk = Disk.appendRaw { s.disk with seq := s.disk.seq + 1 } r.id raw := h₂
    have hcursors : s₂.disk.cursors = s.disk.cursors := by rw [h₂]; rfl
    rw [← h₂] at hrec hcur ⊢
    refine Prog.wp_mono _ (wp_captureWrite_disk r (s.disk.seq + 1) (hcursors ▸ hrec))
      (fun x s₃ h₃ => ?_) ?_
    · simp only [h₃] at hrec hcur ⊢
      have h₃' : s₃.disk.cursors = s.disk.cursors := by
        rw [← hcursors, ← written_cursors r (s.disk.seq + 1) s₂.disk, h₃]
      split
      · rw [Prog.wp_bind]
        exact Prog.wp_mono _ (wp_acceptBrowserInput _ (X := fun _ _ => False) (h₃' ▸ hrec))
          (fun _ s₄ h₄ => (Prog.wp_pure _).2 (hlast s₄ (h₄ ▸ hcur) fun s₅ h₅ => by rw [h₅, h₄]))
          fun _ _ (h : False) => h.elim
      · exact (Prog.wp_pure _).2 (hlast s₃ hcur fun s₅ h₅ => by rw [h₅])
    · rintro e s₃ ⟨faults, rfl, h₃⟩
      simp only [h₃] at hcur ⊢
      exact hlast s₃ hcur fun s₅ h₅ => ⟨_, rfl, by rw [h₅]⟩
  · exact ⟨_, rfl, hrefused _ (by rw [captureFaults, if_pos hv]) hp⟩
  · exact ⟨_, rfl, hrefused _ (by rw [captureFaults, if_neg hv]) hv⟩

end Store

end CarbonRuntime
