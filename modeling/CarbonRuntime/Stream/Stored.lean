import CarbonRuntime.Stream.Capture

/-!
# What captures leave of the record files

A capture that is not refused leaves at the record's path what was there, with attachments
added, or the record itself where nothing was (`find_stored`), and every other file as it was.
Files are never taken away and change in their attachments only: `Extends`. A record whose
attachments are all on its file (`Covered`) leaves the files alone when it is captured again.
-/

open CarbonRuntime.Core CarbonRuntime.Stream

namespace CarbonRuntime.Store

/-- Another adapter's record is at the path. -/
def claimed (old r : MessageRecord) : Bool := old.source ≠ r.source && !merges r.source

/-- What is at the record's path after its capture. -/
def landed (t : Table MessageRecord.id) (r : MessageRecord) : MessageRecord :=
  match t.find r.id with
  | none => r
  | some old => if claimed old r then old else mergeRecords old r

/-- The record files after a capture that was not refused. -/
def stored (t : Table MessageRecord.id) (r : MessageRecord) : Table MessageRecord.id :=
  match t.find r.id with
  | none => t.put r
  | some old =>
    if claimed old r then t
    else if mergeRecords old r ≠ old then t.put (mergeRecords old r) else t

variable {J : Js} {r : MessageRecord} {t t' t'' : Table MessageRecord.id} {d : Disk}

theorem find_stored (i : Identity) :
    (stored t r).find i = if i = r.id then some (landed t r) else t.find i := by
  unfold stored landed
  cases h : t.find r.id with
  | none =>
    rw [Table.find_put]
  | some old =>
    have hkey : old.id = r.id := Table.find_key h
    dsimp only
    split
    · split
      · rename_i hi
        rw [hi, h]
      · rfl
    · split
      · have hm : (mergeRecords old r).id = r.id := hkey
        rw [Table.find_put, hm]
      · rename_i hne
        have hsame : mergeRecords old r = old := by simpa using hne
        split
        · rename_i hi
          rw [hi, h, hsame]
        · rfl

theorem written_records (seq : Nat) : (written r seq d).2.records = stored d.records r := by
  unfold written stored claimed
  cases d.records.find r.id with
  | none => rfl
  | some old =>
    dsimp only
    split
    · rfl
    · split <;> rfl

/-- A capture changes the files as `stored` says, or is refused and changes none. -/
theorem captured_records (cursor : Option (CursorKind × String)) (typeFaults : List Fault)
    (raw : Option String) : (captured J r cursor typeFaults raw d).2.records =
      if captureFaults J r typeFaults = [] then stored d.records r else d.records := by
  unfold captured
  split
  · simp only [advanceTo_records, written_records]
    rfl
  · rfl

theorem advance_raws (conversationId : String) (kind : CursorKind) (position : String) :
    (d.advance conversationId kind position).raws = d.raws := by
  unfold Disk.advance
  split <;> rfl

/-- The payloads that were kept stay. -/
theorem captured_raws (cursor : Option (CursorKind × String)) (typeFaults : List Fault)
    (raw : Option String) :
    ∃ more, (captured J r cursor typeFaults raw d).2.raws = d.raws ++ more := by
  have hwritten : ∀ d : Disk, (written r (d.seq) d).2.raws = d.raws := by
    intro d
    unfold written
    cases d.records.find r.id with
    | none => rfl
    | some old =>
      dsimp only
      split
      · rfl
      · split <;> rfl
  unfold captured
  split
  · have hadvance : ∀ d : Disk, (d.advanceTo r.conversationId cursor).raws = d.raws := by
      intro d
      cases cursor with
      | none => rfl
      | some c => exact advance_raws _ c.1 c.2
    simp only [hadvance]
    exact ⟨_, hwritten (Disk.appendRaw { d with seq := d.seq + 1 } r.id raw)⟩
  · exact ⟨[], by simp⟩

/-! ## Cursors -/

/-- A place past another is past all that one is past. -/
theorem past_trans {p q : String} {held : Option String} (hp : past p (some q) = true)
    (hq : past q held = true) : past p held = true := by
  cases held with
  | none => rfl
  | some r =>
    simp only [past, Option.any_some, Bool.not_eq_true', decide_eq_false_iff_not,
      String.not_le] at hp hq ⊢
    exact String.lt_trans hq hp

theorem cursorsOf_id (d : Disk) (c : String) : (d.cursorsOf c).conversationId = c := by
  unfold Disk.cursorsOf
  cases h : d.cursors.find c with
  | none => rfl
  | some cur => exact Table.find_key h

theorem at_set (cur : Cursors) (p : String) (k k' : CursorKind) :
    (cur.set p k).at' k' = if k' = k then some p else cur.at' k' := by
  cases k <;> cases k' <;> rfl

/-- Only the one cursor moves, to where the position is past it. -/
theorem at_advance (d : Disk) (c c' : String) (k k' : CursorKind) (p : String) :
    ((d.advance c k p).cursorsOf c').at' k' =
      if c' = c ∧ k' = k ∧ past p ((d.cursorsOf c).at' k) = true then some p
      else (d.cursorsOf c').at' k' := by
  unfold Disk.advance
  by_cases hp : past p ((d.cursorsOf c).at' k) = true
  · have hid : ((d.cursorsOf c).set p k).conversationId = c := by
      cases k <;> exact cursorsOf_id d c
    rw [if_pos hp, Disk.cursorsOf, Table.find_put, hid]
    by_cases hc : c' = c
    · subst hc
      rw [if_pos rfl, Option.getD_some, at_set]
      simp only [true_and, hp, and_true]
    · rw [if_neg hc, if_neg fun h => hc h.1]
      rfl
  · rw [if_neg hp, if_neg fun h => hp h.2.2]

theorem cursorsOf_advance_other {c c' : String} (h : c ≠ c') (d : Disk) (k : CursorKind)
    (p : String) : (d.advance c k p).cursors.find c' = d.cursors.find c' := by
  unfold Disk.advance
  split
  · have hid : ((d.cursorsOf c).set p k).conversationId = c := by
      cases k <;> exact cursorsOf_id d c
    exact Table.find_put_other _ _ (hid.symm ▸ Ne.symm h)
  · rfl

/-- A capture moves at most the cursor it is given. -/
theorem captured_cursors (cursor : Option (CursorKind × String)) (typeFaults : List Fault)
    (raw : Option String) : (captured J r cursor typeFaults raw d).2.cursors =
      if captureFaults J r typeFaults = [] then (d.advanceTo r.conversationId cursor).cursors
      else d.cursors := by
  have hadvance : ∀ {d d' : Disk} (c : String), d.cursors = d'.cursors →
      (d.advanceTo c cursor).cursors = (d'.advanceTo c cursor).cursors := by
    intro d d' c h
    cases cursor with
    | none => exact h
    | some k =>
      have hcur : d.cursorsOf c = d'.cursorsOf c := by rw [Disk.cursorsOf, h]; rfl
      simp only [Disk.advanceTo, Disk.advance, hcur]
      split
      · rw [h]
      · exact h
  unfold captured
  split
  · exact hadvance _ (written_cursors r _ _)
  · rfl

theorem captured_cursors_other {c : String} (h : r.conversationId ≠ c)
    (cursor : Option (CursorKind × String)) (typeFaults : List Fault) (raw : Option String) :
    (captured J r cursor typeFaults raw d).2.cursors.find c = d.cursors.find c := by
  rw [captured_cursors]
  split
  · cases cursor with
    | none => rfl
    | some k => exact cursorsOf_advance_other h d k.1 k.2
  · rfl

/-! ## Growing -/

/-- The same record, with attachments added. -/
structure Grows (x y : MessageRecord) : Prop where
  eq : y = { x with attachments := y.attachments }
  attachments : ∀ a ∈ x.attachments, a ∈ y.attachments

theorem Grows.refl (x : MessageRecord) : Grows x x := ⟨rfl, fun _ h => h⟩

theorem Grows.trans {x y z : MessageRecord} (h : Grows x y) (h' : Grows y z) : Grows x z :=
  ⟨by rw [h'.eq, h.eq], fun a ha => h'.attachments a (h.attachments a ha)⟩

theorem mem_unionAttachments {a : Attachment} (more : List Attachment) :
    ∀ {l : List Attachment}, a ∈ l → a ∈ unionAttachments l more := by
  induction more with
  | nil => exact id
  | cons b more ih =>
    intro l h
    rw [unionAttachments]
    split
    · exact ih h
    · exact ih (List.mem_append_left _ h)

theorem Grows.merge (x r : MessageRecord) : Grows x (mergeRecords x r) :=
  ⟨rfl, fun _ ha => mem_unionAttachments _ ha⟩

/-- Every file of `t` is in `t'`, with attachments added. -/
def Extends (t t' : Table MessageRecord.id) : Prop :=
  ∀ i x, t.find i = some x → ∃ y, t'.find i = some y ∧ Grows x y

theorem Extends.refl (t : Table MessageRecord.id) : Extends t t := fun _ x h => ⟨x, h, .refl x⟩

theorem Extends.trans (h : Extends t t') (h' : Extends t' t'') : Extends t t'' := by
  intro i x hx
  obtain ⟨y, hy, hg⟩ := h i x hx
  obtain ⟨z, hz, hg'⟩ := h' i y hy
  exact ⟨z, hz, hg.trans hg'⟩

theorem Extends.stored (t : Table MessageRecord.id) (r : MessageRecord) :
    Extends t (stored t r) := by
  intro i x hx
  rw [find_stored]
  split
  · rename_i hi
    subst hi
    refine ⟨_, rfl, ?_⟩
    rw [landed, hx]
    dsimp only
    split
    · exact .refl x
    · exact .merge x r
  · exact ⟨x, hx, .refl x⟩

theorem Extends.captured (r : MessageRecord) (cursor : Option (CursorKind × String))
    (typeFaults : List Fault) (raw : Option String) (d : Disk) :
    Extends d.records (captured J r cursor typeFaults raw d).2.records := by
  rw [captured_records]
  split
  · exact .stored _ _
  · exact .refl _

/-! ## Capturing again -/

/-- The record is on disk, and its attachments are on its file. -/
def Covered (t : Table MessageRecord.id) (r : MessageRecord) : Prop :=
  ∃ old, t.find r.id = some old ∧ ∀ a ∈ r.attachments, ∃ b ∈ old.attachments, b.sha256 = a.sha256

theorem Covered.mono (h : Covered t r) (he : Extends t t') : Covered t' r := by
  obtain ⟨old, hold, hall⟩ := h
  obtain ⟨y, hy, hg⟩ := he _ _ hold
  refine ⟨y, hy, fun a ha => ?_⟩
  obtain ⟨b, hb, hsha⟩ := hall a ha
  exact ⟨b, hg.attachments b hb, hsha⟩

theorem unionAttachments_covered (more : List Attachment) :
    ∀ l : List Attachment, (∀ a ∈ more, ∃ b ∈ l, b.sha256 = a.sha256) → unionAttachments l more = l := by
  induction more with
  | nil => exact fun _ _ => rfl
  | cons a more ih =>
    intro l h
    obtain ⟨b, hb, hsha⟩ := h a List.mem_cons_self
    rw [unionAttachments, if_pos (List.any_eq_true.2 ⟨b, hb, by simpa using hsha⟩)]
    exact ih l fun c hc => h c (List.mem_cons_of_mem _ hc)

theorem stored_of_covered (h : Covered t r) : stored t r = t := by
  obtain ⟨old, hold, hall⟩ := h
  have hsame : mergeRecords old r = old := by
    rw [mergeRecords, unionAttachments_covered _ _ hall]
  rw [stored, hold]
  simp [hsame]

/-! ## One after another -/

section all
variable {l : List MessageRecord} {i : Identity}

/-- Files are where they were or where a record of the list goes. -/
theorem find_storedAll_isSome : ∀ {l : List MessageRecord} {t : Table MessageRecord.id},
    ((l.foldl stored t).find i).isSome = true ↔ (t.find i).isSome = true ∨ ∃ r ∈ l, r.id = i
  | [], t => by simp
  | r :: l, t => by
    rw [List.foldl_cons, find_storedAll_isSome, find_stored]
    by_cases hi : i = r.id
    · simp [hi]
    · rw [if_neg hi]
      simp [Ne.symm hi]

theorem Extends.storedAll (l : List MessageRecord) : ∀ t : Table MessageRecord.id,
    Extends t (l.foldl Store.stored t) := by
  induction l with
  | nil => exact .refl
  | cons r l ih => exact fun t => (Extends.stored t r).trans (ih _)

/-- The first record at a free path is the one that is found there. -/
theorem find_storedAll (hr : r ∈ l) (hnew : t.find r.id = none)
    (hone : l.Pairwise fun q q' => q.id = r.id → q'.id ≠ r.id) :
    ∃ y, (l.foldl stored t).find r.id = some y ∧ Grows r y := by
  induction l generalizing t with
  | nil => cases hr
  | cons q l ih =>
    rw [List.pairwise_cons] at hone
    rw [List.foldl_cons]
    rcases List.mem_cons.1 hr with rfl | hr
    · have hland : (stored t r).find r.id = some r := by
        rw [find_stored, if_pos rfl, landed, hnew]
      exact Extends.storedAll l _ _ _ hland
    · refine ih hr ?_ hone.2
      rw [find_stored, if_neg fun h => hone.1 r hr h.symm rfl]
      exact hnew

/-- What holds of every file and of every record that comes, and not of attachments alone. -/
theorem storedAll_rows {P : MessageRecord → Prop} (hP : ∀ x y, P x → Grows x y → P y)
    (hl : ∀ r ∈ l, P r) (ht : ∀ i x, t.find i = some x → P x) :
    ∀ i x, (l.foldl stored t).find i = some x → P x := by
  induction l generalizing t with
  | nil => exact ht
  | cons r l ih =>
    refine ih (fun q hq => hl q (List.mem_cons_of_mem _ hq)) fun i x hx => ?_
    rw [find_stored] at hx
    split at hx
    · cases hx
      unfold landed
      cases hold : t.find r.id with
      | none => exact hl r List.mem_cons_self
      | some old =>
        dsimp only
        split
        · exact ht _ _ hold
        · exact hP old _ (ht _ _ hold) (.merge old r)
    · exact ht i x hx

end all

end CarbonRuntime.Store
