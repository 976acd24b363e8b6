import CarbonRuntime.Adapters.Email.Adapter
import CarbonRuntime.Core.Filing
import CarbonRuntime.Runtime.Process
import Mathlib.Data.List.Induction

/-!
# A correction polled together with what it corrects

The email adapter numbers a correction after the revisions on disk while the batch is mapped
(adapters/email/index.ts:357-386), before any item of the batch is captured. A correction that
is polled together with the message it supersedes, or with another correction of it, does not
see it: it is captured as a message of its own, or merged into the other correction's record.
In a later poll it is the next revision.

On the record files a capture is the filing of a batch (`capture_files`), so where no item of
a list is linked to one before it every cut of the list files the same.

Counterexample: a message and the correction that supersedes it, in one poll and in two.
-/

open CarbonRuntime.Core CarbonRuntime.Stream

namespace CarbonRuntime.Bugs.CutBatch

open Store Adapters Adapters.Email Filing

variable {M : Mail} {J : Js} {d d₀ d' : Disk} {items seen l : List Item} {x y : Item}
  {listed at_ : Int}

/-! ## What is compared -/

/-- `(conversation_id, message_id, revision)` and `body` of every record. -/
def texts (t : Table MessageRecord.id) : Shelf Identity String := t.rows.map fun r => (r.id, r.body)

/-- However the list is cut into polls, the records are those of one poll. -/
def CutFree (M : Mail) (J : Js) (d : Disk) (items : List Item) : Prop :=
  ∀ (listed at_ : Int) (cut : List (Int × Int × List Item)), (cut.map (·.2.2)).flatten = items →
    ∀ t, t ∈ texts ((adapter M J).polls J cut d).records ↔
      t ∈ texts ((adapter M J).capture J listed at_ items d).2.records

/-- The messages of a mailbox in the order of their UIDs, on a store that takes them. -/
structure Listing (M : Mail) (J : Js) (d : Disk) (items : List Item) : Prop where
  ordered : items.Pairwise fun x y => x.position < y.position
  placed : ∀ x ∈ items, x.mailboxPosition.getD x.position = x.position
  readable : ∀ x ∈ items, Readable x
  taken : ∀ x ∈ items, ∀ d at_, captureFaults J (candidateOf M J d (J.iso at_) x).1.record [] = []
  /-- The mail that was read up to some place of a conversation was read to the end of it. -/
  cursors : ∀ x ∈ items,
    past x.position (d.cursorsOf (readItem M J d x).conversationId).message = true →
      past x.position (d.cursorsOf (readItem M J d x).conversationId).revision = true

/-- `y` corrects the message `x` is captured as a new revision of. -/
structure Linked (M : Mail) (J : Js) (d : Disk) (x y : Item) : Prop where
  conversation : (readItem M J d x).conversationId = (readItem M J d y).conversationId
  corrects : ∃ s, supersedes y = some s ∧
    (readItem M J d x).messageId = (readItem M J d y).conversationId ++ ":" ++ s
  fresh : ∀ n ∈ existingRevisions J d (readItem M J d x).conversationId (readItem M J d x).messageId,
    n < (readItem M J d x).revision
  pending : isPending M J d x = true
  past : past y.position (d.cursorsOf (readItem M J d y).conversationId).revision = true

/-! ## Reading off the texts -/

def revisionsOf (T : Shelf Identity String) (conversationId messageId : String) : List Nat :=
  (T.filter fun p => p.1.conversationId = conversationId ∧ p.1.messageId = messageId).map
    (·.1.revision)

/-- `readItem`, of what it reads of the store. -/
def readOff (M : Mail) (T : Shelf Identity String) (x : Item) : ReadResult :=
  match x.message with
  | .error reason => unreadable M x reason []
  | .ok message =>
    match ownIdOf message.headers with
    | none => unreadable M x noMessageId message.headers
    | some ownId =>
      let read := plainRead M (x.with_ message) ownId
      match supersededBy message.headers with
      | none => read
      | some supersedes =>
        revisedRead read supersedes
          (revisionsOf T read.conversationId (read.conversationId ++ ":" ++ supersedes))

/-- How the items of a list are filed, where the cursors were those of `d`. -/
def reader (M : Mail) (d : Disk) : Reader Identity String Item where
  key T x :=
    let read := readOff M T x
    if past x.position ((d.cursorsOf read.conversationId).at' read.cursorKind) then
      some read.id
    else none
  val := bodyOf

theorem revisionsOf_texts {c m : String} (hc : componentFaults J "conversation_id" c = []) :
    existingRevisions J d c m = revisionsOf (texts d.records) c m := by
  simp only [existingRevisions, Email.recordsOf, hc, if_true, revisionsOf, texts, List.filter_map,
    List.map_map, List.filter_filter]
  congr 1
  refine List.filter_congr fun r _ => ?_
  simp [MessageRecord.id, Bool.and_comm]

theorem readItem_off
    (hc : componentFaults J "conversation_id" (readItem M J d x).conversationId = []) :
    readItem M J d x = readOff M (texts d.records) x := by
  unfold readOff
  cases hm : x.message with
  | error reason => simp only [readItem, hm]
  | ok message =>
    dsimp only
    cases hid : ownIdOf message.headers with
    | none =>
      have hid : ownIdOf (x.with_ message).headers = none := hid
      simp only [readItem, hm, hid]
      rfl
    | some ownId =>
      dsimp only
      cases hs : supersededBy message.headers with
      | none => exact readItem_plain hm hid hs
      | some s =>
        rw [readItem_correction hm hid hs] at hc ⊢
        dsimp only
        rw [revisionsOf_texts]
        unfold revisedRead at hc
        split at hc <;> exact hc

theorem texts_stored (t : Table MessageRecord.id) (r : MessageRecord) : texts (stored t r) =
    put (texts t) r.id r.body := by
  have hkeys : keys (texts t) = t.rows.map MessageRecord.id := by
    simp [keys, texts, Function.comp_def]
  unfold stored put
  cases h : t.find r.id with
  | none =>
    rw [if_neg (by rw [hkeys]; exact Table.find_none.1 h)]
    simp [texts, Table.rows_put_new h]
  | some old =>
    have hid : old.id = r.id := Table.find_key h
    rw [if_pos (by rw [hkeys, ← hid]; exact List.mem_map_of_mem (Table.find_mem h))]
    dsimp only
    split
    · rfl
    · split
      · refine Table.map_rows_put _ (b := old) ?_ rfl
        rw [show (mergeRecords old r).id = r.id from hid, h]
      · rfl

theorem mem_revisionsOf {T : Shelf Identity String} {c m : String} {n : Nat} :
    n ∈ revisionsOf T c m ↔ ⟨c, m, n⟩ ∈ keys T := by
  simp only [revisionsOf, keys, List.mem_map, List.mem_filter, decide_eq_true_eq]
  constructor
  · rintro ⟨p, ⟨hp, rfl, rfl⟩, rfl⟩
    exact ⟨p, hp, rfl⟩
  · rintro ⟨p, hp, he⟩
    exact ⟨p, ⟨hp, by rw [he], by rw [he]⟩, by rw [he]⟩

theorem maxOf_le {revisions : List Nat} {n : Nat} :
    maxOf revisions ≤ n ↔ ∀ r ∈ revisions, r ≤ n := by
  suffices h : ∀ (l : List Nat) (a : Nat), l.foldl max a ≤ n ↔ a ≤ n ∧ ∀ r ∈ l, r ≤ n by
    rw [maxOf, h]
    simp
  intro l
  induction l with
  | nil => simp
  | cons b l ih =>
    intro a
    rw [List.foldl_cons, ih, Nat.max_le, List.forall_mem_cons, and_assoc]

theorem maxOf_mem {revisions : List Nat} (h : revisions ≠ []) : maxOf revisions ∈ revisions := by
  suffices hall : ∀ (l : List Nat) (a : Nat), l.foldl max a = a ∨ l.foldl max a ∈ l by
    rcases hall revisions 0 with h0 | hm
    · obtain ⟨r, hr⟩ := List.exists_mem_of_ne_nil _ h
      have := maxOf_le.1 (Nat.le_of_eq h0) r hr
      rw [maxOf, h0, ← Nat.le_zero.1 this]
      exact hr
    · exact hm
  intro l
  induction l with
  | nil => exact fun a => .inl rfl
  | cons b l ih =>
    intro a
    rw [List.foldl_cons]
    rcases ih (max a b) with h | h
    · rw [h]
      rcases Nat.le_total a b with hab | hab
      · exact .inr (by simp [Nat.max_eq_right hab])
      · exact .inl (Nat.max_eq_left hab)
    · exact .inr (List.mem_cons_of_mem _ h)

theorem maxOf_congr {revisions more : List Nat} (h : ∀ r ∈ revisions, r ∈ more)
    (h' : ∀ r ∈ more, ∃ n ∈ revisions, r ≤ n) : maxOf more = maxOf revisions := by
  refine Nat.le_antisymm (maxOf_le.2 fun r hr => ?_) (maxOf_le.2 fun r hr => maxOf_le.1 le_rfl r (h r hr))
  obtain ⟨n, hn, hle⟩ := h' r hr
  exact Nat.le_trans hle (maxOf_le.1 le_rfl n hn)

theorem readOff_plain (T T' : Shelf Identity String) (h : supersedes x = none) :
    readOff M T x = readOff M T' x := by
  unfold readOff
  unfold supersedes at h
  split <;> rename_i hm
  · rfl
  · rw [hm] at h
    dsimp only at h
    simp only [h]

/-- A correction is read as the next revision of what the texts have. -/
theorem readOff_correction {s : String} (hx : Readable x) (h : supersedes x = some s) :
    ∃ read : ReadResult, read.revision = 0 ∧ ∀ T, readOff M T x = revisedRead read s
      (revisionsOf T read.conversationId (read.conversationId ++ ":" ++ s)) := by
  obtain ⟨message, ownId, hm, hid⟩ := hx
  unfold supersedes at h
  rw [hm] at h
  refine ⟨plainRead M (x.with_ message) ownId, rfl, fun T => ?_⟩
  have h : supersededBy message.headers = some s := h
  simp only [readOff, hm, hid, h]

theorem readOff_revision (hx : Readable x) (T : Shelf Identity String) :
    (readOff M T x).revision = 0 ∨
      ∃ n ∈ revisionsOf T (readOff M T x).conversationId (readOff M T x).messageId,
        (readOff M T x).revision = n + 1 := by
  cases hs : supersedes x with
  | none =>
    obtain ⟨message, ownId, hm, hid⟩ := hx
    unfold supersedes at hs
    rw [hm] at hs
    have hs : supersededBy message.headers = none := hs
    simp only [readOff, hm, hid, hs]
    exact .inl rfl
  | some s =>
    obtain ⟨read, h0, hread⟩ := readOff_correction (M := M) hx hs
    rw [hread]
    generalize he : revisionsOf T read.conversationId (read.conversationId ++ ":" ++ s) = existing
    cases existing with
    | nil => exact .inl h0
    | cons n more =>
      rw [revisedRead_some (by simp)]
      exact .inr ⟨maxOf (n :: more), by rw [he]; exact maxOf_mem (by simp), rfl⟩

/-! ## The cursors while a list is read -/

/-- Every cursor is where it was, or at an item that was past it. -/
def Moved (d₀ : Disk) (seen : List Item) (d : Disk) : Prop :=
  ∀ c k, (d.cursorsOf c).at' k = (d₀.cursorsOf c).at' k ∨
    ∃ x ∈ seen, (d.cursorsOf c).at' k = some x.position ∧
      past x.position ((d₀.cursorsOf c).at' k) = true

theorem Moved.mono {seen' : List Item} (h : Moved d₀ seen d) (hs : ∀ x ∈ seen, x ∈ seen') :
    Moved d₀ seen' d := by
  intro c k
  rcases h c k with h | ⟨x, hx, h⟩
  · exact .inl h
  · exact .inr ⟨x, hs x hx, h⟩

theorem Moved.of_cursors (h : Moved d₀ seen d) (he : d'.cursors = d.cursors) :
    Moved d₀ seen d' := by
  intro c k
  have hcur : d'.cursorsOf c = d.cursorsOf c := by rw [Disk.cursorsOf, he]; rfl
  rw [hcur]
  exact h c k

theorem Moved.advance (h : Moved d₀ seen d) (hx : x ∈ seen) (c : String) (k : CursorKind) :
    Moved d₀ seen (d.advance c k x.position) := by
  intro c' k'
  rw [at_advance]
  split
  · rename_i hc
    obtain ⟨rfl, rfl, hp⟩ := hc
    refine .inr ⟨x, hx, rfl, ?_⟩
    rcases h c' k' with h | ⟨z, -, hz, hpast⟩
    · rwa [h] at hp
    · rw [hz] at hp
      exact past_trans hp hpast
  · exact h c' k'

/-- What comes after all that was seen is past a cursor as it would be at first. -/
theorem Moved.past_eq {p : String} (h : Moved d₀ seen d) (hp : ∀ x ∈ seen, x.position < p)
    (c : String) (k : CursorKind) :
    past p ((d.cursorsOf c).at' k) = past p ((d₀.cursorsOf c).at' k) := by
  rcases h c k with h | ⟨z, hz, hcur, hpast⟩
  · rw [h]
  · have hlt : past p (some z.position) = true := by
      simpa [past, String.not_le] using hp z hz
    rw [hcur, hlt, past_trans hlt hpast]

/-- The texts on disk, and the items the cursors may be at. -/
def Filed (d₀ : Disk) (T : Shelf Identity String) (seen : List Item) (d : Disk) : Prop :=
  texts d.records = T ∧ Moved d₀ seen d

/-! ## A capture files a batch -/

section capture
variable (hl : Listing M J d₀ items)
include hl

theorem conversation_taken (hx : x ∈ items) (d : Disk) :
    componentFaults J "conversation_id" (readItem M J d x).conversationId = [] := by
  have hpath := paths_of_captureFaults (hl.taken x hx d 0)
  rw [(candidate_entry (hl.readable x hx) (J.iso 0)).2.1] at hpath
  exact (List.append_eq_nil_iff.1 hpath).1

/-- An item behind what was seen is read off the texts, and pending as at first. -/
theorem key_eq (hm : Moved d₀ seen d) (hx : x ∈ items) (hs : ∀ z ∈ seen, z.position < x.position) :
    (reader M d₀).key (texts d.records) x =
      if isPending M J d x = true then some ((readItem M J d x).id) else none := by
  have hc := conversation_taken hl hx d
  simp only [reader, ← readItem_off hc, isPending, hc, ne_eq, not_true_eq_false, decide_false,
    Bool.false_or, hm.past_eq hs]

theorem entries_filed {piece : List Item} {receivedAt : String} (hm : Moved d₀ seen d)
    (hr : ∃ at_, receivedAt = J.iso at_) (hp : ∀ x ∈ piece, x ∈ items)
    (hs : ∀ x ∈ piece, ∀ z ∈ seen, z.position < x.position) :
    ∀ d', Moved d₀ (seen ++ piece) d' →
      Filed d₀ (fileAll (reader M d₀) (texts d.records) piece (texts d'.records)) (seen ++ piece)
        (Task.each (entry J) ((piece.filter (isPending M J d)).map fun x =>
          (candidateOf M J d receivedAt x).1) d').2 := by
  -- The cursors may be at any item of the piece while its items are written.
  suffices hall : ∀ (l : List Item), (∀ x ∈ l, x ∈ piece) → ∀ d', Moved d₀ (seen ++ piece) d' →
      Filed d₀ (fileAll (reader M d₀) (texts d.records) l (texts d'.records)) (seen ++ piece)
        (Task.each (entry J) ((l.filter (isPending M J d)).map fun x =>
          (candidateOf M J d receivedAt x).1) d').2 from hall piece fun _ h => h
  intro l
  induction l with
  | nil => exact fun _ d' h => ⟨rfl, h⟩
  | cons x l ih =>
    intro hsub d' hd'
    have hx := hsub x List.mem_cons_self
    have hkey := key_eq hl hm (hp x hx) (hs x hx)
    have ih := ih fun y hy => hsub y (List.mem_cons_of_mem _ hy)
    rw [fileAll, List.foldl_cons, ← fileAll, file, hkey]
    by_cases hpend : isPending M J d x = true
    · obtain ⟨at_, rfl⟩ := hr
      obtain ⟨-, hid, hbody, hcursor, htype⟩ :=
        candidate_entry (M := M) (J := J) (d := d) (hl.readable x (hp x hx)) (J.iso at_)
      have htaken := hl.taken x (hp x hx) d at_
      generalize hcand : (candidateOf M J d (J.iso at_) x).1 = cand at *
      have hentry : entry J cand d' =
          (.ok (), (captured J cand.record cand.cursor cand.typeFaults cand.raw d').2) := by
        rw [entry, if_neg fun h => h.2 (paths_of_captureFaults htaken)]
      have hrec : texts (captured J cand.record cand.cursor cand.typeFaults cand.raw d').2.records =
          put (texts d'.records) ((readItem M J d x).id) (bodyOf x) := by
        rw [captured_records, htype, if_pos htaken, texts_stored, hid, hbody]
      have hmoved : Moved d₀ (seen ++ piece)
          (captured J cand.record cand.cursor cand.typeFaults cand.raw d').2 := by
        have hadv := hd'.advance (List.mem_append_right seen hx) cand.record.conversationId
          (readItem M J d x).cursorKind
        refine hadv.of_cursors ?_
        rw [captured_cursors, htype, if_pos htaken, hcursor]
        rfl
      rw [List.filter_cons_of_pos hpend, List.map_cons, hcand, if_pos hpend]
      dsimp only
      rw [Task.each_cons, Task.bind_of_ok hentry, show (reader M d₀).val x = bodyOf x from rfl, ← hrec]
      exact ih _ hmoved
    · rw [List.filter_cons_of_neg hpend, if_neg hpend]
      exact ih d' hd'

theorem consuming_filed {T : Shelf Identity String} (hf : Filed d₀ T seen d) (hx : x ∈ seen)
    (hi : x ∈ items) : Filed d₀ T seen ((adapter M J).consuming J x d).2 := by
  refine consuming_keeps hf fun c hc d' h' => ?_
  rw [Filed, advance_records]
  refine ⟨h'.1, ?_⟩
  have hplace : c.2.2 = x.position := by
    simp only [adapter, consume, hl.placed x hi, List.mem_cons, List.not_mem_nil, or_false] at hc
    rcases hc with rfl | rfl <;> rfl
  rw [hplace]
  exact h'.2.advance hx _ _

theorem capture_files {piece : List Item} (listed at_ : Int) (hm : Moved d₀ seen d)
    (hp : ∀ x ∈ piece, x ∈ items) (hs : ∀ x ∈ piece, ∀ z ∈ seen, z.position < x.position) :
    Filed d₀ (batch (reader M d₀) (texts d.records) piece) (seen ++ piece)
      ((adapter M J).capture J listed at_ piece d).2 := by
  have hm' : Moved d₀ (seen ++ piece) d := hm.mono fun _ h => List.mem_append_left _ h
  have hentries := entries_filed hl hm ⟨at_, rfl⟩ hp hs d hm'
  have hpending : (adapter M J).listPending d listed piece = .ok (piece.filter (isPending M J d)) :=
    rfl
  have hpayload : ∀ l : List Item, (∀ x ∈ l, x ∈ items) → payloadOf M J d (J.iso at_) l =
      { entries := l.map fun x => (candidateOf M J d (J.iso at_) x).1, parked := [] } := by
    intro l hsub
    have hnone : ∀ x ∈ l, (candidateOf M J d (J.iso at_) x).2 = none := fun x hx =>
      (candidate_entry (hl.readable x (hsub x hx)) (J.iso at_)).1
    simp only [Email.payloadOf, Payload.mk.injEq]
    constructor
    · rw [List.filter_eq_self.2 (by simpa using hnone), List.map_map]
      rfl
    · simpa using hnone
  unfold Adapter.capture
  rw [hpending]
  dsimp only
  split
  · rename_i hempty
    rw [List.isEmpty_iff.1 hempty] at hentries
    exact ⟨hentries.1, hm'⟩
  · simp only [adapter]
    rw [hpayload _ fun x hx => hp x (List.mem_of_mem_filter hx)]
    refine Task.bind_keeps (K := Filed d₀ (batch (reader M d₀) (texts d.records) piece)
      (seen ++ piece)) hentries fun _ d₁ h₁ => ?_
    -- Nothing is parked.
    refine Task.each_keeps (K := Filed d₀ (batch (reader M d₀) (texts d.records) piece)
      (seen ++ piece)) (fun x hx d₂ h₂ => ?_) d₁ h₁
    have hx := List.mem_of_mem_filter hx
    exact consuming_filed hl h₂ (List.mem_append_right seen hx) (hp x hx)

theorem polls_files {cut : List (Int × Int × List Item)} (hm : Moved d₀ seen d)
    (hcut : seen ++ (cut.map (·.2.2)).flatten = items) :
    texts ((adapter M J).polls J cut d).records =
      batches (reader M d₀) (texts d.records) (cut.map (·.2.2)) := by
  induction cut generalizing seen d with
  | nil => rfl
  | cons p cut ih =>
    obtain ⟨listed, at_, piece⟩ := p
    rw [List.map_cons, List.flatten_cons] at hcut
    have hsub : ∀ x ∈ piece, x ∈ items := fun x hx =>
      hcut ▸ List.mem_append_right _ (List.mem_append_left _ hx)
    have hbehind : ∀ x ∈ piece, ∀ z ∈ seen, z.position < x.position := by
      intro x hx z hz
      have := hl.ordered
      rw [← hcut, List.pairwise_append] at this
      exact this.2.2 z hz x (List.mem_append_left _ hx)
    obtain ⟨hfiled, hmoved⟩ := capture_files hl listed at_ hm hsub hbehind
    rw [Adapter.polls, ih hmoved (by rw [List.append_assoc]; exact hcut), hfiled]
    rfl

end capture

/-! ## Linked items -/

theorem moved_refl (d : Disk) : Moved d [] d := fun _ _ => .inl rfl

theorem existing_off (hl : Listing M J d items) (hx : x ∈ items) (m : String) :
    existingRevisions J d (readItem M J d x).conversationId m =
      revisionsOf (texts d.records) (readItem M J d x).conversationId m :=
  revisionsOf_texts (conversation_taken hl hx d)

theorem key_some (hl : Listing M J d items) (hx : x ∈ items) {c m : String} {r : Nat} :
    (reader M d).key (texts d.records) x = some ⟨c, m, r⟩ ↔
      isPending M J d x = true ∧ (readItem M J d x).conversationId = c ∧
        (readItem M J d x).messageId = m ∧ (readItem M J d x).revision = r := by
  rw [key_eq hl (moved_refl d) hx (by simp)]
  split <;> simp_all [ReadResult.id]

/-- What is filed higher than all there was, under the message `y` corrects, is linked to it. -/
theorem linked_of_key (hl : Listing M J d items) (hx : x ∈ items) {s : String} {r : Nat}
    (hs : supersedes y = some s)
    (hkey : (reader M d).key (texts d.records) x = some ⟨(readItem M J d y).conversationId,
      (readItem M J d y).conversationId ++ ":" ++ s, r⟩)
    (hfresh : ∀ n ∈ revisionsOf (texts d.records) (readItem M J d y).conversationId
      ((readItem M J d y).conversationId ++ ":" ++ s), n < r)
    (hpast : past y.position (d.cursorsOf (readItem M J d y).conversationId).revision = true) :
    Linked M J d x y := by
  obtain ⟨hpend, hc, hm, hr⟩ := (key_some hl hx).1 hkey
  refine ⟨hc, ⟨s, hs, hm⟩, fun n hn => ?_, hpend, hpast⟩
  rw [existing_off hl hx, hc, hm] at hn
  rw [hr]
  exact hfresh n hn

/-- Revisions no higher than those there were make no difference to a correction. -/
theorem readOff_congr {T T' : Shelf Identity String} {s : String} {read : ReadResult}
    (hread : ∀ T, readOff M T y = revisedRead read s
      (revisionsOf T read.conversationId (read.conversationId ++ ":" ++ s)))
    (hsub : ∀ n ∈ revisionsOf T read.conversationId (read.conversationId ++ ":" ++ s),
      n ∈ revisionsOf T' read.conversationId (read.conversationId ++ ":" ++ s))
    (hno : ∀ n ∈ revisionsOf T' read.conversationId (read.conversationId ++ ":" ++ s),
      ∃ n' ∈ revisionsOf T read.conversationId (read.conversationId ++ ":" ++ s), n ≤ n') :
    readOff M T' y = readOff M T y := by
  have hmax := maxOf_congr hsub hno
  rw [hread, hread]
  by_cases hnil : revisionsOf T read.conversationId (read.conversationId ++ ":" ++ s) = []
  · have hnil' : revisionsOf T' read.conversationId (read.conversationId ++ ":" ++ s) = [] := by
      refine List.eq_nil_iff_forall_not_mem.2 fun n hn => ?_
      obtain ⟨n', hn', -⟩ := hno n hn
      rw [hnil] at hn'
      exact absurd hn' List.not_mem_nil
    rw [hnil, hnil']
  · obtain ⟨n, hn⟩ := List.exists_mem_of_ne_nil _ hnil
    rw [revisedRead_some hnil, revisedRead_some (List.ne_nil_of_mem (hsub n hn)), hmax]

/-- Where nothing before `y` is linked to it, `y` is read as if nothing of that were on disk. -/
theorem key_steady (hl : Listing M J d items) {done : List Item} (hdone : ∀ x ∈ done, x ∈ items)
    (hy : y ∈ items) (h : ∀ x ∈ done, ¬ Linked M J d x y) :
    (reader M d).key (fileAll (reader M d) (texts d.records) done (texts d.records)) y =
      (reader M d).key (texts d.records) y := by
  generalize hT : fileAll (reader M d) (texts d.records) done (texts d.records) = T
  cases hs : supersedes y with
  | none => simp only [reader, readOff_plain T (texts d.records) hs]
  | some s =>
    obtain ⟨read, -, hread⟩ := readOff_correction (M := M) (hl.readable y hy) hs
    have hconv : (readItem M J d y).conversationId = read.conversationId := by
      rw [readItem_off (conversation_taken hl hy d), hread, revisedRead_conversation]
    by_cases hpast : past y.position (d.cursorsOf read.conversationId).revision = true
    · have hsame : readOff M T y = readOff M (texts d.records) y := by
        refine readOff_congr hread (fun n hn => ?_) fun n hn => ?_
        · rw [mem_revisionsOf] at hn ⊢
          rw [← hT, mem_keys_fileAll]
          exact .inr hn
        · rw [mem_revisionsOf, ← hT, mem_keys_fileAll, ← mem_revisionsOf] at hn
          rcases hn with ⟨x, hx, hkey⟩ | hn
          · by_contra hno
            refine h x hx (linked_of_key hl (hdone x hx) hs (r := n) (hconv ▸ hkey) ?_ (hconv ▸ hpast))
            intro n' hn'
            rw [hconv] at hn'
            by_contra hle
            exact hno ⟨n', hn', by omega⟩
          · exact ⟨n, hn, le_rfl⟩
      simp only [reader, hsame]
    · -- It is past neither cursor.
      have hmess : ¬ past y.position (d.cursorsOf read.conversationId).message = true :=
        fun hp => hpast (hconv ▸ hl.cursors y hy (hconv.symm ▸ hp))
      have hnot : ∀ k, ¬ past y.position ((d.cursorsOf read.conversationId).at' k) = true := by
        intro k
        cases k
        · exact hmess
        · exact hpast
      simp only [reader, hread, revisedRead_conversation]
      rw [if_neg (hnot _), if_neg (hnot _)]

/-- In a poll of its own `y` is captured under a revision nothing has in one poll. -/
theorem not_cutFree {more : List Item} (hl : Listing M J d (l ++ y :: more)) (hx : x ∈ l)
    (h : Linked M J d x y) : ¬ CutFree M J d (l ++ y :: more) := by
  intro hfree
  have hxi : x ∈ l ++ y :: more := List.mem_append_left _ hx
  have hyi : y ∈ l ++ y :: more := by simp
  have hcut := hfree 0 0 [(0, 0, l), (0, 0, [y]), (0, 0, more)] (by simp)
  rw [(capture_files hl 0 0 (moved_refl d) (fun _ h => h) (by simp)).1,
    polls_files hl (moved_refl d) (by simp)] at hcut
  have hkeys : ∀ i, i ∈ keys (batches (reader M d) (texts d.records) [l, [y], more]) →
      i ∈ keys (batch (reader M d) (texts d.records) (l ++ y :: more)) := by
    intro i hi
    obtain ⟨t, ht, rfl⟩ := List.mem_map.1 hi
    exact List.mem_map_of_mem ((hcut t).1 ht)
  -- How `x` is filed, and how `y` is read behind it.
  obtain ⟨s, hs, hm⟩ := h.corrects
  obtain ⟨read, -, hread⟩ := readOff_correction (M := M) (hl.readable y hyi) hs
  have hconv : (readItem M J d y).conversationId = read.conversationId := by
    rw [readItem_off (conversation_taken hl hyi d), hread, revisedRead_conversation]
  have hfresh := h.fresh
  rw [existing_off hl hxi, h.conversation, hm, hconv] at hfresh
  have hkey := (key_some hl hxi).2 ⟨h.pending, h.conversation.trans hconv, hm.trans (by rw [hconv]), rfl⟩
  generalize (readItem M J d x).revision = r at hfresh hkey
  generalize hT : batch (reader M d) (texts d.records) l = T
  have hr : r ∈ revisionsOf T read.conversationId (read.conversationId ++ ":" ++ s) := by
    rw [mem_revisionsOf, ← hT, batch, mem_keys_fileAll]
    exact .inl ⟨x, hx, hkey⟩
  have hnext := maxOf_le.1 le_rfl r hr
  have hy : (reader M d).key T y = some ⟨read.conversationId, read.conversationId ++ ":" ++ s,
      maxOf (revisionsOf T read.conversationId (read.conversationId ++ ":" ++ s)) + 1⟩ := by
    simp only [reader, hread, revisedRead_some (List.ne_nil_of_mem hr), ReadResult.id]
    exact if_pos (hconv ▸ h.past)
  generalize maxOf (revisionsOf T read.conversationId (read.conversationId ++ ":" ++ s)) = n
    at hnext hy
  -- No item of one poll is filed so high.
  have hfiled := hkeys ⟨read.conversationId, read.conversationId ++ ":" ++ s, n + 1⟩ (by
    rw [batches, List.foldl_cons, hT, List.foldl_cons, ← batches]
    refine mem_keys_batches ?_ [more]
    rw [batch, mem_keys_fileAll]
    exact .inl ⟨y, by simp, hy⟩)
  rw [batch, mem_keys_fileAll, ← mem_revisionsOf] at hfiled
  rcases hfiled with ⟨z, hz, hzkey⟩ | hold
  · obtain ⟨-, hc, hm', hr'⟩ := (key_some hl hz).1 hzkey
    have hoff := readItem_off (conversation_taken hl hz d)
    rw [hoff] at hc hm' hr'
    rcases readOff_revision (M := M) (hl.readable z hz) (texts d.records) with h0 | ⟨k, hk, hk'⟩
    · omega
    · rw [hc, hm'] at hk
      have := hfresh k hk
      omega
  · have := hfresh _ hold
    omega

theorem exists_of_not_pairwise {R : Item → Item → Prop} (h : ¬ items.Pairwise fun x y => ¬ R x y) :
    ∃ l y more x, items = l ++ y :: more ∧ x ∈ l ∧ R x y := by
  induction items using List.reverseRecOn with
  | nil => exact absurd .nil h
  | append_singleton items y ih =>
    by_cases hall : items.Pairwise fun x y => ¬ R x y
    · have hlast : ¬ ∀ x ∈ items, ¬ R x y := fun hno => h (by simpa [List.pairwise_append, hall] using hno)
      simp only [not_forall, not_not] at hlast
      obtain ⟨x, hx, hr⟩ := hlast
      exact ⟨items, y, [], x, rfl, hx, hr⟩
    · obtain ⟨l, z, more, x, rfl, hx, hr⟩ := ih hall
      exact ⟨l, z, more ++ [y], x, by simp, hx, hr⟩

/-- The cut of a list makes no difference exactly where no item is linked to one before it. -/
theorem cut_free_iff (hl : Listing M J d items) :
    CutFree M J d items ↔ items.Pairwise fun x y => ¬ Linked M J d x y := by
  constructor
  · intro hfree
    by_contra hno
    obtain ⟨l, y, more, x, rfl, hx, hlinked⟩ := exists_of_not_pairwise hno
    exact not_cutFree hl hx hlinked hfree
  · intro hnone listed at_ cut hcut t
    have hsteady : Steady (reader M d) (texts d.records) (cut.map (·.2.2)).flatten := by
      intro l y m he done hdone
      have he : items = l ++ y :: m := hcut ▸ he
      refine key_steady hl (fun x hx => he ▸ List.mem_append_left _ (hdone.subset hx)) (he ▸ by simp)
        fun x hx => ?_
      rw [he, List.pairwise_append] at hnone
      exact hnone.2.2 x (hdone.subset hx) y List.mem_cons_self
    rw [polls_files hl (moved_refl d) (by simpa using hcut), batches_eq hsteady, hcut,
      (capture_files hl listed at_ (moved_refl d) (fun _ h => h) (by simp)).1]

/-! ## A message and its correction -/

def box : Mail := { agent := "agent", account := "a@b" }

def mailOf (uid : Nat) (headers : List (String × String)) (body : String) : Item :=
  { uidvalidity := some 7, uid := some uid, position := positionOf 7 uid
    message := .ok
      { headers := (("from", "c@d") :: ("to", "a@b") :: headers).map fun (name, text) =>
          { name, value := text, raw := text }
        body } }

def hello : Item := mailOf 1 [("message-id", "<m>")] "hello"

def corrected : Item :=
  mailOf 3 [("message-id", "<n>"), ("references", "<m>"), ("supersedes", "<m>")] "hello, all"

/-- In two polls the correction is revision 1 of the message, in one it is a message. -/
theorem corrected_fresh :
    texts ((adapter box plainJs).polls plainJs [(0, 0, [hello]), (0, 0, [corrected])] {}).records =
        [(⟨"a@b:m", "a@b:m:m", 0⟩, "hello"), (⟨"a@b:m", "a@b:m:m", 1⟩, "hello, all")] ∧
      texts ((adapter box plainJs).capture plainJs 0 0 [hello, corrected] {}).2.records =
        [(⟨"a@b:m", "a@b:m:m", 0⟩, "hello"), (⟨"a@b:m", "a@b:m:n", 0⟩, "hello, all")] ∧
      ¬ CutFree box plainJs {} [hello, corrected] := by
  have htwo : texts ((adapter box plainJs).polls plainJs
      [(0, 0, [hello]), (0, 0, [corrected])] {}).records =
      [(⟨"a@b:m", "a@b:m:m", 0⟩, "hello"), (⟨"a@b:m", "a@b:m:m", 1⟩, "hello, all")] := by
    decide +kernel
  have hone : texts ((adapter box plainJs).capture plainJs 0 0 [hello, corrected] {}).2.records =
      [(⟨"a@b:m", "a@b:m:m", 0⟩, "hello"), (⟨"a@b:m", "a@b:m:n", 0⟩, "hello, all")] := by
    decide +kernel
  refine ⟨htwo, hone, fun hfree => ?_⟩
  have := hfree 0 0 [(0, 0, [hello]), (0, 0, [corrected])] rfl
    (⟨"a@b:m", "a@b:m:m", 1⟩, "hello, all")
  rw [htwo, hone] at this
  exact absurd (this.1 (by simp)) (by decide +kernel)

example : supersedes corrected = some "m" ∧ supersedes hello = none := by decide +kernel

def reply : Item := mailOf 2 [("message-id", "<r>"), ("references", "<m>")] "good day"

/-- The store after the message was polled. -/
def told : Disk := (adapter box plainJs).polls plainJs [(0, 0, [hello])] {}

theorem iso_nonempty (t : Int) : plainJs.iso t ≠ "" := by
  cases t with
  | ofNat n => exact Nat.repr_ne_empty
  | negSucc n =>
    rw [show plainJs.iso (Int.negSucc n) = "-" ++ Nat.repr n.succ from rfl]
    simp

/-- When and as what revision it is captured makes no fault. -/
theorem captureFaults_restamp {r : MessageRecord} {receivedAt : String} {n : Nat}
    (hr : r.receivedAt ≠ "") (ht : receivedAt ≠ "") :
    captureFaults J { r with receivedAt, revision := n } [] = captureFaults J r [] := by
  have hval : validate J { r with receivedAt, revision := n } = validate J r := by
    have hnone : ∀ value, value ≠ "" → tooShort "$.received_at" value = [] := fun _ h => if_neg h
    unfold validate
    rw [hnone receivedAt ht, hnone r.receivedAt hr]
  simp only [captureFaults, hval]
  rfl

/-- A contact's message, whenever and wherever it is read. -/
theorem recordOf_contact {read : ReadResult} {message : Message} {receivedAt : String}
    (hs : (declaredAddresses M).contains (senderOf M read.headers) = false) :
    recordOf M J d receivedAt read message =
      { recordOf M J {} "now" { read with revision := 0 } message with
        receivedAt, revision := read.revision } := by
  simp only [recordOf, isOwn, roleOf, hs, Bool.false_and, Bool.false_eq_true, if_false, reduceCtorEq]

/-- The message of an item that can be read. -/
def messageOf (x : Item) : Message :=
  match x.message with
  | .ok message => message
  | .error _ => {}

/-- The two messages, as they are read. -/
theorem told_mail :
    (ownIdOf (messageOf reply).headers = some "r" ∧ ownIdOf (messageOf corrected).headers = some "n" ∧
      supersededBy (messageOf corrected).headers = some "m") ∧
    (declaredAddresses box).contains (senderOf box (messageOf corrected).headers) = false ∧
    ([reply, corrected].Pairwise fun x y => x.position < y.position) ∧
    (∀ x ∈ [reply, corrected], x.mailboxPosition.getD x.position = x.position) ∧
    (∀ x ∈ [reply, corrected],
      past x.position (told.cursorsOf (readItem box plainJs told x).conversationId).message = true →
        past x.position (told.cursorsOf (readItem box plainJs told x).conversationId).revision = true) ∧
    supersedes corrected = some "m" ∧
    (readItem box plainJs told reply).messageId ≠
      (readItem box plainJs told corrected).conversationId ++ ":" ++ "m" := by
  decide +kernel

theorem reply_taken (d : Disk) (at_ : Int) :
    captureFaults plainJs (candidateOf box plainJs d (plainJs.iso at_) reply).1.record [] = [] := by
  obtain ⟨⟨hid, -⟩, -⟩ := told_mail
  have hread : readItem box plainJs d reply = plainRead box (reply.with_ (messageOf reply)) "r" :=
    readItem_plain rfl hid (by decide +kernel)
  rw [candidateOf_ok (by rw [hread]; rfl), hread, recordOf_contact (by decide +kernel),
    captureFaults_restamp (by decide +kernel) (iso_nonempty at_)]
  decide +kernel

theorem corrected_taken (d : Disk) (at_ : Int) :
    captureFaults plainJs (candidateOf box plainJs d (plainJs.iso at_) corrected).1.record [] =
      [] := by
  obtain ⟨⟨-, hid, hs⟩, hsender, -⟩ := told_mail
  -- Read as itself, or as a revision of the message.
  have hread : ∃ messageId n kind, (messageId = "a@b:m:n" ∨ messageId = "a@b:m:m") ∧
      readItem box plainJs d corrected =
        { plainRead box (corrected.with_ (messageOf corrected)) "n" with
          messageId, revision := n, cursorKind := kind } := by
    have hread := readItem_correction (M := box) (J := plainJs) (d := d) (x := corrected) rfl hid hs
    generalize existingRevisions plainJs d _ _ = existing at hread
    cases existing with
    | nil => exact ⟨_, _, _, .inl (by decide +kernel), hread⟩
    | cons n more =>
      rw [revisedRead_some (by simp)] at hread
      exact ⟨_, _, _, .inr (by decide +kernel), hread⟩
  obtain ⟨messageId, n, kind, hm, hread⟩ := hread
  have hnow : "now" ≠ "" := by decide
  rw [candidateOf_ok (by rw [hread]; rfl), hread, recordOf_contact (by exact hsender),
    captureFaults_restamp (by exact hnow) (iso_nonempty at_)]
  dsimp only
  cases kind <;> rcases hm with rfl | rfl <;> decide +kernel

theorem told_listing : Listing box plainJs told [reply, corrected] := by
  obtain ⟨⟨hreply, hcorrected, -⟩, -, hordered, hplaced, hcursors, -⟩ := told_mail
  refine ⟨hordered, hplaced, fun x hx => ?_, fun x hx d at_ => ?_, hcursors⟩
  · simp only [List.mem_cons, List.not_mem_nil, or_false] at hx
    rcases hx with rfl | rfl
    · exact ⟨_, "r", rfl, hreply⟩
    · exact ⟨_, "n", rfl, hcorrected⟩
  · simp only [List.mem_cons, List.not_mem_nil, or_false] at hx
    rcases hx with rfl | rfl
    · exact reply_taken d at_
    · exact corrected_taken d at_

theorem cut_free_run : CutFree box plainJs told [reply, corrected] := by
  refine (cut_free_iff told_listing).2 ?_
  have hno : ¬ Linked box plainJs told reply corrected := by
    rintro ⟨-, ⟨s, hs, hm⟩, -, -, -⟩
    obtain ⟨-, -, -, -, -, hs', hne⟩ := told_mail
    rw [hs'] at hs
    cases hs
    exact hne hm
  simp [hno]

end CarbonRuntime.Bugs.CutBatch
