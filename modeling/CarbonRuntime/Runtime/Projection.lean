import CarbonRuntime.Core.Feed
import CarbonRuntime.Runtime.Process
import CarbonRuntime.Stream.Changes

/-!
# The browser's change feed

The store publishes what is written of the browser's records (`publishBrowserChange`,
stream/store.ts:207-219) and a reader gets a ticket's records page by page in the order of their
last change (runtime/browser-projection.ts, runtime/browser.ts:41-48). A record's cursor is the
greater of the ordinal of its capture and of `browser_event_seq`, which each write on it takes anew;
the projection keeps the cursors in memory, off the index and off the store's notifications.

`Browsing` is a store with the projection and a reader of one conversation. A change is a run of
the store's own function; a reply is a capture and then its fence, a settlement the end of one.
Whatever else the process writes goes by (`idle`), and it may be started again.

**Results.** `browsing_inv`: in every state reached what the reader passed it has received as it
is now, and the projection's cursors are those of the records. `feed_complete`: a reader that is
given an empty page has received every record of the browser as it is.
-/

open CarbonRuntime.Core CarbonRuntime.Stream

namespace CarbonRuntime.BrowserProjection

open Store

/-! ## What the store publishes -/

/-- A row of the projection, and of the store's notifications. -/
structure Row where
  id : Identity
  seq : Nat
  cursor : Nat
deriving DecidableEq

def eventSeq (r : MessageRecord) : Nat := r.adapterFields.browserEventSeq.getD 0

/-- `browserProjectionVersion` and `browserProjectionUpdates`. -/
structure Published where
  version : Nat := 0
  updates : Table Row.id := Table.empty

/-- mirrors store.ts:207-219 -/
def Published.publish (p : Published) (record : MessageRecord) (captureSeq : Option Nat) :
    Published :=
  if record.source = "browser" then
    let previous := p.updates.find record.id
    let seq := captureSeq.getD ((previous.map (·.seq)).getD 0)
    { version := p.version + 1, updates := p.updates.put ⟨record.id, seq, max seq (eventSeq record)⟩ }
  else p

/-! ## The projection -/

structure Projection where
  rows : Table Row.id := Table.empty
  initialized : List String := []
  /-- `none` is `-1`. -/
  version : Option Nat := none

/-- mirrors browser-projection.ts:18-23 -/
def putRow (rows : Table Row.id) (row : Row) : Table Row.id :=
  let prior := rows.find row.id
  rows.put { row with
    seq := if row.seq = 0 then (prior.map (·.seq)).getD 0 else row.seq
    cursor := max row.cursor ((prior.map (·.cursor)).getD 0) }

/-- mirrors browser-projection.ts:14-17 -/
def build (index : List IndexEntry) : Projection where
  rows := (index.map fun e => (⟨e.id, e.seq, e.seq⟩ : Row)).foldl putRow Table.empty

/-- What was published since the last page is put into the rows. -/
def Projection.refresh (p : Projection) (pub : Published) : Projection :=
  if p.version = some pub.version then p
  else { p with rows := pub.updates.rows.foldl putRow p.rows, version := some pub.version }

/-- The row with the ordinal of its record's last change. -/
def raised (conversationId : String) (records : Table MessageRecord.id) (row : Row) : Row :=
  if row.id.conversationId = conversationId then
    { row with cursor := max row.cursor (((records.find row.id).map eventSeq).getD 0) }
  else row

theorem raised_id (conversationId : String) (records : Table MessageRecord.id) (row : Row) :
    (raised conversationId records row).id = row.id := by
  unfold raised
  split <;> rfl

/-- A conversation's first page reads its records. -/
def Projection.initializing (p : Projection) (conversationId : String)
    (records : Table MessageRecord.id) : Projection :=
  if conversationId ∈ p.initialized then p
  else { p with
    rows := p.rows.mapRows (raised conversationId records) (raised_id conversationId records)
    initialized := conversationId :: p.initialized }

/-- The rows of a page, browser-projection.ts:36-38. -/
def Projection.matching (p : Projection) (conversationId : String) (after limit : Nat) : List Row :=
  (sortBy (fun a b : Row => decide (a.cursor < b.cursor))
    ((p.rows.rows.filter (·.id.conversationId = conversationId)).filter
      fun row => decide (after < row.cursor))).take limit

/-! ## The changes -/

/-- The functions of the store that write on records and publish it. -/
inductive Change
  | capture (record : MessageRecord) (cursor : Option (CursorKind × String))
      (typeFaults : List Fault) (disposition : Option Disposition) (raw : Option String)
  | park (record : MessageRecord) (reason : String) (cursor : Option (CursorKind × String))
      (typeFaults : List Fault) (raw : Option String)
  | parkFailed (i : Identity) (faults : List Fault) (reason : Option String)
  | annotate (i : Identity) (fields : AdapterFields → AdapterFields)
  | setDisposition (i : Identity) (d : Disposition)
  | release (record : MessageRecord) (rel : Release) (at_ : Int) (holdApplies : Bool)
  | completeRelease (i : Identity) (at_ : String)
  | settleDelivery (requestId : String) (status : Status) (chunkIds : Option (List String))
      (completedAt : Option String)

def Change.program (L : Loop) : Change → Program L MessageRecord
  | .capture r cursor typeFaults disposition raw => Store.capture L r cursor typeFaults disposition raw
  | .park r reason cursor typeFaults raw => Store.park L r reason cursor typeFaults raw
  | .parkFailed i faults reason => Store.parkFailed L i faults reason
  | .annotate i fields => Store.annotate L i fields
  | .setDisposition i d => Store.setDisposition L i d
  | .release r rel at_ holdApplies => Store.release L r rel at_ holdApplies
  | .completeRelease i at_ => Store.completeRelease L i at_
  | .settleDelivery requestId status chunkIds completedAt =>
    Store.settleDelivery L requestId status chunkIds completedAt

/-- A capture is the first of its record; nobody but the store writes `browser_event_seq`. -/
def Change.fits (d : Disk) : Change → Prop
  | .capture r _ _ _ _ | .park r _ _ _ _ =>
    d.records.find r.id = none ∧ r.adapterFields.browserEventSeq = none
  | .annotate _ fields => ∀ f, (fields f).browserEventSeq = f.browserEventSeq
  | _ => True

/-- Whether the change adds a record. -/
def Change.first : Change → Bool
  | .capture _ _ _ _ _ | .park _ _ _ _ _ => true
  | _ => false

/-- What is published of a change that came to `written`. A disposition written after the capture
is published by itself. -/
def Change.publishes (d : Disk) (written : MessageRecord) (p : Published) : Change → Published
  | .capture r _ _ disposition _ =>
    let p := if disposition.any (· ≠ r.disposition) then p.publish written none else p
    p.publish written (some (d.seq + 1))
  | .park _ _ _ _ _ => p.publish written (some (d.seq + 1))
  | _ => p.publish written none

/-! ## The reader -/

structure Browsing where
  world : World
  published : Published := {}
  projection : Option Projection := none
  /-- The cursor the last page returned. -/
  after : Nat := 0
  received : List (Identity × Option MessageRecord) := []

/-- The projection a page is cut from. -/
def Browsing.current (s : Browsing) (conversationId : String) : Projection :=
  ((s.projection.getD (build s.world.disk.index)).refresh s.published).initializing conversationId
    s.world.disk.records

/-- The records of a page with their cursors, each as it is now. -/
def Browsing.page (s : Browsing) (conversationId : String) (limit : Nat) :
    List (Feed.Item Identity (Option MessageRecord)) :=
  ((s.current conversationId).matching conversationId s.after limit).map fun row =>
    ⟨row.id, row.cursor, s.world.disk.records.find row.id⟩

def Browsing.read (s : Browsing) (conversationId : String) (limit : Nat) : Browsing :=
  { s with
    projection := some (s.current conversationId)
    after := Feed.reached s.after (s.page conversationId limit)
    received := s.received ++ (s.page conversationId limit).map fun x => (x.key, x.value) }

inductive Op
  | change (c : Change)
  | idle
  | read (limit : Nat)
  | restart

inductive Step (L : Loop) (conversationId : String) : Browsing → Op → Browsing → Prop
  | changed (s : Browsing) (c : Change) (written : MessageRecord) (w : World) :
      c.fits s.world.disk → Prog.Runs (c.program L) s.world (.ok written) w →
      Step L conversationId s (.change c)
        { s with world := w, published := c.publishes s.world.disk written s.published }
  | refused (s : Browsing) (c : Change) (e : Err) (w : World) :
      c.fits s.world.disk → Prog.Runs (c.program L) s.world (.error e) w →
      Step L conversationId s (.change c) { s with world := w }
  | idle (s : Browsing) (w : World) : Untouched s.world.disk w.disk →
      Step L conversationId s .idle { s with world := w }
  | read (s : Browsing) (limit : Nat) : 0 < limit →
      Step L conversationId s (.read limit) (s.read conversationId limit)
  | restart (s : Browsing) (w : World) : w.disk = s.world.disk →
      Step L conversationId s .restart { s with world := w, published := {}, projection := none }

/-- A store from its beginning, and a reader that has read nothing. -/
def browsing (L : Loop) (conversationId : String) : LTS Browsing Op where
  init s := s.world.disk.records.rows = [] ∧ s.world.disk.index = [] ∧
    s.published = {} ∧ s.projection = none ∧ s.after = 0 ∧ s.received = []
  step := Step L conversationId

/-! ## Cursors on disk -/

/-- The cursor of a record that has an index line. -/
def cursorAt (d : Disk) (i : Identity) : Option Nat :=
  (d.index.find? (·.id = i)).map fun e => max e.seq (((d.records.find i).map eventSeq).getD 0)

/-- Every record has one index line, ordinals are not ahead, and cursors differ. -/
structure Indexed (d : Disk) : Prop where
  nodup : (d.index.map (·.id)).Nodup
  there : ∀ i, (d.records.find i).isSome = true ↔ i ∈ d.index.map (·.id)
  seqs : ∀ e ∈ d.index, e.seq ≤ d.seq
  events : ∀ i r, d.records.find i = some r → eventSeq r ≤ d.seq
  distinct : ∀ i j n, cursorAt d i = some n → cursorAt d j = some n → i = j

/-- What a change of the record `written` does to the disk. -/
structure Moved (d : Disk) (written : MessageRecord) (d' : Disk) : Prop where
  self : d'.records.find written.id = some written
  others : ∀ j, j ≠ written.id → d'.records.find j = d.records.find j
  source : ∀ old, d.records.find written.id = some old → old.source = written.source
  seq : d.seq ≤ d'.seq
  event : eventSeq written ≤ d'.seq
  index : d'.index = d.index ∧ (d.records.find written.id).isSome = true ∨
    d'.index = d.index ++ [⟨d.seq + 1, written.id⟩] ∧ d.records.find written.id = none ∧
      d.seq + 1 ≤ d'.seq
  cursors : ∀ j, j ≠ written.id → cursorAt d' j = cursorAt d j
  fresh : (written.source = "browser" ∨ d.records.find written.id = none) ∧
      (∃ n, cursorAt d' written.id = some n ∧ d.seq < n ∧ n ≤ d'.seq) ∨
    written.source ≠ "browser" ∧ cursorAt d' written.id = cursorAt d written.id
  stamped : written.source = "browser" → (d.records.find written.id).isSome = true →
    d.seq < eventSeq written

section disk
variable {d d' : Disk} {r written : MessageRecord}

theorem find?_index {i : Identity} {e : IndexEntry} (h : Indexed d) (he : e ∈ d.index)
    (hid : e.id = i) : d.index.find? (·.id = i) = some e := by
  have hs : (d.index.find? (·.id = i)).isSome = true := by
    rw [List.find?_isSome]
    exact ⟨e, he, by simpa using hid⟩
  obtain ⟨e', he'⟩ := Option.isSome_iff_exists.1 hs
  have hid' : e'.id = i := by simpa using List.find?_some he'
  rw [he', List.inj_on_of_nodup_map h.nodup (List.mem_of_find?_eq_some he') he
    (hid'.trans hid.symm)]

theorem cursorAt_le (h : Indexed d) {i : Identity} {n : Nat} (hn : cursorAt d i = some n) :
    n ≤ d.seq := by
  rw [cursorAt, Option.map_eq_some_iff] at hn
  obtain ⟨e, he, rfl⟩ := hn
  have he := h.seqs e (List.mem_of_find?_eq_some he)
  cases hr : d.records.find i with
  | none => simpa using he
  | some r =>
    have := h.events i r hr
    simp only [Option.map_some, Option.getD_some]
    omega

theorem Moved.indexed (h : Indexed d) (hm : Moved d written d') : Indexed d' where
  nodup := by
    rcases hm.index with ⟨hi, _⟩ | ⟨hi, hnone, _⟩
    · rw [hi]
      exact h.nodup
    · rw [hi, List.map_append, List.nodup_append]
      refine ⟨h.nodup, by simp, ?_⟩
      intro x hx y hy he
      simp only [List.map_cons, List.map_nil, List.mem_singleton] at hy
      subst hy he
      have := (h.there _).2 hx
      rw [hnone] at this
      cases this
  there i := by
    by_cases he : i = written.id
    · subst he
      rw [hm.self]
      simp only [Option.isSome_some, true_iff]
      rcases hm.index with ⟨hi, hs⟩ | ⟨hi, _, _⟩
      · rw [hi]
        exact (h.there _).1 hs
      · rw [hi]
        simp
    · rw [hm.others i he, h.there]
      rcases hm.index with ⟨hi, _⟩ | ⟨hi, _, _⟩
      · rw [hi]
      · rw [hi]
        simp [he]
  seqs e he := by
    rcases hm.index with ⟨hi, _⟩ | ⟨hi, _, hle⟩
    · rw [hi] at he
      exact Nat.le_trans (h.seqs e he) hm.seq
    · rw [hi] at he
      rcases List.mem_append.1 he with he | he
      · exact Nat.le_trans (h.seqs e he) hm.seq
      · rw [List.mem_singleton.1 he]
        exact hle
  events i r hr := by
    by_cases he : i = written.id
    · subst he
      rw [hm.self] at hr
      cases hr
      exact hm.event
    · rw [hm.others i he] at hr
      exact Nat.le_trans (h.events i r hr) hm.seq
  distinct i j n hi hj := by
    rcases hm.fresh with ⟨_, m, hw, hlt, _⟩ | ⟨_, hw⟩
    · by_cases hei : i = written.id <;> by_cases hej : j = written.id
      · rw [hei, hej]
      · rw [hei, hw] at hi
        cases hi
        rw [hm.cursors j hej] at hj
        have := cursorAt_le h hj
        omega
      · rw [hej, hw] at hj
        cases hj
        rw [hm.cursors i hei] at hi
        have := cursorAt_le h hi
        omega
      · rw [hm.cursors i hei] at hi
        rw [hm.cursors j hej] at hj
        exact h.distinct i j n hi hj
    · have hsame : ∀ k, cursorAt d' k = cursorAt d k := by
        intro k
        by_cases hk : k = written.id
        · rw [hk, hw]
        · exact hm.cursors k hk
      rw [hsame] at hi hj
      exact h.distinct i j n hi hj

theorem rewrote_moved (h : Indexed d) (hw : Rewrote d written d') : Moved d written d' := by
  obtain ⟨old, hold, hsource, hevent⟩ := hw.old
  have hself : d'.records.find written.id = some written := by
    rw [hw.records]
    exact Table.find_put_self _ _
  have hothers : ∀ j, j ≠ written.id → d'.records.find j = d.records.find j := by
    intro j hj
    rw [hw.records]
    exact Table.find_put_other _ _ hj
  have hcur : ∀ j, j ≠ written.id → cursorAt d' j = cursorAt d j := by
    intro j hj
    rw [cursorAt, cursorAt, hw.index, hothers j hj]
  obtain ⟨e, he, hid⟩ := List.mem_map.1 ((h.there written.id).1 (by rw [hold]; rfl))
  have hfind := find?_index h he hid
  have hseq := h.seqs e he
  by_cases hb : written.source = "browser"
  · obtain ⟨hn, hlt⟩ := hw.fresh hb
    have hev : eventSeq written = d'.seq := by rw [eventSeq, hn]; rfl
    refine ⟨hself, hothers, fun o ho => ?_, hw.seq, by omega, .inl ⟨hw.index, by rw [hold]; rfl⟩,
      hcur, .inl ⟨.inl hb, d'.seq, ?_, hlt, Nat.le_refl _⟩, fun _ _ => by omega⟩
    · rw [hold] at ho
      cases ho
      exact hsource
    · rw [cursorAt, hw.index, hfind, hself]
      simp only [Option.map_some, Option.getD_some, hev, Option.some.injEq]
      omega
  · have hev : eventSeq written = eventSeq old := by rw [eventSeq, eventSeq, hevent hb]
    refine ⟨hself, hothers, fun o ho => ?_, hw.seq, ?_, .inl ⟨hw.index, by rw [hold]; rfl⟩, hcur,
      .inr ⟨hb, ?_⟩, fun hb' => absurd hb' hb⟩
    · rw [hold] at ho
      cases ho
      exact hsource
    · rw [hev]
      exact Nat.le_trans (h.events _ _ hold) hw.seq
    · rw [cursorAt, cursorAt, hw.index, hself, hold]
      simp [hev]

theorem captured_moved (h : Indexed d) (hw : FirstCaptured d r written d')
    (hnone : d.records.find r.id = none) (hev : r.adapterFields.browserEventSeq = none) :
    Moved d written d' := by
  have hidx : r.id ∉ d.index.map (·.id) := by
    intro hm
    have := (h.there r.id).2 hm
    rw [hnone] at this
    cases this
  have hself : d'.records.find written.id = some written := by
    rw [hw.id, hw.find, if_pos rfl]
  have hothers : ∀ j, j ≠ written.id → d'.records.find j = d.records.find j := by
    intro j hj
    rw [hw.id] at hj
    rw [hw.find, if_neg hj]
  have hle : eventSeq written ≤ d'.seq := by
    rcases hw.fields with hf | ⟨_, n, hn, _, hle⟩
    · simp [eventSeq, hf, hev]
    · simpa [eventSeq, hn] using hle
  refine ⟨hself, hothers, fun o ho => ?_, by have := hw.seq; omega, hle, .inr ⟨?_, ?_, hw.seq⟩,
    fun j hj => ?_, .inl ⟨.inr (by rw [hw.id, hnone]), max (d.seq + 1) (eventSeq written), ?_,
      by omega, ?_⟩,
    fun _ hs => by rw [hw.id, hnone] at hs; cases hs⟩
  · rw [hw.id, hnone] at ho
    cases ho
  · rw [hw.index, hw.id]
  · rw [hw.id]
    exact hnone
  · rw [cursorAt, cursorAt, hw.index, hothers j hj, List.find?_append]
    rw [hw.id] at hj
    cases d.index.find? (·.id = j) with
    | some e => rfl
    | none => simp [Ne.symm hj]
  · rw [cursorAt, hself, hw.index, hw.id, List.find?_append, List.find?_eq_none.2]
    · simp
    · intro e he
      simpa using fun hid => hidx (List.mem_map.2 ⟨e, he, hid⟩)
  · have := hw.seq
    omega

theorem untouched_indexed (h : Indexed d) (hu : Untouched d d') :
    Indexed d' ∧ cursorAt d' = cursorAt d := by
  have hc : cursorAt d' = cursorAt d := by
    funext i
    rw [cursorAt, cursorAt, hu.records, hu.index]
  refine ⟨⟨?_, ?_, ?_, ?_, ?_⟩, hc⟩
  · rw [hu.index]
    exact h.nodup
  · rw [hu.index, hu.records]
    exact h.there
  · rw [hu.index]
    exact fun e he => Nat.le_trans (h.seqs e he) hu.seq
  · rw [hu.records]
    exact fun i r hr => Nat.le_trans (h.events i r hr) hu.seq
  · rw [hc]
    exact h.distinct

end disk

section change
variable {L : Loop} {s s' : World} {written : MessageRecord} {c : Change}

/-- A change is a write on a record, a capture, a release or a settlement. -/
theorem change_cases (c : Change) :
    (∃ i f, c.program L = rewrite L i f ∧ c.first = false ∧ ∀ d, c.fits d → Keeping f) ∨
    (∃ r cursor typeFaults disposition raw,
      c.program L = Store.capture L r cursor typeFaults disposition raw ∧ c.first = true ∧
        ∀ d, c.fits d → d.records.find r.id = none ∧ r.adapterFields.browserEventSeq = none) ∨
    (∃ r rel at_ holdApplies,
      c.program L = Store.release L r rel at_ holdApplies ∧ c.first = false) ∨
    ∃ requestId status chunkIds completedAt,
      c.program L = Store.settleDelivery L requestId status chunkIds completedAt ∧
        c.first = false := by
  cases c with
  | capture r cursor typeFaults disposition raw =>
    exact .inr (.inl ⟨r, cursor, typeFaults, disposition, raw, rfl, rfl, fun _ h => h⟩)
  | park r reason cursor typeFaults raw =>
    exact .inr (.inl ⟨_, cursor, typeFaults, none, raw, rfl, rfl, fun _ h => h⟩)
  | parkFailed i faults reason =>
    exact .inl ⟨i, _, rfl, rfl, fun _ _ => keeping_parked faults reason⟩
  | annotate i fields => exact .inl ⟨i, _, rfl, rfl, fun _ h => keeping_annotated h⟩
  | setDisposition i d => exact .inl ⟨i, _, rfl, rfl, fun _ _ => keeping_disposed d⟩
  | release r rel at_ holdApplies => exact .inr (.inr (.inl ⟨r, rel, at_, holdApplies, rfl, rfl⟩))
  | completeRelease i at_ => exact .inl ⟨i, _, rfl, rfl, fun _ _ => keeping_completed at_⟩
  | settleDelivery requestId status chunkIds completedAt =>
    exact .inr (.inr (.inr ⟨requestId, status, chunkIds, completedAt, rfl, rfl⟩))

/-- What a change that went through did to the disk. -/
theorem change_moved (h : Indexed s.disk) (hfit : c.fits s.disk)
    (hr : Prog.Runs (c.program L) s (.ok written) s') : Moved s.disk written s'.disk ∧
      (s.disk.records.find written.id).isSome = !c.first := by
  have hrewrote : c.first = false → Rewrote s.disk written s'.disk →
      Moved s.disk written s'.disk ∧ (s.disk.records.find written.id).isSome = !c.first := by
    intro hfirst hw
    obtain ⟨old, hold, _⟩ := hw.old
    exact ⟨rewrote_moved h hw, by rw [hold, hfirst]; rfl⟩
  rcases change_cases (L := L) c with ⟨i, f, hc, hfirst, hf⟩ |
    ⟨r, cursor, typeFaults, disposition, raw, hc, hfirst, hn⟩ | ⟨r, rel, at_, holdApplies, hc, hfirst⟩ |
    ⟨requestId, status, chunkIds, completedAt, hc, hfirst⟩
  · rw [hc] at hr
    exact hrewrote hfirst (plain_runs hr (X := fun _ _ => True)
      (Q := fun written s' => Rewrote s.disk written s'.disk)
      (wp_rewrite_disk i (hf _ hfit) (fun _ _ hw _ => hw) fun _ _ => trivial))
  · rw [hc] at hr
    obtain ⟨hnone, hev⟩ := hn _ hfit
    have hw := plain_runs hr (X := fun _ _ => True)
      (Q := fun written s' => FirstCaptured s.disk r written s'.disk)
      (wp_capture_disk r cursor typeFaults disposition raw hnone (fun _ _ hw => hw)
        fun _ _ _ => trivial)
    exact ⟨captured_moved h hw hnone hev, by rw [hw.id, hnone, hfirst]; rfl⟩
  · rw [hc] at hr
    exact hrewrote hfirst (plain_runs hr (X := fun _ _ => True)
      (Q := fun written s' => Rewrote s.disk written s'.disk)
      (wp_release_disk r rel at_ holdApplies (fun _ _ hw _ => hw) fun _ => trivial))
  · rw [hc] at hr
    exact hrewrote hfirst (plain_runs hr (X := fun _ _ => True)
      (Q := fun written s' => Rewrote s.disk written s'.disk)
      (wp_settle_disk requestId status chunkIds completedAt (fun _ _ hw => hw) fun _ => trivial))

/-- What is refused, or fails, changes no record. -/
theorem change_refused {e : Err} (hfit : c.fits s.disk)
    (hr : Prog.Runs (c.program L) s (.error e) s') : Untouched s.disk s'.disk := by
  refine plain_runs hr (Q := fun _ _ => True) (X := fun _ s' => Untouched s.disk s'.disk) ?_
  rcases change_cases (L := L) c with ⟨i, f, hc, -, hf⟩ |
    ⟨r, cursor, typeFaults, disposition, raw, hc, -, hn⟩ | ⟨r, rel, at_, holdApplies, hc, -⟩ |
    ⟨requestId, status, chunkIds, completedAt, hc, -⟩
  · rw [hc]
    exact wp_rewrite_disk i (hf _ hfit) (fun _ _ _ _ => trivial) fun _ _ => .refl _
  · rw [hc]
    exact wp_capture_disk r cursor typeFaults disposition raw (hn _ hfit).1
      (fun _ _ _ => trivial) fun _ _ hu => hu
  · rw [hc]
    exact wp_release_disk r rel at_ holdApplies (fun _ _ _ _ => trivial) fun _ => .refl _
  · rw [hc]
    exact wp_settle_disk requestId status chunkIds completedAt (fun _ _ _ => trivial)
      fun _ => .refl _

end change

/-! ## What was published -/

/-- What is published of a record of the browser has its cursor. -/
structure Announces (d : Disk) (i : Identity) (u : Row) : Prop where
  record : ∃ r, d.records.find i = some r ∧ r.source = "browser"
  cursor : cursorAt d i = some u.cursor
  seq : u.seq ≤ u.cursor

def Announced (d : Disk) (pub : Published) : Prop :=
  ∀ i u, pub.updates.find i = some u → Announces d i u

section published
variable {d d' : Disk} {pub : Published} {written : MessageRecord} {c : Change}

theorem publish_other (h : written.source ≠ "browser") (seq : Option Nat) :
    pub.publish written seq = pub := if_neg h

theorem publishes_other (h : written.source ≠ "browser") (c : Change) :
    c.publishes d written pub = pub := by
  cases c with
  | capture r cursor typeFaults disposition raw =>
    simp only [Change.publishes, publish_other h]
    split <;> rfl
  | _ => exact publish_other h _

/-- The row a browser's record is published under. -/
theorem publish_find (h : written.source = "browser") (seq : Option Nat) (i : Identity) :
    (pub.publish written seq).updates.find i =
      if i = written.id then
        some ⟨written.id, seq.getD (((pub.updates.find written.id).map (·.seq)).getD 0),
          max (seq.getD (((pub.updates.find written.id).map (·.seq)).getD 0)) (eventSeq written)⟩
      else pub.updates.find i := by
  rw [Published.publish, if_pos h]
  exact Table.find_put _ _ _

theorem publish_version (h : written.source = "browser") (seq : Option Nat) :
    (pub.publish written seq).version = pub.version + 1 := by
  rw [Published.publish, if_pos h]

theorem publishes_find (h : written.source = "browser") (c : Change) :
    pub.version < (c.publishes d written pub).version ∧
      (∀ i, i ≠ written.id → (c.publishes d written pub).updates.find i = pub.updates.find i) ∧
      ∃ q, (c.publishes d written pub).updates.find written.id =
          some ⟨written.id, q, max q (eventSeq written)⟩ ∧
        if c.first then q = d.seq + 1
        else q = ((pub.updates.find written.id).map (·.seq)).getD 0 := by
  have hone : ∀ (p : Published) (seq : Option Nat), p.version ≤ (p.publish written seq).version := by
    intro p seq
    rw [publish_version h]
    omega
  have hnone : ∀ seq, pub.version < (pub.publish written seq).version ∧
      (∀ i, i ≠ written.id → (pub.publish written seq).updates.find i = pub.updates.find i) := by
    intro seq
    refine ⟨by rw [publish_version h]; omega, fun i hi => ?_⟩
    rw [publish_find h, if_neg hi]
  cases c with
  | capture r cursor typeFaults disposition raw =>
    simp only [Change.publishes, Change.first, if_true]
    split
    · obtain ⟨hv, hi⟩ := hnone none
      refine ⟨Nat.lt_of_lt_of_le hv (hone _ _), fun i hne => ?_, d.seq + 1, ?_, rfl⟩
      · rw [publish_find h, if_neg hne, hi i hne]
      · rw [publish_find h, if_pos rfl]
        rfl
    · obtain ⟨hv, hi⟩ := hnone (some (d.seq + 1))
      refine ⟨hv, hi, d.seq + 1, ?_, rfl⟩
      rw [publish_find h, if_pos rfl]
      rfl
  | park r reason cursor typeFaults raw =>
    obtain ⟨hv, hi⟩ := hnone (some (d.seq + 1))
    refine ⟨hv, hi, d.seq + 1, ?_, rfl⟩
    rw [Change.publishes, publish_find h, if_pos rfl]
    rfl
  | _ =>
    obtain ⟨hv, hi⟩ := hnone none
    exact ⟨hv, hi, _, (publish_find h none written.id).trans (if_pos rfl), rfl⟩

theorem announced_moved (h : Announced d pub) (hi : Indexed d) (hm : Moved d written d')
    (hfirst : (d.records.find written.id).isSome = !c.first) :
    Announced d' (c.publishes d written pub) := by
  have hothers : ∀ i u, i ≠ written.id → pub.updates.find i = some u → Announces d' i u := by
    intro i u hne hu
    obtain ⟨⟨r, hr, hb⟩, hc, hq⟩ := h i u hu
    exact ⟨⟨r, (hm.others i hne).trans hr, hb⟩, (hm.cursors i hne).trans hc, hq⟩
  by_cases hb : written.source = "browser"
  · obtain ⟨-, hne, q, hself, hq⟩ := @publishes_find d pub _ hb c
    intro i u hu
    by_cases he : i = written.id
    · subst he
      rw [hself] at hu
      cases hu
      refine ⟨⟨written, hm.self, hb⟩, ?_, Nat.le_max_left _ _⟩
      rw [cursorAt, hm.self]
      simp only [Option.map_some, Option.getD_some]
      rcases hm.index with ⟨hidx, hs⟩ | ⟨hidx, hnone, -⟩
      · -- A write on a record: its ordinal is past every one before.
        have hf : c.first = false := by rw [hs] at hfirst; simpa using hfirst.symm
        rw [hf] at hq
        simp only [Bool.false_eq_true, if_false] at hq
        have hstamp := hm.stamped hb hs
        obtain ⟨e, he, hid⟩ := List.mem_map.1 ((hi.there _).1 hs)
        have hseq := hi.seqs e he
        have hqle : q ≤ d.seq := by
          rw [hq]
          cases hp : pub.updates.find written.id with
          | none => simp
          | some u =>
            have hu := h _ u hp
            exact Nat.le_trans hu.seq (cursorAt_le hi hu.cursor)
        rw [hidx, find?_index hi he hid]
        simp only [Option.map_some, Option.some.injEq]
        omega
      · have hf : c.first = true := by rw [hnone] at hfirst; simpa using hfirst.symm
        rw [hf] at hq
        simp only [if_true] at hq
        rw [hidx, List.find?_append, List.find?_eq_none.2]
        · simp [hq]
        · intro e he
          have : written.id ∉ d.index.map (·.id) := by
            rw [← hi.there, hnone]
            simp
          simpa using fun hid => this (List.mem_map.2 ⟨e, he, hid⟩)
    · rw [hne i he] at hu
      exact hothers i u he hu
  · rw [publishes_other hb]
    intro i u hu
    by_cases he : i = written.id
    · subst he
      obtain ⟨⟨r, hr, hrb⟩, -, -⟩ := h _ u hu
      exact absurd ((hm.source r hr).symm.trans hrb) hb
    · exact hothers i u he hu

end published

/-! ## The rows of the projection -/

/-- The rows are of records, their cursors between the capture's and the record's. A row of a
conversation that was read once is behind only where its record was published since. -/
structure Shown (d : Disk) (pub : Published) (p : Projection) : Prop where
  bounds : ∀ i row, p.rows.find i = some row → ∃ e n, e ∈ d.index ∧ e.id = i ∧
    cursorAt d i = some n ∧ e.seq ≤ row.cursor ∧ row.cursor ≤ n
  exact : ∀ i row, p.rows.find i = some row → i.conversationId ∈ p.initialized →
    pub.updates.find i = none → cursorAt d i = some row.cursor
  synced : p.version = some pub.version → ∀ i u, pub.updates.find i = some u →
    ∃ row, p.rows.find i = some row ∧ row.cursor = u.cursor
  version : ∀ v, p.version = some v → v ≤ pub.version
  present : ∀ i r, d.records.find i = some r → r.source = "browser" →
    (p.rows.find i).isSome = true ∨ (pub.updates.find i).isSome = true

section rows
variable {d d' : Disk} {pub : Published} {p : Projection} {written : MessageRecord} {c : Change}
  {rows : Table Row.id} {row : Row}

theorem putRow_find (i : Identity) : (putRow rows row).find i =
    if i = row.id then some { row with
      seq := if row.seq = 0 then ((rows.find row.id).map (·.seq)).getD 0 else row.seq
      cursor := max row.cursor (((rows.find row.id).map (·.cursor)).getD 0) }
    else rows.find i := Table.find_put _ _ _

/-- Putting rows raises cursors, and takes no row away. -/
theorem foldl_putRow_le (l : List Row) : ∀ (rows : Table Row.id) (i : Identity) (row : Row),
    rows.find i = some row →
      ∃ row', (l.foldl putRow rows).find i = some row' ∧ row.cursor ≤ row'.cursor := by
  induction l with
  | nil => exact fun rows i row h => ⟨row, h, Nat.le_refl _⟩
  | cons u l ih =>
    intro rows i row h
    rw [List.foldl_cons]
    by_cases hi : i = u.id
    · subst hi
      obtain ⟨row', hrow', hle⟩ := ih (putRow rows u) u.id _ ((putRow_find u.id).trans (if_pos rfl))
      refine ⟨row', hrow', Nat.le_trans ?_ hle⟩
      rw [h]
      exact Nat.le_max_right _ _
    · exact ih (putRow rows u) i row ((putRow_find i).trans (if_neg hi) |>.trans h)

theorem foldl_putRow_mem (l : List Row) : ∀ (rows : Table Row.id) (u : Row), u ∈ l →
    ∃ row, (l.foldl putRow rows).find u.id = some row ∧ u.cursor ≤ row.cursor := by
  induction l with
  | nil => intro rows u h; cases h
  | cons x l ih =>
    intro rows u h
    rw [List.foldl_cons]
    rcases List.mem_cons.1 h with rfl | h
    · obtain ⟨row', hrow', hle⟩ :=
        foldl_putRow_le l (putRow rows u) u.id _ ((putRow_find u.id).trans (if_pos rfl))
      exact ⟨row', hrow', Nat.le_trans (Nat.le_max_left _ _) hle⟩
    · exact ih _ u h

/-- A row that nothing is put at stays. -/
theorem foldl_putRow_other (l : List Row) : ∀ (rows : Table Row.id) (i : Identity),
    (∀ u ∈ l, u.id ≠ i) → (l.foldl putRow rows).find i = rows.find i := by
  induction l with
  | nil => exact fun _ _ _ => rfl
  | cons x l ih =>
    intro rows i h
    rw [List.foldl_cons, ih _ _ fun u hu => h u (List.mem_cons_of_mem _ hu), putRow_find,
      if_neg (Ne.symm (h x List.mem_cons_self))]

/-- What holds of a row's record and cursor, and of the greater of two cursors, holds of all rows
that come of rows it holds of. -/
theorem foldl_putRow_all {P : Identity → Nat → Prop}
    (hmax : ∀ i a b, P i a → P i b → P i (max a b)) (l : List Row) :
    ∀ rows : Table Row.id, (∀ i row, rows.find i = some row → P i row.cursor) →
      (∀ u ∈ l, P u.id u.cursor) →
      ∀ i row, (l.foldl putRow rows).find i = some row → P i row.cursor := by
  induction l with
  | nil => exact fun rows h _ => h
  | cons x l ih =>
    intro rows h hl
    rw [List.foldl_cons]
    refine ih _ (fun i row hrow => ?_) fun u hu => hl u (List.mem_cons_of_mem _ hu)
    rw [putRow_find] at hrow
    split at hrow
    · rename_i hi
      cases hrow
      rw [hi]
      have hx := hl x List.mem_cons_self
      cases hprior : rows.find x.id with
      | none => simpa using hx
      | some prior => simpa using hmax _ _ _ hx (h _ prior hprior)
    · exact h i row hrow

/-- A cursor between the capture's and the record's. -/
def Between (d : Disk) (i : Identity) (cursor : Nat) : Prop :=
  ∃ e n, e ∈ d.index ∧ e.id = i ∧ cursorAt d i = some n ∧ e.seq ≤ cursor ∧ cursor ≤ n

theorem between_max (i : Identity) (a b : Nat) (ha : Between d i a) (hb : Between d i b) :
    Between d i (max a b) := by
  obtain ⟨e, n, he, hid, hc, hle, hn⟩ := ha
  obtain ⟨_, m, -, -, hc', -, hm⟩ := hb
  rw [hc] at hc'
  cases hc'
  exact ⟨e, n, he, hid, hc, by omega, by omega⟩

theorem between_self {i : Identity} {n : Nat} (hn : cursorAt d i = some n) :
    Between d i n := by
  have hn' := hn
  rw [cursorAt, Option.map_eq_some_iff] at hn'
  obtain ⟨e, he, hmax⟩ := hn'
  exact ⟨e, n, List.mem_of_find?_eq_some he, by simpa using List.find?_some he, hn, by omega,
    Nat.le_refl _⟩

theorem shown_build (h : Indexed d) (pub : Published) : Shown d pub (build d.index) where
  bounds := by
    refine foldl_putRow_all between_max _ Table.empty (fun i row hrow => by cases hrow) ?_
    intro u hu
    obtain ⟨e, he, rfl⟩ := List.mem_map.1 hu
    have hc : cursorAt d e.id =
        some (max e.seq (((d.records.find e.id).map eventSeq).getD 0)) := by
      rw [cursorAt, find?_index h he rfl]
      rfl
    exact ⟨e, _, he, rfl, hc, Nat.le_refl _, Nat.le_max_left _ _⟩
  exact _ _ _ hinit := by cases hinit
  synced hv := by cases hv
  version v hv := by cases hv
  present i r hr _ := by
    obtain ⟨e, he, hid⟩ := List.mem_map.1 ((h.there i).1 (by rw [hr]; rfl))
    obtain ⟨row, hrow, -⟩ := foldl_putRow_mem (d.index.map fun e => (⟨e.id, e.seq, e.seq⟩ : Row))
      Table.empty ⟨e.id, e.seq, e.seq⟩ (List.mem_map.2 ⟨e, he, rfl⟩)
    refine .inl ?_
    rw [← hid, build, hrow]
    rfl

theorem shown_refresh (h : Shown d pub p) (ha : Announced d pub) :
    Shown d pub (p.refresh pub) ∧ (p.refresh pub).version = some pub.version ∧
      (p.refresh pub).initialized = p.initialized := by
  unfold Projection.refresh
  split
  · rename_i hv
    exact ⟨h, hv, rfl⟩
  · refine ⟨⟨?_, ?_, ?_, ?_, ?_⟩, rfl, rfl⟩
    · refine foldl_putRow_all between_max _ p.rows h.bounds ?_
      intro u hu
      exact between_self (ha u.id u (Table.mem_find hu)).cursor
    · intro i row hrow hinit hnone
      rw [foldl_putRow_other] at hrow
      · exact h.exact i row hrow hinit hnone
      · rintro u hu rfl
        rw [Table.mem_find hu] at hnone
        cases hnone
    · intro _ i u hu
      have hid := Table.find_key hu
      subst hid
      obtain ⟨row, hrow, hle⟩ := foldl_putRow_mem pub.updates.rows p.rows u (Table.find_mem hu)
      obtain ⟨e, n, -, -, hn, -, hn'⟩ := foldl_putRow_all (between_max (d := d)) pub.updates.rows
        p.rows h.bounds (fun u hu => between_self (ha u.id u (Table.mem_find hu)).cursor) _ _ hrow
      rw [(ha u.id u hu).cursor] at hn
      cases hn
      exact ⟨row, hrow, Nat.le_antisymm hn' hle⟩
    · intro v hv
      cases hv
      exact Nat.le_refl _
    · intro i r hr hb
      rcases h.present i r hr hb with hs | hs
      · obtain ⟨row, hrow⟩ := Option.isSome_iff_exists.1 hs
        obtain ⟨row', hrow', -⟩ := foldl_putRow_le pub.updates.rows p.rows i row hrow
        exact .inl (by rw [hrow']; rfl)
      · exact .inr hs

/-- The row that is shown once its conversation is read. -/
theorem raised_exact (h : Between d row.id row.cursor) {conversationId : String} (hi : Indexed d)
    (hc : row.id.conversationId = conversationId) :
    cursorAt d row.id = some (raised conversationId d.records row).cursor := by
  obtain ⟨e, n, he, hid, hn, hle, hle'⟩ := h
  have hn' : n = max e.seq (((d.records.find row.id).map eventSeq).getD 0) := by
    rw [cursorAt, find?_index hi he hid] at hn
    simpa using hn.symm
  rw [hn, raised, if_pos hc]
  simp only [Option.some.injEq]
  omega

theorem shown_initializing (h : Shown d pub p) (hi : Indexed d) (ha : Announced d pub)
    (hv : p.version = some pub.version) (conversationId : String) :
    Shown d pub (p.initializing conversationId d.records) ∧
      ∀ i row, (p.initializing conversationId d.records).rows.find i = some row →
        i.conversationId = conversationId → cursorAt d i = some row.cursor := by
  -- A row of a conversation that was read before is that of what was published, or was right.
  have hold : ∀ i row, p.rows.find i = some row → i.conversationId ∈ p.initialized →
      cursorAt d i = some row.cursor := by
    intro i row hrow hinit
    cases hu : pub.updates.find i with
    | none => exact h.exact i row hrow hinit hu
    | some u =>
      obtain ⟨row', hrow', hcur⟩ := h.synced hv i u hu
      rw [hrow] at hrow'
      cases hrow'
      rw [hcur]
      exact (ha i u hu).cursor
  unfold Projection.initializing
  split
  · rename_i hin
    exact ⟨h, fun i row hrow hc => hold i row hrow (hc ▸ hin)⟩
  · have hfind : ∀ i row, (p.rows.mapRows (raised conversationId d.records)
        (raised_id conversationId d.records)).find i = some row →
        ∃ row₀, p.rows.find i = some row₀ ∧ row = raised conversationId d.records row₀ := by
      intro i row hrow
      rw [Table.find_mapRows, Option.map_eq_some_iff] at hrow
      obtain ⟨row₀, hrow₀, rfl⟩ := hrow
      exact ⟨row₀, hrow₀, rfl⟩
    have hnew : ∀ i row, (p.rows.mapRows (raised conversationId d.records)
        (raised_id conversationId d.records)).find i = some row → i.conversationId = conversationId →
        cursorAt d i = some row.cursor := by
      intro i row hrow hc
      obtain ⟨row₀, hrow₀, rfl⟩ := hfind i row hrow
      have hid := Table.find_key hrow₀
      subst hid
      exact raised_exact (h.bounds _ row₀ hrow₀) hi hc
    have hraised : ∀ row₀ : Row, row₀.id.conversationId ≠ conversationId →
        raised conversationId d.records row₀ = row₀ := fun row₀ hne => if_neg hne
    refine ⟨⟨?_, ?_, ?_, h.version, ?_⟩, hnew⟩
    · intro i row hrow
      by_cases hc : i.conversationId = conversationId
      · exact between_self (hnew i row hrow hc)
      · obtain ⟨row₀, hrow₀, rfl⟩ := hfind i row hrow
        have hid := Table.find_key hrow₀
        subst hid
        rw [hraised row₀ hc]
        exact h.bounds _ row₀ hrow₀
    · intro i row hrow hinit hnone
      by_cases hc : i.conversationId = conversationId
      · exact hnew i row hrow hc
      · obtain ⟨row₀, hrow₀, rfl⟩ := hfind i row hrow
        have hid := Table.find_key hrow₀
        subst hid
        rw [hraised row₀ hc]
        exact h.exact _ row₀ hrow₀ ((List.mem_cons.1 hinit).resolve_left hc) hnone
    · intro _ i u hu
      obtain ⟨row₀, hrow₀, hcur⟩ := h.synced hv i u hu
      refine ⟨raised conversationId d.records row₀, ?_, ?_⟩
      · rw [Table.find_mapRows, hrow₀]
        rfl
      · by_cases hc : i.conversationId = conversationId
        · have := hnew i (raised conversationId d.records row₀) (by
            rw [Table.find_mapRows, hrow₀]
            rfl) hc
          rw [(ha i u hu).cursor] at this
          exact (Option.some.inj this).symm
        · have hid := Table.find_key hrow₀
          subst hid
          rw [hraised row₀ hc]
          exact hcur
    · intro i r hr hb
      rcases h.present i r hr hb with hs | hs
      · refine .inl ?_
        rw [Table.find_mapRows]
        simpa using hs
      · exact .inr hs

theorem shown_moved (h : Shown d pub p) (hi : Indexed d) (hm : Moved d written d') :
    Shown d' (c.publishes d written pub) p := by
  have hver : pub.version ≤ (c.publishes d written pub).version := by
    by_cases hb : written.source = "browser"
    · exact Nat.le_of_lt (publishes_find hb c).1
    · exact Nat.le_of_eq (by rw [publishes_other hb])
  have hindex : ∀ e ∈ d.index, e ∈ d'.index := by
    intro e he
    rcases hm.index with ⟨hidx, _⟩ | ⟨hidx, _, _⟩
    · rw [hidx]
      exact he
    · rw [hidx]
      exact List.mem_append_left _ he
  refine ⟨?_, ?_, ?_, fun v hv => Nat.le_trans (h.version v hv) hver, ?_⟩
  · intro i row hrow
    obtain ⟨e, n, he, hid, hn, hle, hle'⟩ := h.bounds i row hrow
    by_cases hiw : i = written.id
    · subst hiw
      rcases hm.fresh with ⟨-, m, hmc, hlt, -⟩ | ⟨-, hkeep⟩
      · have := cursorAt_le hi hn
        exact ⟨e, m, hindex e he, hid, hmc, hle, by omega⟩
      · exact ⟨e, n, hindex e he, hid, hkeep.trans hn, hle, hle'⟩
    · exact ⟨e, n, hindex e he, hid, (hm.cursors i hiw).trans hn, hle, hle'⟩
  · intro i row hrow hinit hnone
    by_cases hb : written.source = "browser"
    · obtain ⟨-, hne, q, hself, -⟩ := @publishes_find d pub _ hb c
      by_cases hiw : i = written.id
      · rw [hiw, hself] at hnone
        cases hnone
      · rw [hm.cursors i hiw]
        exact h.exact i row hrow hinit ((hne i hiw).symm.trans hnone)
    · rw [publishes_other hb] at hnone
      by_cases hiw : i = written.id
      · subst hiw
        obtain ⟨e, _, he, hid, _⟩ := h.bounds _ row hrow
        have hs := (hi.there written.id).2 (List.mem_map.2 ⟨e, he, hid⟩)
        rcases hm.fresh with ⟨hor, -⟩ | ⟨-, hkeep⟩
        · rcases hor with hor | hor
          · exact absurd hor hb
          · rw [hor] at hs
            cases hs
        · rw [hkeep]
          exact h.exact _ row hrow hinit hnone
      · rw [hm.cursors i hiw]
        exact h.exact i row hrow hinit hnone
  · intro hv i u hu
    by_cases hb : written.source = "browser"
    · have hlt := (@publishes_find d pub _ hb c).1
      have := h.version _ hv
      omega
    · rw [publishes_other hb] at hv hu
      exact h.synced hv i u hu
  · intro i r hr hb
    by_cases hiw : i = written.id
    · subst hiw
      rw [hm.self] at hr
      cases hr
      obtain ⟨-, -, q, hself, -⟩ := @publishes_find d pub _ hb c
      exact .inr (by rw [hself]; rfl)
    · rw [hm.others i hiw] at hr
      refine (h.present i r hr hb).imp_right fun hs => ?_
      by_cases hw : written.source = "browser"
      · rw [(publishes_find (d := d) hw c).2.1 i hiw]
        exact hs
      · rw [publishes_other hw]
        exact hs

end rows

/-! ## The reader -/

/-- The records of the browser in a conversation, with their cursors. -/
def entries (d : Disk) (conversationId : String) : Feed.Entries Identity (Option MessageRecord) :=
  fun i => (d.records.find i).bind fun r =>
    if r.source = "browser" ∧ i.conversationId = conversationId then
      (cursorAt d i).map fun n => (n, some r)
    else none

structure Browsing.Inv (conversationId : String) (s : Browsing) : Prop where
  indexed : Indexed s.world.disk
  announced : Announced s.world.disk s.published
  shown : ∀ p, s.projection = some p → Shown s.world.disk s.published p
  after : s.after ≤ s.world.disk.seq
  caught : Feed.Caught (entries s.world.disk conversationId) s.after s.received

section reader
variable {L : Loop} {conversationId : String} {s s' : Browsing} {d d' : Disk} {i : Identity}
  {r written : MessageRecord} {n : Nat}

theorem entries_eq {v : Option MessageRecord} (h : entries d conversationId i = some (n, v)) :
    ∃ r, d.records.find i = some r ∧ r.source = "browser" ∧ i.conversationId = conversationId ∧
      cursorAt d i = some n ∧ v = some r := by
  obtain ⟨r, hr, h⟩ := Option.bind_eq_some_iff.1 h
  split at h
  · rename_i hc
    obtain ⟨m, hm, he⟩ := Option.map_eq_some_iff.1 h
    cases he
    exact ⟨r, hr, hc.1, hc.2, hm, rfl⟩
  · cases h

theorem entries_of (hi : Indexed d) (hr : d.records.find i = some r) (hb : r.source = "browser")
    (hc : i.conversationId = conversationId) :
    ∃ n, entries d conversationId i = some (n, some r) := by
  obtain ⟨e, he, hid⟩ := List.mem_map.1 ((hi.there i).1 (by rw [hr]; rfl))
  refine ⟨max e.seq (eventSeq r), ?_⟩
  rw [entries, hr, Option.bind_some, if_pos ⟨hb, hc⟩, cursorAt, find?_index hi he hid, hr]
  rfl

theorem initializing_version (p : Projection) (records : Table MessageRecord.id) :
    (p.initializing conversationId records).version = p.version := by
  unfold Projection.initializing
  split <;> rfl

/-- The projection a page is cut from has the cursors of the records. -/
theorem current_shown (h : s.Inv conversationId) :
    Shown s.world.disk s.published (s.current conversationId) ∧
      (s.current conversationId).version = some s.published.version ∧
      ∀ i row, (s.current conversationId).rows.find i = some row →
        i.conversationId = conversationId → cursorAt s.world.disk i = some row.cursor := by
  have hp : Shown s.world.disk s.published (s.projection.getD (build s.world.disk.index)) := by
    cases hp : s.projection with
    | none => exact shown_build h.indexed _
    | some p => exact h.shown p hp
  obtain ⟨hr, hv, -⟩ := shown_refresh hp h.announced
  obtain ⟨hi, hexact⟩ := shown_initializing hr h.indexed h.announced hv conversationId
  refine ⟨hi, ?_, hexact⟩
  rw [Browsing.current, initializing_version]
  exact hv

/-- The items a page is cut from: the rows of the conversation with their records. -/
def items (s : Browsing) (conversationId : String) :
    List (Feed.Item Identity (Option MessageRecord)) :=
  ((s.current conversationId).rows.rows.filter (·.id.conversationId = conversationId)).map
    fun row => ⟨row.id, row.cursor, s.world.disk.records.find row.id⟩

theorem page_eq (s : Browsing) (conversationId : String) (limit : Nat) :
    s.page conversationId limit = Feed.pageOf (items s conversationId) s.after limit := by
  rw [Browsing.page, Projection.matching, Feed.pageOf, items, List.filter_map, List.map_take,
    @sortBy_map _ (fun a b : Row => decide (a.cursor < b.cursor))]
  · rfl
  · exact fun _ _ => rfl

theorem mem_items (h : s.Inv conversationId)
    {x : Feed.Item Identity (Option MessageRecord)} (hx : x ∈ items s conversationId) :
    cursorAt s.world.disk x.key = some x.cursor ∧
      x.value = s.world.disk.records.find x.key := by
  obtain ⟨row, hrow, rfl⟩ := List.mem_map.1 hx
  obtain ⟨hmem, hc⟩ := List.mem_filter.1 hrow
  exact ⟨(current_shown h).2.2 row.id row (Table.mem_find hmem) (by simpa using hc), rfl⟩

theorem items_of (h : s.Inv conversationId) {v : Option MessageRecord}
    (hk : entries s.world.disk conversationId i = some (n, v)) :
    ⟨i, n, v⟩ ∈ items s conversationId := by
  obtain ⟨r, hr, hb, hc, hn, rfl⟩ := entries_eq hk
  obtain ⟨hshown, hversion, hexact⟩ := current_shown h
  have hsome : ((s.current conversationId).rows.find i).isSome = true := by
    rcases hshown.present i r hr hb with hs | hs
    · exact hs
    · obtain ⟨u, hu⟩ := Option.isSome_iff_exists.1 hs
      obtain ⟨row, hrow, -⟩ := hshown.synced hversion i u hu
      rw [hrow]
      rfl
  obtain ⟨row, hrow⟩ := Option.isSome_iff_exists.1 hsome
  have hid := Table.find_key hrow
  subst hid
  have hcur := hexact _ row hrow hc
  rw [hn] at hcur
  refine List.mem_map.2 ⟨row, List.mem_filter.2 ⟨Table.find_mem hrow, by simpa using hc⟩, ?_⟩
  rw [← Option.some.inj hcur, hr]

theorem isPage (h : s.Inv conversationId) {limit : Nat} (hl : 0 < limit) :
    Feed.IsPage (entries s.world.disk conversationId) s.after (s.page conversationId limit) := by
  rw [page_eq]
  refine Feed.isPage_pageOf hl (fun k c v hk => items_of h hk) fun x hx y hy he => ?_
  obtain ⟨hcx, hvx⟩ := mem_items h hx
  obtain ⟨hcy, hvy⟩ := mem_items h hy
  have hkey := h.indexed.distinct x.key y.key x.cursor hcx (he ▸ hcy)
  cases x
  cases y
  simp only at hkey he hvx hvy
  subst hkey he hvx hvy
  rfl

/-- A page keeps what is known of the reader. -/
theorem read_inv (h : s.Inv conversationId) {limit : Nat} (hl : 0 < limit) :
    (s.read conversationId limit).Inv conversationId where
  indexed := h.indexed
  announced := h.announced
  shown p hp := by
    cases hp
    exact (current_shown h).1
  after := by
    refine Feed.reached_le h.after fun x hx => ?_
    rw [page_eq] at hx
    exact cursorAt_le h.indexed (mem_items h (Feed.mem_pageOf hx).1).1
  caught := Feed.caught_page h.caught (isPage h hl)

theorem change_inv (h : s.Inv conversationId) {c : Change} {w : World}
    (hm : Moved s.world.disk written w.disk)
    (hfirst : (s.world.disk.records.find written.id).isSome = !c.first) :
    ({ s with
      world := w
      published := c.publishes s.world.disk written s.published } : Browsing).Inv
        conversationId where
  indexed := hm.indexed h.indexed
  announced := announced_moved h.announced h.indexed hm hfirst
  shown p hp := shown_moved (h.shown p hp) h.indexed hm
  after := Nat.le_trans h.after hm.seq
  caught := by
    refine Feed.caught_change h.caught fun i n v hk => ?_
    obtain ⟨r, hr, hb, hc, hn, rfl⟩ := entries_eq hk
    by_cases hiw : i = written.id
    · subst hiw
      rw [hm.self] at hr
      cases hr
      rcases hm.fresh with ⟨-, m, hmc, hlt, -⟩ | ⟨hne, -⟩
      · rw [hmc] at hn
        cases hn
        exact .inr (Nat.lt_of_le_of_lt h.after hlt)
      · exact absurd hb hne
    · rw [hm.others i hiw] at hr
      rw [hm.cursors i hiw] at hn
      refine .inl ?_
      rw [entries, hr, Option.bind_some, if_pos ⟨hb, hc⟩, hn]
      rfl

theorem untouched_inv (h : s.Inv conversationId) {w : World}
    (hu : Untouched s.world.disk w.disk) :
    ({ s with world := w } : Browsing).Inv conversationId := by
  obtain ⟨hi, hcur⟩ := untouched_indexed h.indexed hu
  refine ⟨hi, fun i u hu' => ?_, fun p hp => ?_, Nat.le_trans h.after hu.seq, ?_⟩
  · obtain ⟨hrec, hc, hq⟩ := h.announced i u hu'
    exact ⟨by rw [hu.records]; exact hrec, by rw [hcur]; exact hc, hq⟩
  · obtain ⟨hb, he, hs, hv, hpr⟩ := h.shown p hp
    exact ⟨by rw [hcur, hu.index]; exact hb, by rw [hcur]; exact he, hs, hv,
      by rw [hu.records]; exact hpr⟩
  · have : entries w.disk conversationId = entries s.world.disk conversationId := by
      funext i
      rw [entries, entries, hcur, hu.records]
    exact this ▸ h.caught

end reader

theorem browsing_inv (L : Loop) (conversationId : String) :
    (browsing L conversationId).Inductive (Browsing.Inv conversationId) where
  init s h := by
    obtain ⟨hrows, hindex, hpub, hp, hafter, -⟩ := h
    have hnone : ∀ i, s.world.disk.records.find i = none := fun i => by
      rw [Table.find_none, hrows]
      simp
    refine ⟨⟨?_, ?_, ?_, ?_, ?_⟩, ?_, ?_, ?_, ?_⟩
    · simp [hindex]
    · simp [hindex, hnone]
    · simp [hindex]
    · simp [hnone]
    · simp [cursorAt, hindex]
    · intro i u hu
      rw [hpub] at hu
      cases hu
    · simp [hp]
    · simp [hafter]
    · intro i n v hk
      obtain ⟨r, hr, -⟩ := entries_eq hk
      rw [hnone] at hr
      cases hr
  step s op s' h hst := by
    cases (show Step L conversationId s op s' from hst) with
    | changed c written w hfit hr =>
      obtain ⟨hm, hfirst⟩ := change_moved h.indexed hfit hr
      exact change_inv h hm hfirst
    | refused c e w hfit hr => exact untouched_inv h (change_refused hfit hr)
    | idle w hu => exact untouched_inv h hu
    | read limit hl => exact read_inv h hl
    | restart w hw =>
      have h := untouched_inv h (w := w) ⟨by rw [hw], by rw [hw], Nat.le_of_eq (by rw [hw])⟩
      exact ⟨h.indexed, (fun i u hu => by cases hu), (fun p hp => by cases hp), h.after, h.caught⟩

/-- A reader that keeps reading until a page is empty has received every record of the browser in
its conversation as it is, whatever happened between its pages and whatever their size. -/
theorem feed_complete (L : Loop) (conversationId : String) {s : Browsing}
    (hr : (browsing L conversationId).Reachable s) {limit : Nat} (hl : 0 < limit)
    (hempty : s.page conversationId limit = []) {r : MessageRecord}
    (hrec : s.world.disk.records.find r.id = some r) (hb : r.source = "browser")
    (hc : r.conversationId = conversationId) : (r.id, some r) ∈ s.received := by
  have h := (browsing_inv L conversationId).reachable s hr
  obtain ⟨n, hn⟩ := entries_of h.indexed hrec hb hc
  exact Feed.caught_all h.caught (hempty ▸ isPage h hl) hn

/-! ## A run -/

def browserChannel : Channel := { kind := "browser", account := "a" }

abbrev browserLoop : Loop := oneLoop browserChannel { channels := [browserChannel] }

/-- The capture of one message of the ticket. -/
def message : Change := .capture (inboundMessage browserChannel "m" "1") none [] none none

/-- A reader that has read the message captured just now, one record a page. -/
def readOnce (written : MessageRecord) (w : World) : Browsing :=
  ({ world := w, published := message.publishes ({} : World).disk written {} } : Browsing).read "c" 1

/-- The message is captured, and a page of one record is all there is to read. -/
def readInOne : Bool :=
  match Prog.finishWith (Given.answer {}) 0 (message.program browserLoop) {} with
  | some (.ok x, w) => ((readOnce x w).page "c" 1).isEmpty &&
    decide (w.disk.records.find x.id = some x ∧ x.source = "browser" ∧ x.conversationId = "c")
  | _ => false

theorem feed_complete_once : ∃ s r, (browsing browserLoop "c").Reachable s ∧ s.page "c" 1 = [] ∧
    r ∈ s.world.disk.records.rows ∧ (r.id, some r) ∈ s.received := by
  have hrun : readInOne = true := by decide +kernel
  unfold readInOne at hrun
  split at hrun
  · rename_i x w hw
    simp only [Bool.and_eq_true, List.isEmpty_iff, decide_eq_true_eq] at hrun
    obtain ⟨hempty, hrec, hb, hc⟩ := hrun
    have hfit : message.fits ({} : World).disk := ⟨rfl, rfl⟩
    have hr : (browsing browserLoop "c").Reachable (readOnce x w) :=
      ⟨{ world := {} }, [.change message, .read 1], ⟨rfl, rfl, rfl, rfl, rfl, rfl⟩,
        .cons (.changed _ message x w hfit (Prog.finishWith_runs _ hw))
          (.cons (.read _ 1 (by decide)) (.nil _))⟩
    exact ⟨_, x, hr, hempty, Table.find_mem hrec,
      feed_complete browserLoop "c" hr (by decide) hempty hrec hb hc⟩
  · cases hrun

end CarbonRuntime.BrowserProjection
