import CarbonRuntime.Core.Task
import CarbonRuntime.Runtime.Pass
import CarbonRuntime.Stream.Stored

/-!
# What an adapter is to the loop

Three of an adapter's operations meet at a capture (runtime/loop.ts:1174-1213): `listPending`
says which of the items the poll handed over are not read yet, `payload` turns them into
records, and `consume` moves the cursors after the records are on disk. They read the store
and ask nothing outside, so each is a function of the disk; `consume` answers the cursors it
advances, in order.

`captureItems` is the loop's capture as a program, `Adapter.capture` what it comes to as a
function of the disk, and `captureItems_runs` that every run is that.
-/

open CarbonRuntime.Core CarbonRuntime.Stream

namespace CarbonRuntime.Adapters

open Store Pass

structure Payload where
  entries : List Candidate := []
  /-- Each with why it was parked. -/
  parked : List (Candidate × String) := []

/-- The contract; the numbers are the readings of the clock the context carries. -/
structure Adapter (Item : Type) where
  listPending : Disk → Int → List Item → Except Err (List Item)
  payload : Disk → Int → List Item → Except Err Payload
  consume : Disk → Item → List (String × CursorKind × String)

variable {Item : Type} (L : Loop) (A : Adapter Item)

/-! ## The loop's capture -/

def parkEntry (c : Candidate × String) : Program L Unit :=
  Turn.discard L (park L c.1.record c.2 c.1.cursor c.1.typeFaults c.1.raw)

/-- The records of a batch are written, loop.ts:1187-1205. -/
def putItems (batch : Payload) : Program L Unit :=
  (Prog.each (𝔖 := sig L) (captureEntry L) batch.entries).bind fun _ =>
    Prog.each (𝔖 := sig L) (parkEntry L) batch.parked

def consumeItem (x : Item) : Program L Unit := do
  let w ← fetch L
  Prog.each (𝔖 := sig L) (fun (conversationId, kind, position) =>
    advanceCursor L conversationId kind position) (A.consume w.disk x)

/-- mirrors loop.ts:1174-1213 -/
def captureItems (items : List Item) : Program L Unit := do
  let listed ← now L
  let w ← fetch L
  let pending ← Calls.orThrow L (A.listPending w.disk listed items)
  if pending.isEmpty then pure ()
  else do
    let at_ ← now L
    let w ← fetch L
    let batch ← Calls.orThrow L (A.payload w.disk at_ pending)
    Prog.each (𝔖 := sig L) (captureEntry L) batch.entries
    Prog.each (𝔖 := sig L) (parkEntry L) batch.parked
    Prog.each (𝔖 := sig L) (consumeItem L A) pending

/-! ## What it comes to -/

variable (J : Js)

def entry (c : Candidate) : Task Disk Err Unit := fun d =>
  if c.bytes = true ∧ pathFaults J c.record.id ≠ [] then
    (.error (.stream (pathFaults J c.record.id)), d)
  else (.ok (), (captured J c.record c.cursor c.typeFaults c.raw d).2)

/-- The record that is parked, store.ts:333-340. -/
def parkedRecord (r : MessageRecord) (reason : String) : MessageRecord :=
  { r with
    disposition := .parked
    adapterFields := { r.adapterFields with parkReason := some reason } }

def parking (c : Candidate × String) : Task Disk Err Unit := fun d =>
  match captured J (parkedRecord c.1.record c.2) c.1.cursor c.1.typeFaults c.1.raw d with
  | (.ok _, d') => (.ok (), d')
  | (.error faults, d') => (.error (.stream faults), d')

def advancing (c : String × CursorKind × String) : Task Disk Err Unit := fun d =>
  if componentFaults J "conversation_id" c.1 = [] then (.ok (), d.advance c.1 c.2.1 c.2.2)
  else (.error (.stream (componentFaults J "conversation_id" c.1)), d)

def Adapter.consuming (x : Item) : Task Disk Err Unit := fun d =>
  Task.each (advancing J) (A.consume d x) d

/-- The writes of a batch, and the cursors after them. -/
def Adapter.take (batch : Payload) (pending : List Item) : Task Disk Err Unit :=
  (Task.each (entry J) batch.entries).bind fun _ =>
    (Task.each (parking J) batch.parked).bind fun _ => Task.each (A.consuming J) pending

/-- The capture of `items`, at two readings of the clock. -/
def Adapter.capture (listed at_ : Int) (items : List Item) : Task Disk Err Unit := fun d =>
  match A.listPending d listed items with
  | .error e => (.error e, d)
  | .ok pending =>
    if pending.isEmpty then (.ok (), d)
    else
      match A.payload d at_ pending with
      | .error e => (.error e, d)
      | .ok batch => A.take J batch pending d

/-- The records of a batch are written. -/
def putting (batch : Payload) : Task Disk Err Unit :=
  (Task.each (entry J) batch.entries).bind fun _ => Task.each (parking J) batch.parked

/-- The disk a death leaves between the capture of a batch and its end: the records are written
and the first `n` items are consumed. -/
def Adapter.captureTo (n : Nat) (listed at_ : Int) (items : List Item) (d : Disk) : Disk :=
  match A.listPending d listed items with
  | .error _ => d
  | .ok pending =>
    if pending.isEmpty then d
    else
      match A.payload d at_ pending with
      | .error _ => d
      | .ok batch =>
        ((putting J batch).bind (fun _ => Task.each (A.consuming J) (pending.take n)) d).2

/-- One poll after another, each with the readings of the clock at its capture; a capture that
raises ends there, and the process that is started after it goes on with the next poll. -/
def Adapter.polls : List (Int × Int × List Item) → Disk → Disk
  | [], d => d
  | (listed, at_, items) :: more, d => Adapter.polls more (A.capture J listed at_ items d).2

/-! ## What it leaves on disk -/

section Kept
variable {A} {J} {K : Disk → Prop} {batch : Payload} {pending : List Item} {d : Disk}

theorem consuming_keeps {x : Item} (hK : K d)
    (hadv : ∀ c ∈ A.consume d x, ∀ d', K d' → K (d'.advance c.1 c.2.1 c.2.2)) :
    K (A.consuming J x d).2 := by
  refine Task.each_keeps (fun c hc d' h => ?_) d hK
  unfold advancing
  split
  · exact hadv c hc d' h
  · exact h

/-- What the writes of a batch and every cursor keep, its capture keeps. -/
theorem take_keeps (hentries : ∀ c ∈ batch.entries, ∀ d, K d → K (entry J c d).2)
    (hparked : ∀ c ∈ batch.parked, ∀ d, K d → K (parking J c d).2)
    (hadvance : ∀ (c : String × CursorKind × String) d, K d → K (d.advance c.1 c.2.1 c.2.2)) (h : K d) :
    K (A.take J batch pending d).2 := by
  have hconsume : ∀ x d, K d → K (A.consuming J x d).2 :=
    fun x d hd => consuming_keeps hd fun c _ d' h' => hadvance c d' h'
  exact Task.bind_keeps (Task.each_keeps hentries d h) fun _ d₁ h₁ =>
    Task.bind_keeps (Task.each_keeps hparked d₁ h₁) fun _ d₂ h₂ =>
      Task.each_keeps (fun x _ d hd => hconsume x d hd) d₂ h₂

theorem capture_keeps {listed at_ : Int} {items : List Item} (h : K d)
    (htake : ∀ pending batch, A.listPending d listed items = .ok pending →
      A.payload d at_ pending = .ok batch → K (A.take J batch pending d).2) :
    K (A.capture J listed at_ items d).2 := by
  unfold Adapter.capture
  split
  · exact h
  · rename_i pending hp
    split
    · exact h
    · split
      · exact h
      · rename_i batch hb
        exact htake pending batch hp hb

theorem entry_records (c : Candidate) (d : Disk) : (entry J c d).2.records = d.records ∨
    (entry J c d).2.records = stored d.records c.record := by
  unfold entry
  split
  · exact .inl rfl
  · rw [captured_records]
    split
    · exact .inr rfl
    · exact .inl rfl

theorem entry_raws (c : Candidate) (d : Disk) :
    ∃ more, (entry J c d).2.raws = d.raws ++ more := by
  unfold entry
  split
  · exact ⟨[], by simp⟩
  · exact captured_raws _ _ _

theorem parking_disk (c : Candidate × String) (d : Disk) : (parking J c d).2 =
    (captured J (parkedRecord c.1.record c.2) c.1.cursor c.1.typeFaults c.1.raw d).2 := by
  unfold parking
  split <;> rename_i h <;> rw [h]

/-- Entries the store takes are written, each as `stored` says. -/
theorem entries_stored : ∀ {cs : List Candidate} {d : Disk},
    (∀ c ∈ cs, captureFaults J c.record c.typeFaults = []) →
    (Task.each (entry J) cs d).1 = .ok () ∧
      (Task.each (entry J) cs d).2.records = (cs.map (·.record)).foldl stored d.records
  | [], _, _ => ⟨rfl, rfl⟩
  | c :: cs, d, h => by
    have hc := h c List.mem_cons_self
    have hentry : entry J c d =
        (.ok (), (captured J c.record c.cursor c.typeFaults c.raw d).2) := by
      rw [entry, if_neg fun hf => hf.2 (paths_of_captureFaults hc)]
    rw [Task.each_cons, Task.bind_of_ok hentry]
    have ih := entries_stored (d := (captured J c.record c.cursor c.typeFaults c.raw d).2)
      fun c' hc' => h c' (List.mem_cons_of_mem _ hc')
    rw [captured_records, if_pos hc] at ih
    exact ih

/-- A record the store takes is parked, unless another adapter's is at its path. -/
theorem parking_taken {c : Candidate × String}
    (h : captureFaults J (parkedRecord c.1.record c.2) c.1.typeFaults = [])
    (hs : ∀ old, d.records.find c.1.record.id = some old → old.source = c.1.record.source) :
    (parking J c d).1 = .ok () ∧
      (parking J c d).2.records = stored d.records (parkedRecord c.1.record c.2) := by
  have hrecords := captured_records (J := J) (r := parkedRecord c.1.record c.2) (d := d)
    c.1.cursor c.1.typeFaults c.1.raw
  rw [if_pos h] at hrecords
  rw [parking_disk]
  refine ⟨?_, hrecords⟩
  have hok : ∃ x, (captured J (parkedRecord c.1.record c.2) c.1.cursor c.1.typeFaults c.1.raw d).1 =
      .ok x := by
    rw [captured, if_pos h]
    dsimp only [written, Disk.appendRaw]
    cases hold : d.records.find (parkedRecord c.1.record c.2).id with
    | none => exact ⟨_, rfl⟩
    | some old =>
      have hsame : old.source = (parkedRecord c.1.record c.2).source := hs old hold
      dsimp only
      rw [if_neg (by simp [hsame])]
      split <;> exact ⟨_, rfl⟩
  obtain ⟨x, hx⟩ := hok
  unfold parking
  split
  · rfl
  · rename_i heq
    rw [heq] at hx
    cases hx

theorem parked_stored {source : String} : ∀ {cs : List (Candidate × String)} {d : Disk},
    (∀ c ∈ cs, captureFaults J (parkedRecord c.1.record c.2) c.1.typeFaults = [] ∧
      c.1.record.source = source) →
    (∀ i x, d.records.find i = some x → x.source = source) →
    (Task.each (parking J) cs d).1 = .ok () ∧ (Task.each (parking J) cs d).2.records =
      (cs.map fun c => parkedRecord c.1.record c.2).foldl stored d.records
  | [], _, _, _ => ⟨rfl, rfl⟩
  | c :: cs, d, h, hs => by
    obtain ⟨hc, hsource⟩ := h c List.mem_cons_self
    obtain ⟨hok, hrecords⟩ := parking_taken hc fun old hold => (hs _ old hold).trans hsource.symm
    have hparking : parking J c d = (.ok (), (parking J c d).2) := by rw [← hok]
    have hrows : ∀ i x, (parking J c d).2.records.find i = some x → x.source = source := by
      rw [hrecords]
      have := storedAll_rows (l := [parkedRecord c.1.record c.2]) (P := fun r => r.source = source)
        (fun x y hx hg => by rw [hg.eq]; exact hx) (by simpa [parkedRecord] using hsource) hs
      exact this
    rw [Task.each_cons, Task.bind_of_ok hparking]
    have ih := parked_stored (fun c' hc' => h c' (List.mem_cons_of_mem _ hc')) hrows
    rw [hrecords] at ih
    exact ih

/-- Consuming moves cursors only. -/
theorem consuming_records (l : List Item) (d : Disk) :
    (Task.each (A.consuming J) l d).2.records = d.records := by
  refine Task.each_keeps (K := fun d' => d'.records = d.records) (fun x _ d' h => ?_) d rfl
  exact consuming_keeps (K := fun d' => d'.records = d.records) h
    fun c _ d'' h' => (advance_records _ _ _ _).trans h'

end Kept

/-! ## The program comes to that -/

section Computes
variable {L : Loop} {A : Adapter Item} {s : World}
  {I : Table MessageRecord.id → Table Cursors.conversationId → Prop}

theorem computes_captureEntry (c : Candidate) (hI : I s.disk.records s.disk.cursors)
    (hrec : I (entry L.js c s.disk).2.records s.disk.cursors)
    (hcur : I (entry L.js c s.disk).2.records (entry L.js c s.disk).2.cursors) :
    Computes (tracking L I) World.disk (captureEntry L c) (entry L.js c) s := by
  have hcapture : ∀ k : Err → Program L Unit, (∀ faults, k (.stream faults) = pure ()) →
      ¬ (c.bytes = true ∧ pathFaults L.js c.record.id ≠ []) →
      Computes (tracking L I) World.disk
        (Prog.handle (𝔖 := sig L)
          (Turn.discard L (capture L c.record c.cursor c.typeFaults none c.raw)) k)
        (entry L.js c) s := by
    intro k hk hb
    have he : entry L.js c s.disk =
        (.ok (), (captured L.js c.record c.cursor c.typeFaults c.raw s.disk).2) := by
      rw [entry, if_neg hb]
    rw [he] at hrec hcur
    simp only [Computes, he, Prog.wp_handle, Turn.discard, Prog.wp_bind']
    refine Prog.wp_mono _ (wp_capture c.record c.cursor c.typeFaults c.raw hI fun _ => ⟨hrec, hcur⟩)
      (fun x s' hx => (Prog.wp_pure _).2 (by rw [hx])) ?_
    rintro e s' ⟨faults, rfl, hx⟩
    rw [hk]
    exact (Prog.wp_pure _).2 (by rw [hx])
  simp only [captureEntry, putAttachments]
  split
  · rename_i hbytes
    simp only [Computes, Prog.wp_bind, wp_refuse]
    refine ⟨fun hp => hcapture _ (fun _ => rfl) fun h => h.2 hp, fun hp => ?_⟩
    rw [entry, if_pos ⟨hbytes, hp⟩]
  · rename_i hbytes
    simp only [Computes, Prog.wp_bind, Prog.wp_pure]
    exact hcapture _ (fun _ => rfl) fun h => hbytes h.1

theorem computes_parkEntry (c : Candidate × String) (hI : I s.disk.records s.disk.cursors)
    (hrec : I (parking L.js c s.disk).2.records s.disk.cursors)
    (hcur : I (parking L.js c s.disk).2.records (parking L.js c s.disk).2.cursors) :
    Computes (tracking L I) World.disk (parkEntry L c) (parking L.js c) s := by
  rw [parking_disk] at hrec hcur
  simp only [Computes, parkEntry, Turn.discard, Prog.wp_bind']
  refine Prog.wp_mono _ (wp_capture (parkedRecord c.1.record c.2) c.1.cursor c.1.typeFaults c.1.raw hI
    fun _ => ⟨hrec, hcur⟩) (fun x s' hx => (Prog.wp_pure _).2 ?_) ?_
  · rw [parking, hx]
  · rintro e s' ⟨faults, rfl, hx⟩
    rw [parking, hx]

theorem computes_advance (c : String × CursorKind × String)
    (hI : I s.disk.records (s.disk.advance c.1 c.2.1 c.2.2).cursors) :
    Computes (tracking L I) World.disk (advanceCursor L c.1 c.2.1 c.2.2) (advancing L.js c) s := by
  refine wp_advanceCursor c.1 c.2.1 c.2.2 (fun _ => hI) (fun hc s' h => ?_) fun hc => ?_
  · rw [advancing, if_pos hc, h]
  · rw [advancing, if_neg hc]

theorem advancing_ok {c : String × CursorKind × String} {d d' : Disk}
    (h : advancing J c d = (.ok (), d')) : d' = d.advance c.1 c.2.1 c.2.2 := by
  unfold advancing at h
  split at h
  · cases h
    rfl
  · cases h

/-- `K` is kept by the cursors an item advances. -/
theorem computes_consumeItem {K : Disk → Prop} (x : Item) (hK : K s.disk)
    (hKI : ∀ d, K d → I d.records d.cursors)
    (hadv : ∀ c ∈ A.consume s.disk x, ∀ d, K d → K (d.advance c.1 c.2.1 c.2.2)) :
    Computes (tracking L I) World.disk (consumeItem L A x) (A.consuming L.js x) s := by
  have hstep : ∀ c ∈ A.consume s.disk x, ∀ s₁ : World, K s₁.disk →
      Computes (tracking L I) World.disk (advanceCursor L c.1 c.2.1 c.2.2) (advancing L.js c) s₁ := by
    intro c hc s₁ h₁
    refine computes_advance c ?_
    have := hKI _ (hadv c hc s₁.disk h₁)
    rwa [advance_records] at this
  have := Computes.each (𝔖 := sig L) (π := World.disk) (K := K) (g := advancing L.js) hstep
    (fun c hc d d' h he => advancing_ok L.js he ▸ hadv c hc d h) s hK
  simpa only [Computes, consumeItem, Prog.wp_bind, wp_fetch, Adapter.consuming] using this

/-- What is said between the writes of a batch: `K` until its records are written, `K'` while
the cursors are advanced. -/
structure Tracks (A : Adapter Item) (J : Js)
    (I : Table MessageRecord.id → Table Cursors.conversationId → Prop) (K K' : Disk → Prop)
    (batch : Payload) (pending : List Item) : Prop where
  writing : ∀ d, K d → I d.records d.cursors
  moving : ∀ d, K' d → I d.records d.cursors
  entries : ∀ c ∈ batch.entries, ∀ d, K d →
    K (entry J c d).2 ∧ I (entry J c d).2.records d.cursors
  parked : ∀ c ∈ batch.parked, ∀ d, K d →
    K (parking J c d).2 ∧ I (parking J c d).2.records d.cursors
  consume : ∀ x ∈ pending, ∀ d, K' d → ∀ c ∈ A.consume d x, ∀ d₁, K' d₁ →
    K' (d₁.advance c.1 c.2.1 c.2.2)

section take
variable {K K' : Disk → Prop} {batch : Payload} {pending : List Item}
  (h : Tracks A L.js I K K' batch pending)
include h

theorem computes_entries (hK : K s.disk) : Computes (tracking L I) World.disk
    (Prog.each (𝔖 := sig L) (captureEntry L) batch.entries)
    (Task.each (entry L.js) batch.entries) s := by
  refine Computes.each (𝔖 := sig L) (π := World.disk) (K := K) (fun c hc s₁ h₁ => ?_)
    (fun c hc d d' hd he => ?_) s hK
  · obtain ⟨hk, hi⟩ := h.entries c hc s₁.disk h₁
    exact computes_captureEntry c (h.writing _ h₁) hi (h.writing _ hk)
  · have := (h.entries c hc d hd).1
    rwa [he] at this

theorem computes_parked (hK : K s.disk) : Computes (tracking L I) World.disk
    (Prog.each (𝔖 := sig L) (parkEntry L) batch.parked) (Task.each (parking L.js) batch.parked)
    s := by
  refine Computes.each (𝔖 := sig L) (π := World.disk) (K := K) (fun c hc s₁ h₁ => ?_)
    (fun c hc d d' hd he => ?_) s hK
  · obtain ⟨hk, hi⟩ := h.parked c hc s₁.disk h₁
    exact computes_parkEntry c (h.writing _ h₁) hi (h.writing _ hk)
  · have := (h.parked c hc d hd).1
    rwa [he] at this

theorem entries_keeps {d d' : Disk} (hK : K d)
    (he : Task.each (entry L.js) batch.entries d = (.ok (), d')) : K d' := by
  have := Task.each_keeps (fun c hc d hd => (h.entries c hc d hd).1) d hK
  rwa [he] at this

theorem computes_putItems (hK : K s.disk) :
    Computes (tracking L I) World.disk (putItems L batch) (putting L.js batch) s :=
  (computes_entries h hK).bind fun _ _ h₁ => computes_parked h (entries_keeps h hK h₁)

theorem computes_take (hK : K s.disk)
    (hput : ∀ d, putting L.js batch s.disk = (.ok (), d) → K' d) :
    Computes (tracking L I) World.disk
      ((Prog.each (𝔖 := sig L) (captureEntry L) batch.entries).bind fun _ =>
        (Prog.each (𝔖 := sig L) (parkEntry L) batch.parked).bind fun _ =>
          Prog.each (𝔖 := sig L) (consumeItem L A) pending)
      (A.take L.js batch pending) s := by
  refine (computes_entries h hK).bind fun _ s₁ h₁ => ?_
  refine (computes_parked h (entries_keeps h hK h₁)).bind fun _ s₂ h₂ => ?_
  have hs₂ : K' s₂.disk := hput _ (by rw [putting, Task.bind_of_ok h₁, h₂])
  refine Computes.each (𝔖 := sig L) (π := World.disk) (K := K') (fun x hx s₃ h₃ => ?_)
    (fun x hx d d' hd he => ?_) s₂ hs₂
  · exact computes_consumeItem x h₃ h.moving fun c hc => h.consume x hx s₃.disk h₃ c hc
  · have := consuming_keeps (J := L.js) hd fun c hc => h.consume x hx d hd c hc
    rwa [he] at this

end take

theorem wp_now {Q : Int → World → Prop} {X : Err → World → Prop}
    (h : ∀ t s', s'.disk = s.disk → Q t s') : Prog.wp (tracking L I) (now L) Q X s := by
  refine (wp_ask Ask.now).2 fun s₁ hr t _ _ => ?_
  cases (show s₁ = s from hr)
  exact h t _ rfl

/-- What is tracked through the capture of `items`, whatever the clock says. -/
def Tracked (A : Adapter Item) (J : Js)
    (I : Table MessageRecord.id → Table Cursors.conversationId → Prop) (d : Disk)
    (items : List Item) : Prop :=
  I d.records d.cursors ∧ ∀ listed at_ pending batch, A.listPending d listed items = .ok pending →
    A.payload d at_ pending = .ok batch → ∃ K K', Tracks A J I K K' batch pending ∧ K d ∧
      ∀ d', putting J batch d = (.ok (), d') → K' d'

theorem wp_captureItems {items : List Item} (h : Tracked A L.js I s.disk items) :
    Prog.wp (tracking L I) (captureItems L A items)
      (fun _ s' => ∃ listed at_, A.capture L.js listed at_ items s.disk = (.ok (), s'.disk))
      (fun e s' => ∃ listed at_, A.capture L.js listed at_ items s.disk = (.error e, s'.disk)) s := by
  simp only [captureItems, Prog.wp_bind]
  refine wp_now fun listed s₁ h₁ => ?_
  simp only [wp_fetch, h₁]
  cases hp : A.listPending s.disk listed items with
  | error e => exact (wp_raise e).2 ⟨listed, 0, by rw [Adapter.capture, hp, h₁]⟩
  | ok pending =>
    simp only [Calls.orThrow, Prog.wp_pure]
    by_cases he : pending.isEmpty = true
    · simp only [he, if_true, Prog.wp_pure]
      exact ⟨listed, 0, by rw [Adapter.capture, hp, h₁]; simp only [he, if_true]⟩
    · simp only [he, if_false, Prog.wp_bind, Bool.false_eq_true]
      refine wp_now fun at_ s₂ h₂ => ?_
      have h₂ : s₂.disk = s.disk := h₂.trans h₁
      simp only [wp_fetch, h₂]
      cases hb : A.payload s.disk at_ pending with
      | error e =>
        refine (wp_raise e).2 ⟨listed, at_, ?_⟩
        rw [Adapter.capture, hp, h₂]
        simp only [he, if_false, Bool.false_eq_true, hb]
      | ok batch =>
        obtain ⟨K, K', ht, hK, hput⟩ := h.2 listed at_ pending batch hp hb
        have hcap : A.capture L.js listed at_ items s.disk = A.take L.js batch pending s.disk := by
          rw [Adapter.capture, hp]
          simp only [he, if_false, Bool.false_eq_true, hb]
        simp only [Prog.wp_pure]
        have := computes_take ht (h₂.symm ▸ hK) (h₂.symm ▸ hput)
        simp only [Computes, Prog.wp_bind', h₂] at this
        refine Prog.wp_mono _ this (fun _ s₃ h₃ => ?_) fun e s₃ h₃ => ⟨listed, at_, hcap.trans h₃⟩
        refine Prog.wp_mono _ h₃ (fun _ s₄ h₄ => ?_) fun e s₄ h₄ => ⟨listed, at_, hcap.trans h₄⟩
        exact Prog.wp_mono _ h₄ (fun _ s₅ h₅ => ⟨listed, at_, hcap.trans h₅⟩)
          fun e s₅ h₅ => ⟨listed, at_, hcap.trans h₅⟩

theorem tracked_true (A : Adapter Item) (J : Js) (d : Disk) (items : List Item) :
    Tracked A J (fun _ _ => True) d items :=
  ⟨trivial, fun _ _ _ _ _ _ => ⟨fun _ => True, fun _ => True,
    ⟨fun _ _ => trivial, fun _ _ => trivial, fun _ _ _ _ => ⟨trivial, trivial⟩,
      fun _ _ _ _ => ⟨trivial, trivial⟩, fun _ _ _ _ _ _ _ _ => trivial⟩, trivial,
    fun _ _ => trivial⟩⟩

/-- Every run of the loop's capture is what `Adapter.capture` says, at some readings of the
clock. -/
theorem captureItems_runs {items : List Item} {r : Prog.Result (sig L) Unit} {s' : World}
    (h : Prog.Runs (captureItems L A items) s r s') :
    ∃ listed at_, A.capture L.js listed at_ items s.disk =
      (match r with
        | .ok a => .ok a
        | .error e => .error e, s'.disk) := by
  have := plain_runs h (tracking_true ▸ wp_captureItems (tracked_true A L.js s.disk items))
  cases r <;> exact this

/-- What is tracked holds wherever a death cuts the capture short. -/
theorem captureItems_steps {items : List Item} {p : Program L Unit} {s' : World}
    (ht : Tracked A L.js I s.disk items)
    (h : Prog.Steps (captureItems L A items, s) (p, s')) : I s'.disk.records s'.disk.cursors :=
  (Prog.wp_steps (P := tracking L I) (fun _ _ _ hv => hv.1) h ht.1 (wp_captureItems ht)).1

end Computes

end CarbonRuntime.Adapters
