import CarbonRuntime.Adapters.Contract
import CarbonRuntime.Core.Numbering

/-!
# Adapters that number edits

Two adapters number an edit after the records of its message on disk and, within a batch, after
the number a map holds under the platform's message id. An `Editor` is such an adapter with what
it reads of an item; `Run` is any sequence of polls on an empty store, each handed any items, in
which no poll comes upon one of the places where edits get mixed up (`Unmixed`). Along every such
run each edit is captured once, as the next revision of its own message (`run_kept`).
-/

open CarbonRuntime.Core CarbonRuntime.Stream

namespace CarbonRuntime.Adapters

open Store Numbering

/-! ## Editors -/

/-- What is read of an item. -/
structure Edits (Item ε : Type) where
  /-- It has a conversation. -/
  named : Item → Bool
  conversation : Item → String
  platform : Item → String
  messageId : Item → String
  edited : Item → Bool
  /-- Which edit it is. -/
  edit : Item → ε
  body : Item → String

def Edits.scheme {Item ε : Type} (R : Edits Item ε) : Scheme Item String (String × String) where
  slot := R.platform
  key x := (R.conversation x, R.platform x)
  edited := R.edited
  slot_of_key _ _ h := (Prod.ext_iff.1 h).2

/-- Where the record of an item goes, as the revision it is numbered. -/
def Edits.identity {Item ε : Type} (R : Edits Item ε) (a : Item × Nat) : Identity :=
  ⟨R.conversation a.1, R.messageId a.1, a.2⟩

/-- The record that is written of a candidate. -/
def filed (w : Candidate × Option String) : MessageRecord :=
  match w.2 with
  | none => w.1.record
  | some reason => parkedRecord w.1.record reason

def payloadOf (all : List (Candidate × Option String)) : Payload :=
  { entries := (all.filter (·.2.isNone)).map (·.1)
    parked := all.filterMap fun w => w.2.map (w.1, ·) }

structure Editor (Item ε : Type) (J : Js) extends Edits Item ε where
  adapter : Adapter Item
  source : String
  /-- What is left out of the payload. -/
  skips : Disk → Item → Bool
  count : Disk → Item → Nat
  write : Int → Item → Nat → Candidate × Option String
  listed_mem : ∀ d now items pending, adapter.listPending d now items = .ok pending →
    ∀ x ∈ pending, x ∈ items
  payload_eq : ∀ d at_ items, (∀ x ∈ items, named x = true) → adapter.payload d at_ items =
    .ok (payloadOf ((number toEdits.scheme (count d) []
      (items.filter fun x => !skips d x)).map fun a => write at_ a.1 a.2))
  write_id : ∀ at_ x n, named x = true →
    (write at_ x n).1.record.id = ⟨conversation x, messageId x, n⟩
  write_platform : ∀ at_ x n, named x = true →
    (write at_ x n).1.record.platformMessageId = platform x
  write_body : ∀ at_ x n, named x = true → (write at_ x n).1.record.body = body x
  write_source : ∀ at_ x n, (write at_ x n).1.record.source = source
  write_types : ∀ at_ x n, (write at_ x n).1.typeFaults = []
  messageId_iff : ∀ x y, named x = true → named y = true → conversation x = conversation y →
    (messageId x = messageId y ↔ platform x = platform y)
  count_eq : ∀ d x, named x = true → componentFaults J "conversation_id" (conversation x) = [] →
    count d x = ((d.records.rows.filter (·.conversationId = conversation x)).filter
      (·.platformMessageId = platform x)).length

/-! ## Runs -/

/-- The readings of the clock at a capture, and what it is handed. -/
abbrev Poll (Item : Type) := Int × Int × List Item

section
variable {Item ε : Type} {J : Js} (A : Editor Item ε J)

/-- The items a poll writes. -/
def Editor.writes (d : Disk) (p : Poll Item) : List Item :=
  match A.adapter.listPending d p.1 p.2.2 with
  | .ok pending => pending.filter fun x => !A.skips d x
  | .error _ => []

/-- With the numbers they get. -/
def Editor.numbers (d : Disk) (p : Poll Item) : Log Item :=
  number A.scheme (A.count d) [] (A.writes d p)

/-- A poll that comes upon no place where edits get mixed up; `log` is what was written before. -/
structure Unmixed (d : Disk) (log : Log Item) (p : Poll Item) : Prop where
  named : ∀ x ∈ p.2.2, A.named x = true
  listed : ∃ pending, A.adapter.listPending d p.1 p.2.2 = .ok pending
  /-- An edit that was not captured is pending. -/
  pending : ∀ x ∈ p.2.2, A.edited x = true →
    (∃ a ∈ log, A.edited a.1 = true ∧ A.edit a.1 = A.edit x) ∨
      ∃ y ∈ A.writes d p, A.edited y = true ∧ A.edit y = A.edit x
  /-- One that was is not, and none is twice. -/
  fresh : ∀ x ∈ A.writes d p, A.edited x = true →
    ∀ a ∈ log, A.edited a.1 = true → A.edit a.1 ≠ A.edit x
  distinct : (A.writes d p).Pairwise fun x y =>
    A.edited x = true → A.edited y = true → A.edit x ≠ A.edit y
  /-- Two edits of one platform id are of one conversation. -/
  apart : ∀ x ∈ A.writes d p, ∀ y ∈ A.writes d p, A.edited x = true → A.edited y = true →
    A.platform x = A.platform y → A.conversation x = A.conversation y
  /-- An edit of what is not on disk is polled without it. -/
  alone : ∀ x ∈ A.writes d p, A.edited x = true → A.count d x = 0 → ∀ y ∈ A.writes d p,
    A.edited y = false → A.conversation x = A.conversation y → A.platform x ≠ A.platform y
  taken : ∀ x ∈ A.writes d p, ∀ n, captureFaults J (filed (A.write p.2.1 x n)) [] = []

/-- The last poll first, with the disk and what was written. -/
inductive Run : List (Poll Item) → Disk → Log Item → Prop
  | start : Run [] {} []
  | poll {polls : List (Poll Item)} {d : Disk} {log : Log Item} (p : Poll Item) :
      Run polls d log → Unmixed A d log p →
        Run (p :: polls) (A.adapter.capture J p.1 p.2.1 p.2.2 d).2 (log ++ A.numbers d p)

/-! ## What a run keeps -/

structure Kept (polls : List (Poll Item)) (d : Disk) (log : Log Item) : Prop where
  /-- Every edit is the next revision of its own message. -/
  numbered : Numbered A.scheme log
  /-- The files are those of the items that were written. -/
  files : ∀ i, (d.records.find i).isSome = true ↔ ∃ a ∈ log, A.identity a = i
  own : ∀ a ∈ log, A.edited a.1 = true →
    ∃ r, d.records.find (A.identity a) = some r ∧ r.body = A.body a.1
  /-- Every edit that was handed over was written once. -/
  captured : ∀ p ∈ polls, ∀ x ∈ p.2.2, A.edited x = true →
    ∃ a ∈ log, A.edited a.1 = true ∧ A.edit a.1 = A.edit x
  once : log.Pairwise fun a b =>
    A.edited a.1 = true → A.edited b.1 = true → A.edit a.1 ≠ A.edit b.1
  named : ∀ a ∈ log, A.named a.1 = true
  rows : ∀ i r, d.records.find i = some r → r.source = A.source ∧
    ∃ a ∈ log, A.identity a = r.id ∧ r.platformMessageId = A.platform a.1

/-! ## One poll -/

variable {A} {d : Disk} {log : Log Item} {p : Poll Item} {polls : List (Poll Item)}

/-- The records of a batch in the order they are written. -/
def recordsOf (all : List (Candidate × Option String)) : List MessageRecord :=
  (payloadOf all).entries.map (·.record) ++
    (payloadOf all).parked.map fun c => parkedRecord c.1.record c.2

theorem recordsOf_perm (all : List (Candidate × Option String)) :
    (recordsOf all).Perm (all.map filed) := by
  induction all with
  | nil => exact .nil
  | cons w all ih =>
    obtain ⟨c, reason⟩ := w
    cases reason with
    | none => exact ih.cons _
    | some reason => exact List.perm_middle.trans (ih.cons _)

theorem capture_records (hu : Unmixed A d log p)
    (hs : ∀ i x, d.records.find i = some x → x.source = A.source) :
    ∃ rs : List MessageRecord,
      rs.Perm ((A.numbers d p).map fun a => filed (A.write p.2.1 a.1 a.2)) ∧
      (A.adapter.capture J p.1 p.2.1 p.2.2 d).2.records = rs.foldl stored d.records := by
  obtain ⟨pending, hp⟩ := hu.listed
  have hwrites : A.writes d p = pending.filter fun x => !A.skips d x := by
    rw [Editor.writes, hp]
  unfold Adapter.capture
  rw [hp]
  dsimp only
  split
  · rename_i hempty
    refine ⟨[], ?_, rfl⟩
    rw [Editor.numbers, hwrites, List.isEmpty_iff.1 hempty]
    exact .nil
  · rw [A.payload_eq d p.2.1 pending fun x hx => hu.named x (A.listed_mem _ _ _ _ hp x hx),
      ← hwrites, show number A.scheme (A.count d) [] (A.writes d p) = A.numbers d p from rfl]
    dsimp only
    let all := (A.numbers d p).map fun a => A.write p.2.1 a.1 a.2
    have htaken : ∀ w ∈ all, captureFaults J (filed w) w.1.typeFaults = [] ∧
        w.1.record.source = A.source := by
      intro w hw
      obtain ⟨a, ha, rfl⟩ := List.mem_map.1 hw
      have hmem : a.1 ∈ A.writes d p := by
        have := number_items (N := A.scheme) (A.count d) (A.writes d p) []
        rw [← this]
        exact List.mem_map_of_mem ha
      rw [A.write_types]
      exact ⟨hu.taken a.1 hmem a.2, A.write_source _ _ _⟩
    have hentry : ∀ c ∈ (payloadOf all).entries, captureFaults J c.record c.typeFaults = [] := by
      intro c hc
      obtain ⟨w, hw, rfl⟩ := List.mem_map.1 hc
      obtain ⟨hw, hnone⟩ := List.mem_filter.1 hw
      have := (htaken w hw).1
      rwa [filed, Option.isNone_iff_eq_none.1 hnone] at this
    have hentries := entries_stored hentry (d := d)
    have hpark : ∀ c ∈ (payloadOf all).parked,
        captureFaults J (parkedRecord c.1.record c.2) c.1.typeFaults = [] ∧
          c.1.record.source = A.source := by
      intro c hc
      obtain ⟨w, hw, hc⟩ := List.mem_filterMap.1 hc
      obtain ⟨reason, hreason, rfl⟩ := Option.map_eq_some_iff.1 hc
      have := htaken w hw
      rwa [filed, hreason] at this
    have hrows : ∀ i x, (Task.each (entry J) (payloadOf all).entries d).2.records.find i = some x →
        x.source = A.source := by
      rw [hentries.2]
      refine storedAll_rows (P := fun r => r.source = A.source)
        (fun x y hx hg => by rw [hg.eq]; exact hx) (fun r hr => ?_) hs
      obtain ⟨c, hc, rfl⟩ := List.mem_map.1 hr
      obtain ⟨w, hw, rfl⟩ := List.mem_map.1 hc
      exact (htaken w (List.mem_of_mem_filter hw)).2
    have hparked := parked_stored hpark hrows
    refine ⟨recordsOf all, ?_, ?_⟩
    · have := recordsOf_perm all
      rwa [List.map_map] at this
    · have h₁ : Task.each (entry J) (payloadOf all).entries d = (.ok (), _) :=
        Prod.ext hentries.1 rfl
      have h₂ : Task.each (parking J) (payloadOf all).parked _ = (.ok (), _) :=
        Prod.ext hparked.1 rfl
      rw [Adapter.take, Task.bind_of_ok h₁, Task.bind_of_ok h₂, consuming_records, hparked.2,
        hentries.2, recordsOf, List.foldl_append]

theorem filed_id (w : Candidate × Option String) : (filed w).id = w.1.record.id := by
  unfold filed
  split <;> rfl

theorem filed_platform (w : Candidate × Option String) :
    (filed w).platformMessageId = w.1.record.platformMessageId := by
  unfold filed
  split <;> rfl

theorem filed_body (w : Candidate × Option String) : (filed w).body = w.1.record.body := by
  unfold filed
  split <;> rfl

theorem filed_source (w : Candidate × Option String) : (filed w).source = w.1.record.source := by
  unfold filed
  split <;> rfl

theorem mem_numbers {a : Item × Nat} (h : a ∈ A.numbers d p) : a.1 ∈ A.writes d p := by
  rw [← number_items (N := A.scheme) (A.count d) (A.writes d p) []]
  exact List.mem_map_of_mem h

theorem numbers_of {x : Item} (h : x ∈ A.writes d p) : ∃ a ∈ A.numbers d p, a.1 = x := by
  rw [← number_items (N := A.scheme) (A.count d) (A.writes d p) []] at h
  exact List.mem_map.1 h

section Poll
variable (h : Kept A polls d log) (hu : Unmixed A d log p)

theorem Unmixed.named_writes (hu : Unmixed A d log p) {x : Item} (hx : x ∈ A.writes d p) :
    A.named x = true := by
  obtain ⟨pending, hp⟩ := hu.listed
  rw [Editor.writes, hp] at hx
  exact hu.named x (A.listed_mem _ _ _ _ hp x (List.mem_of_mem_filter hx))

/-- Items of one identity are of one message. -/
theorem key_of_identity {a b : Item × Nat} (ha : A.named a.1 = true) (hb : A.named b.1 = true)
    (hi : A.identity a = A.identity b) : A.scheme.key a.1 = A.scheme.key b.1 ∧ a.2 = b.2 := by
  obtain ⟨hc, hm, hn⟩ : A.conversation a.1 = A.conversation b.1 ∧
      A.messageId a.1 = A.messageId b.1 ∧ a.2 = b.2 := by simpa [Edits.identity] using hi
  exact ⟨Prod.ext hc ((A.messageId_iff _ _ ha hb hc).1 hm), hn⟩

include h hu

/-- The records of a message on disk are counted as its revisions. -/
theorem count_next {x : Item} (hx : x ∈ A.writes d p) :
    A.count d x = next (under A.scheme (A.scheme.key x) log) := by
  have hnamed := hu.named_writes hx
  have hpath := paths_of_captureFaults (hu.taken x hx 0)
  rw [filed_id, A.write_id _ _ _ hnamed] at hpath
  rw [A.count_eq d x hnamed (List.append_eq_nil_iff.1 hpath).1]
  set rows := ((d.records.rows.filter (·.conversationId = A.conversation x)).filter
    (·.platformMessageId = A.platform x)) with hrows
  have hmem : ∀ r ∈ rows, ∃ a ∈ log, A.identity a = r.id ∧ A.scheme.key a.1 = A.scheme.key x ∧
      r.id = ⟨A.conversation x, A.messageId x, r.revision⟩ := by
    intro r hr
    simp only [hrows, List.mem_filter, decide_eq_true_eq] at hr
    obtain ⟨-, a, ha, hid, hplatform⟩ := h.rows r.id r (Table.mem_find hr.1.1)
    have hconv : A.conversation a.1 = A.conversation x :=
      (congrArg Identity.conversationId hid).trans hr.1.2
    have hkey : A.scheme.key a.1 = A.scheme.key x := Prod.ext hconv (hplatform.symm.trans hr.2)
    refine ⟨a, ha, hid, hkey, ?_⟩
    have hmessage := (A.messageId_iff _ _ (h.named a ha) hnamed hconv).2 (Prod.ext_iff.1 hkey).2
    rw [← hid, Edits.identity, hconv, hmessage]
    exact congrArg _ (congrArg Identity.revision hid)
  have hnodup : (rows.map (·.revision)).Nodup := by
    have hids : (rows.map MessageRecord.id).Nodup :=
      d.records.nodup.sublist (((List.filter_sublist).trans List.filter_sublist).map _)
    refine List.Nodup.of_map (fun n => (⟨A.conversation x, A.messageId x, n⟩ : Identity)) ?_
    rw [List.map_map]
    convert hids using 1
    exact List.map_congr_left fun r hr => ((hmem r hr).choose_spec.2.2.2).symm
  have hrange : ∀ i, i ∈ rows.map (·.revision) ↔
      i < next (under A.scheme (A.scheme.key x) log) := by
    intro i
    constructor
    · intro hi
      obtain ⟨r, hr, rfl⟩ := List.mem_map.1 hi
      obtain ⟨a, ha, hid, hkey, -⟩ := hmem r hr
      have : a.2 = r.revision := congrArg Identity.revision hid
      rw [← this]
      exact lt_next (mem_under.2 ⟨ha, hkey⟩)
    · intro hi
      obtain ⟨a, ha, hkey, rfl⟩ := h.numbered.contiguous _ i hi
      obtain ⟨r, hr⟩ := Option.isSome_iff_exists.1 ((h.files (A.identity a)).2 ⟨a, ha, rfl⟩)
      have hrid : r.id = A.identity a := Table.find_key hr
      obtain ⟨-, b, hb, hid, hplatform⟩ := h.rows _ r hr
      have hkb := (key_of_identity (h.named b hb) (h.named a ha) (hid.trans hrid)).1.trans hkey
      refine List.mem_map.2 ⟨r, ?_, congrArg Identity.revision hrid⟩
      simp only [hrows, List.mem_filter, decide_eq_true_eq]
      refine ⟨⟨Table.find_mem hr, ?_⟩, hplatform.trans (Prod.ext_iff.1 hkb).2⟩
      exact (congrArg Identity.conversationId hrid).trans (Prod.ext_iff.1 hkey).1
  have hperm : (rows.map (·.revision)).Perm
      (List.range (next (under A.scheme (A.scheme.key x) log))) :=
    (List.perm_ext_iff_of_nodup hnodup List.nodup_range).2 fun i => by
      rw [hrange, List.mem_range]
  have := hperm.length_eq
  rwa [List.length_map, List.length_range] at this

/-- Every edit of the poll is numbered as the next revision of its own message. -/
theorem numbered_poll : Numbered A.scheme (log ++ A.numbers d p) := by
  refine Numbered.number h.numbered (fun x hx _ => ?_) (fun x hx y hy hex hey hs => ?_)
    fun x hx y hy hex hey hk hzero => ?_
  · rw [List.lookup_nil, Option.getD_none]
    exact count_next h hu hx
  · exact Prod.ext (hu.apart x hx y hy hex hey hs) hs
  · exact hu.alone x hx hex ((count_next h hu hx).trans hzero) y hy hey (Prod.ext_iff.1 hk).1
      (Prod.ext_iff.1 hk).2

/-- The disk after the poll, and the records it wrote. -/
theorem capture_stored : ∃ rs : List MessageRecord,
    rs.Perm ((A.numbers d p).map fun a => filed (A.write p.2.1 a.1 a.2)) ∧
      (A.adapter.capture J p.1 p.2.1 p.2.2 d).2.records = rs.foldl stored d.records :=
  capture_records hu fun i x hx => (h.rows i x hx).1

theorem files_poll (i : Identity) :
    ((A.adapter.capture J p.1 p.2.1 p.2.2 d).2.records.find i).isSome = true ↔
      ∃ a ∈ log ++ A.numbers d p, A.identity a = i := by
  obtain ⟨rs, hperm, hrecords⟩ := capture_stored h hu
  have hids : (∃ r ∈ rs, r.id = i) ↔ ∃ a ∈ A.numbers d p, A.identity a = i := by
    constructor
    · rintro ⟨r, hr, rfl⟩
      obtain ⟨a, ha, rfl⟩ := List.mem_map.1 (hperm.mem_iff.1 hr)
      refine ⟨a, ha, ?_⟩
      rw [filed_id, A.write_id _ _ _ (hu.named_writes (mem_numbers ha))]
      rfl
    · rintro ⟨a, ha, rfl⟩
      refine ⟨_, hperm.mem_iff.2 (List.mem_map_of_mem ha), ?_⟩
      rw [filed_id, A.write_id _ _ _ (hu.named_writes (mem_numbers ha))]
      rfl
  rw [hrecords, find_storedAll_isSome, h.files, hids]
  simp only [List.mem_append, or_and_right, exists_or]

theorem rows_poll : ∀ i r, (A.adapter.capture J p.1 p.2.1 p.2.2 d).2.records.find i = some r →
    r.source = A.source ∧ ∃ a ∈ log ++ A.numbers d p,
      A.identity a = r.id ∧ r.platformMessageId = A.platform a.1 := by
  obtain ⟨rs, hperm, hrecords⟩ := capture_stored h hu
  rw [hrecords]
  refine storedAll_rows (P := fun r => r.source = A.source ∧ ∃ a ∈ log ++ A.numbers d p,
    A.identity a = r.id ∧ r.platformMessageId = A.platform a.1) ?_ ?_ ?_
  · rintro x y ⟨hs, a, ha, hid, hplatform⟩ hg
    rw [hg.eq]
    exact ⟨hs, a, ha, hid, hplatform⟩
  · intro r hr
    obtain ⟨a, ha, rfl⟩ := List.mem_map.1 (hperm.mem_iff.1 hr)
    have hnamed := hu.named_writes (mem_numbers ha)
    rw [filed_source, filed_id, filed_platform, A.write_id _ _ _ hnamed,
      A.write_platform _ _ _ hnamed]
    exact ⟨A.write_source _ _ _, a, List.mem_append_right _ ha, rfl, rfl⟩
  · intro i r hr
    obtain ⟨hs, a, ha, hid, hplatform⟩ := h.rows i r hr
    exact ⟨hs, a, List.mem_append_left _ ha, hid, hplatform⟩

/-- An edit of the poll goes where nothing is, and nothing else of the poll goes. -/
theorem edit_apart {a : Item × Nat} (ha : a ∈ A.numbers d p) (he : A.edited a.1 = true) :
    d.records.find (A.identity a) = none ∧ (A.numbers d p).Pairwise fun b c =>
      A.identity b = A.identity a → A.identity c ≠ A.identity a := by
  have hnum := numbered_poll h hu
  have hwrites := mem_numbers ha
  have hnamed : ∀ b ∈ log ++ A.numbers d p, A.named b.1 = true := by
    intro b hb
    rcases List.mem_append.1 hb with hb | hb
    · exact h.named b hb
    · exact hu.named_writes (mem_numbers hb)
  have hin : ∀ b ∈ A.numbers d p, b ∈ log ++ A.numbers d p := fun b => List.mem_append_right _
  obtain ⟨-, habove, hcross⟩ := List.pairwise_append.1 hnum.above
  refine ⟨?_, habove.imp_of_mem fun {b c} hb hc hbc hib hic => ?_⟩
  · rw [← Option.not_isSome_iff_eq_none, h.files]
    rintro ⟨b, hb, hi⟩
    obtain ⟨hk, hn⟩ := key_of_identity (h.named b hb) (hnamed a (hin a ha)) hi
    have := hcross b hb a ha he hk
    omega
  · obtain ⟨hkb, hnb⟩ := key_of_identity (hnamed b (hin b hb)) (hnamed a (hin a ha)) hib
    obtain ⟨hkc, hnc⟩ := key_of_identity (hnamed c (hin c hc)) (hnamed a (hin a ha)) hic
    cases hec : A.edited c.1 with
    | true =>
      have := hbc hec (hkb.trans hkc.symm)
      omega
    | false =>
      -- The edit is numbered as the message itself, so none of the message is on disk.
      have hzero : a.2 = 0 := hnc ▸ hnum.zero (hin c hc) hec
      obtain ⟨l, m, hlm⟩ := List.append_of_mem ha
      have hnext := hnum (log ++ l) a m (by rw [hlm, List.append_assoc])
      have he' : A.scheme.edited a.1 = true := he
      rw [if_pos he', hzero, under_append, next_append] at hnext
      have hcount : A.count d a.1 = 0 := by
        rw [count_next h hu hwrites]
        omega
      exact hu.alone a.1 hwrites he hcount c.1 (mem_numbers hc) hec (Prod.ext_iff.1 hkc).1.symm
        (Prod.ext_iff.1 hkc).2.symm

theorem own_poll : ∀ a ∈ log ++ A.numbers d p, A.edited a.1 = true →
    ∃ r, (A.adapter.capture J p.1 p.2.1 p.2.2 d).2.records.find (A.identity a) = some r ∧
      r.body = A.body a.1 := by
  obtain ⟨rs, hperm, hrecords⟩ := capture_stored h hu
  rw [hrecords]
  intro a ha he
  rcases List.mem_append.1 ha with ha | ha
  · obtain ⟨r, hr, hbody⟩ := h.own a ha he
    obtain ⟨y, hy, hg⟩ := Extends.storedAll rs d.records _ r hr
    refine ⟨y, hy, ?_⟩
    rw [hg.eq]
    exact hbody
  · have hid : ∀ b ∈ A.numbers d p, (filed (A.write p.2.1 b.1 b.2)).id = A.identity b := by
      intro b hb
      rw [filed_id, A.write_id _ _ _ (hu.named_writes (mem_numbers hb))]
      rfl
    obtain ⟨hnew, hone⟩ := edit_apart h hu ha he
    have hpairs : rs.Pairwise fun q q' =>
        q.id = (filed (A.write p.2.1 a.1 a.2)).id → q'.id ≠ (filed (A.write p.2.1 a.1 a.2)).id := by
      refine (hperm.pairwise_iff fun {q q'} hq h' h => hq h h').2 ?_
      rw [List.pairwise_map, hid a ha]
      refine hone.imp_of_mem fun {b c} hb hc hbc => ?_
      rw [hid b hb, hid c hc]
      exact hbc
    obtain ⟨y, hy, hg⟩ := find_storedAll (hperm.mem_iff.2 (List.mem_map_of_mem ha))
      (by rw [hid a ha]; exact hnew) hpairs
    rw [hid a ha] at hy
    refine ⟨y, hy, ?_⟩
    rw [hg.eq, show ∀ atts, ({ filed (A.write p.2.1 a.1 a.2) with attachments := atts } :
      MessageRecord).body = (filed (A.write p.2.1 a.1 a.2)).body from fun _ => rfl, filed_body,
      A.write_body _ _ _ (hu.named_writes (mem_numbers ha))]

theorem kept_poll : Kept A (p :: polls) (A.adapter.capture J p.1 p.2.1 p.2.2 d).2
    (log ++ A.numbers d p) where
  numbered := numbered_poll h hu
  files := files_poll h hu
  own := own_poll h hu
  rows := rows_poll h hu
  named a ha := by
    rcases List.mem_append.1 ha with ha | ha
    · exact h.named a ha
    · exact hu.named_writes (mem_numbers ha)
  captured q hq x hx he := by
    rcases List.mem_cons.1 hq with rfl | hq
    · rcases hu.pending x hx he with ⟨a, ha, hae⟩ | ⟨y, hy, hye⟩
      · exact ⟨a, List.mem_append_left _ ha, hae⟩
      · obtain ⟨a, ha, rfl⟩ := numbers_of hy
        exact ⟨a, List.mem_append_right _ ha, hye⟩
    · obtain ⟨a, ha, hae⟩ := h.captured q hq x hx he
      exact ⟨a, List.mem_append_left _ ha, hae⟩
  once := by
    refine List.pairwise_append.2 ⟨h.once, ?_, fun a ha b hb hea heb =>
      hu.fresh b.1 (mem_numbers hb) heb a ha hea⟩
    have := hu.distinct
    rwa [← number_items (N := A.scheme) (A.count d) (A.writes d p) [], List.pairwise_map] at this

end Poll

theorem run_kept (h : Run A polls d log) : Kept A polls d log := by
  induction h with
  | start =>
    refine ⟨.nil, fun i => ?_, by simp, by simp, .nil, by simp, fun i r hr => ?_⟩
    · simp [Table.find, Table.empty]
    · simp [Table.find, Table.empty] at hr
  | poll p _ hu ih => exact kept_poll ih hu

end

end CarbonRuntime.Adapters
