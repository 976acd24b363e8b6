import CarbonRuntime.Import.Write
import CarbonRuntime.Stream.Stored
import CarbonRuntime.Runtime.Process

/-!
# An import takes back what parked a record

An importer hands the store a record with `disposition: 'captured'` and passes the same as
the disposition to write after it (import/carbon-capture-whatsapp.ts:143, 177). Where the
record is there already the merge keeps the live one, "the first body and the first times
win" (stream/store.ts:789-792), but the disposition is a step of its own and writes over what
the live agent knows (store.ts:322-324): a record that was parked, dropped by policy or
closed as a permanent error is `captured` after it.

Counterexample: a parked message, and an export that carries it.
-/

open CarbonRuntime.Core CarbonRuntime.Stream

namespace CarbonRuntime.Bugs.UnparkedImport

open Import Store

variable {L : Loop} {s s' : World} {e : Import.Entry} {x : MessageRecord}

/-- The file at `x`'s path holds `x`, but for attachments that were added by digest. -/
def OnlyAttachments (x : MessageRecord) (d : Disk) : Prop :=
  ∃ y, d.records.find x.id = some y ∧ y = { x with attachments := y.attachments } ∧
    ∀ a ∈ x.attachments, ∃ b ∈ y.attachments, b.sha256 = a.sha256

theorem OnlyAttachments.merged (x r : MessageRecord) {d : Disk}
    (h : d.records.find x.id = some (mergeRecords x r)) : OnlyAttachments x d :=
  ⟨_, h, rfl, fun a ha => ⟨a, mem_unionAttachments _ ha, rfl⟩⟩

theorem OnlyAttachments.kept {d : Disk} (h : d.records.find x.id = some x) : OnlyAttachments x d :=
  ⟨x, h, rfl, fun a ha => ⟨a, ha, rfl⟩⟩

theorem OnlyAttachments.disposition {d : Disk} {y : MessageRecord} (h : OnlyAttachments x d)
    (hy : d.records.find x.id = some y) : y.disposition = x.disposition := by
  obtain ⟨z, hz, he, _⟩ := h
  rw [hy] at hz
  cases hz
  rw [he]

theorem merges_text (source : Import.Source) : merges source.text = true := by
  cases source <;> decide

/-- The merge of a record that is there, whatever its disposition. -/
theorem written_old {r : MessageRecord} {d : Disk} (hx : d.records.find r.id = some x)
    (hm : merges r.source = true) (seq : Nat) :
    (written r seq d).1 = .ok (mergeRecords x r) ∧
      (written r seq d).2.records.find r.id = some (mergeRecords x r) := by
  have hid : r.id = (mergeRecords x r).id := (Table.find_key hx).symm
  simp only [written, hx, hm, Bool.not_true, Bool.and_false, Bool.false_eq_true, if_false]
  by_cases hne : mergeRecords x r = x
  · simp [hne, hx]
  · rw [if_pos hne]
    exact ⟨rfl, by rw [hid]; exact Table.find_put_self _ _⟩

/-- What a write over the live record `x` leaves of it. -/
def Left (L : Loop) (e : Import.Entry) (x : MessageRecord) (s' : World) : Prop :=
  if x.disposition = .captured ∨ captureFaults L.js e.record e.typeFaults ≠ [] then
    OnlyAttachments x s'.disk
  else ∃ y, s'.disk.records.find x.id = some y ∧ y.disposition = .captured

theorem wp_disposed {y : MessageRecord} (d : Disposition) (hy : s.disk.records.find y.id = some y)
    (hp : pathFaults L.js y.id = []) {X : Err → World → Prop} :
    Prog.wp (tracking L fun _ _ => True) (setDisposition L y.id d)
      (fun _ s' => ∃ z, s'.disk.records.find y.id = some z ∧ z.disposition = d) X s := by
  simp only [setDisposition, rewrite, Prog.wp_bind, wp_refuse, wp_fetch, hy, hp]
  refine ⟨fun _ => ?_, fun h => absurd rfl h⟩
  refine wp_stamp _ trivial trivial fun z s' hz hs' _ => ?_
  simp only [wp_write, Prog.wp_pure]
  have hid : y.id = z.id := hz.id.symm
  refine ⟨trivial, fun _ => ⟨z, ?_, ?_⟩⟩
  · rw [hid, Act.apply, World.putRecord_disk]
    exact Table.find_put_self _ _
  · rw [hz.eq]
    rfl

theorem wp_writeEntry (hx : s.disk.records.find e.record.id = some x) :
    Prog.wp (tracking L fun _ _ => True) (writeEntry L e) (fun _ => Left L e x) (fun _ => Left L e x) s := by
  have hid : e.record.id = x.id := (Table.find_key hx).symm
  -- What is refused before the record is written leaves the file alone.
  have hrefused : captureFaults L.js e.record e.typeFaults ≠ [] → Left L e x s := fun hf => by
    rw [Left, if_pos (.inr hf)]
    exact .kept (hid ▸ hx)
  have hpath : pathFaults L.js e.record.id ≠ [] → Left L e x s := fun hp => hrefused (by
    rw [captureFaults]
    split
    · exact hp
    · assumption)
  have hold (s₂ : World) (h : s₂.disk.records.find e.record.id = some x) :=
    written_old (r := e.record) (d := s₂.disk) h (merges_text e.source) (s.disk.seq + 1)
  have hrest : Prog.wp (tracking L fun _ _ => True) (do
      let already ← alreadyCaptured L e.record.id
      capture L e.record none e.typeFaults (some e.record.disposition)
        (if already then none else some e.raw))
      (fun _ => Left L e x) (fun _ => Left L e x) s := by
    simp only [Prog.wp_bind]
    refine Prog.wp_mono _ (wp_alreadyCaptured e.record.id (X := fun _ _ => False))
      (fun already s₁ hs₁ => ?_) fun _ _ (h : False) => h.elim
    cases (show s₁ = s from hs₁)
    generalize (if already then none else some e.raw) = raw
    simp only [capture, Prog.wp_bind, wp_refuse, Prog.wp_andFinally, nextSeq, wp_fetch, wp_write,
      Prog.wp_pure]
    refine ⟨fun hv => ⟨fun hp => ?_, hpath⟩, fun hv => hrefused (by rwa [captureFaults, if_neg hv])⟩
    refine ⟨trivial, fun _ => ?_⟩
    refine Prog.wp_mono _ (wp_appendRaw_disk e.record.id raw trivial (X := fun _ _ => False))
      (fun _ s₂ h₂ => ?_) fun _ _ (h : False) => h.elim
    have h₂ : s₂.disk.records = s.disk.records := by rw [h₂]; rfl
    refine Prog.wp_mono _ (wp_captureWrite_disk e.record (s.disk.seq + 1) trivial) (fun y s₃ h₃ => ?_) ?_
    · have hx₂ : s₂.disk.records.find e.record.id = some x := h₂ ▸ hx
      obtain ⟨hok, hfind⟩ := hold s₂ hx₂
      rw [h₃] at hok hfind
      obtain ⟨y, merged⟩ := y
      have hy : y = mergeRecords x e.record := by simpa using hok
      subst hy
      have hnone : captureFaults L.js e.record e.typeFaults = [] := by
        rw [captureFaults, if_pos hv, hp]
      -- What is published of it is in memory.
      have hlast : ∀ (z : MessageRecord) (s₄ : World), Left L e x s₄ →
          Prog.wp (tracking L fun _ _ => True) (do
            if !merged then acceptBrowserInput L z
            pure z : Program L MessageRecord) (fun _ => Left L e x) (fun _ => Left L e x) s₄ :=
        fun z s₄ h₄ => wp_published z merged fun s₅ h₅ => by
          rw [Left, h₅]
          exact h₄
      have hd : e.record.disposition = .captured := rfl
      have hm : (mergeRecords x e.record).disposition = x.disposition := rfl
      have hmid : (mergeRecords x e.record).id = x.id := rfl
      simp only [hd, hm]
      rw [hid] at hfind
      by_cases hx' : x.disposition = .captured
      · rw [if_neg (by simpa using hx'.symm)]
        refine hlast _ s₃ ?_
        rw [Left, if_pos (.inl hx')]
        exact .merged x e.record hfind
      · rw [if_pos (Ne.symm hx'), Prog.wp_bind]
        refine Prog.wp_mono _ (wp_disposed .captured (by rw [hmid]; exact hfind)
          (by rw [hmid, ← hid]; exact hp) (X := fun _ _ => False))
          (fun z s₄ h₄ => hlast z s₄ ?_) fun _ _ (h : False) => h.elim
        rw [Left, if_neg (by simp [hx', hnone])]
        exact h₄
    · rintro er s₃ ⟨faults, -, h₃⟩
      have := (hold s₂ (h₂ ▸ hx)).1
      rw [h₃] at this
      cases this
  unfold writeEntry
  split
  · simp only [Prog.wp_bind, wp_refuse]
    exact ⟨fun _ => by simpa only [Prog.wp_bind] using hrest, hpath⟩
  · simpa only [Prog.wp_bind, Prog.wp_pure] using hrest

/-- An import over a live record adds attachments to it and nothing else, exactly where the
record is `captured` already or the row is refused. -/
theorem import_adds_iff {r : Prog.Result (sig L) MessageRecord}
    (hx : s.disk.records.find e.record.id = some x) (hr : Prog.Runs (writeEntry L e) s r s') :
    OnlyAttachments x s'.disk ↔
      x.disposition = .captured ∨ captureFaults L.js e.record e.typeFaults ≠ [] := by
  have hleft : Left L e x s' := by
    have := plain_runs hr (tracking_true ▸ wp_writeEntry hx)
    cases r <;> exact this
  unfold Left at hleft
  split at hleft
  · rename_i h
    exact ⟨fun _ => h, fun _ => hleft⟩
  · rename_i h
    obtain ⟨y, hy, hd⟩ := hleft
    exact ⟨fun ho => .inl (by rw [← ho.disposition hy, hd]), fun hc => absurd hc h⟩

/-! ## A message the adapter parked, and an export that carries it -/

def chat : Channel := { kind := "whatsapp", account := "desk" }

def chatLoop : Loop := oneLoop chat { channels := [chat] }

instance (q : Ask) (a : q.Answer) (w : World) : Decidable (chatLoop.outside q a w) :=
  inferInstanceAs (Decidable True)

def arrived : Candidate := { record := inboundMessage chat "c:1" "1" }

/-- The row of the export with the same chat and id. -/
def row : Import.Entry :=
  { source := .capture, agent := "agent", account := "desk", conversationId := "c"
    conversationKind := "direct", platformMessageId := "1", direction := .inbound
    role := .contact, senderId := "client", receivedAt := "1", body := "hello"
    attachments := [
      { file := "scan", mime := "image/png", bytes := 1, sha256 := chatLoop.js.sha256 "scan" }]
    raw := "row" }

/-- The store a pass leaves that captured `batch`, and the one the import leaves. -/
def reimported (batch : Batch) : Option (World × World) :=
  match (Pass.service chatLoop).play (false, {})
      [.boot (Given.answer {}), .job .pass (Given.answer { batch, stopping := true })] with
  | some (true, s) =>
    match Prog.finishWith (𝔖 := sig chatLoop) (Given.answer {}) 0 (writeEntry chatLoop row) s with
    | some (.ok _, s') => some (s, s')
    | _ => none
  | _ => none

theorem reimported_runs {batch : Batch} (h : reimported batch = some (s, s')) :
    (Pass.process chatLoop).Reachable ⟨.idle, s⟩ ∧
      ∃ y, Prog.Runs (writeEntry chatLoop row) s (.ok y) s' := by
  unfold reimported at h
  split at h
  · rename_i hplay
    split at h
    · rename_i hrun
      cases h
      exact ⟨played_idle hplay, _, Prog.finishWith_runs _ hrun⟩
    · cases h
  · cases h

/-- A record of the disposition `d` that the import leaves `captured`. -/
def turned (d : Disposition) (c : World × World) : Bool :=
  (c.1.disk.records.find row.record.id).any fun x =>
    x.disposition = d && (c.2.disk.records.find row.record.id).any (·.disposition = .captured)

/-- The import after a pass that parked the row's message, and after one that captured it. -/
theorem reimported_turned :
    (reimported { parked := [(arrived, "not understood")] }).any (turned .parked) = true ∧
    (reimported { entries := [arrived] }).any (turned .captured) = true := by decide +kernel

theorem import_unparks : ∃ s s' x y, (Pass.process chatLoop).Reachable ⟨.idle, s⟩ ∧
    s.disk.records.find row.record.id = some x ∧ x.disposition = .parked ∧
    Prog.Runs (writeEntry chatLoop row) s (.ok y) s' ∧ ¬ OnlyAttachments x s'.disk := by
  obtain ⟨⟨s, s'⟩, hs, hcheck⟩ := (Option.any_eq_true _ _).1 reimported_turned.1
  obtain ⟨hreach, y, hr⟩ := reimported_runs hs
  simp only [turned, Option.any_eq_true, Bool.and_eq_true, decide_eq_true_eq] at hcheck
  obtain ⟨x, hx, hparked, z, hz, hc⟩ := hcheck
  refine ⟨s, s', x, y, hreach, hx, hparked, hr, fun ho => ?_⟩
  rw [← Table.find_key hx] at hz
  have := ho.disposition hz
  rw [hc, hparked] at this
  cases this

theorem import_adds_run : ∃ s s' x y, Prog.Runs (writeEntry chatLoop row) s (.ok y) s' ∧
    s.disk.records.find row.record.id = some x ∧ OnlyAttachments x s'.disk := by
  obtain ⟨⟨s, s'⟩, hs, hcheck⟩ := (Option.any_eq_true _ _).1 reimported_turned.2
  obtain ⟨_, y, hr⟩ := reimported_runs hs
  simp only [turned, Option.any_eq_true, Bool.and_eq_true, decide_eq_true_eq] at hcheck
  obtain ⟨x, hx, hcaptured, _⟩ := hcheck
  exact ⟨s, s', x, y, hr, hx, (import_adds_iff hx hr).2 (.inl hcaptured)⟩

end CarbonRuntime.Bugs.UnparkedImport
