import CarbonRuntime.Bugs.UnbrokenTie
import CarbonRuntime.Import.OutboundRecord

/-!
# Two sends under one name

A record of a send is named by its conversation and the id of its own mark (import/carbon-ledger-outbound.ts:167).
That is the platform's id for a capture and the id of a row for a turn or an audit that joined to nothing:
three spaces of ids in one. Where a capture and such a row have one id in one conversation the store takes the
second record for the first one over again, keeps the first and drops the body of the other
(stream/store.ts:300-318).

The records are distinct, and each is there with its own body after the first import, exactly where no two
sends that stand under marks of different kinds have one conversation and one id (`distinct_iff`).

Counterexample: a capture with the id `7` and a turn of row `7`, an hour apart.
-/

open CarbonRuntime.Core CarbonRuntime.Stream

namespace CarbonRuntime.Bugs.ClashingSend

open Import Import.Outbound Store UnbrokenTie

variable {L : Loop} {s s' : World} {context : OutboundContext} {items : List OutboundItem} {e : Import.Entry}

/-! ## Writing what is new -/

/-- A record whose path is free is put there as it is. -/
theorem wp_writeEntry (hnew : s.disk.records.find e.record.id = none) :
    Prog.wp (tracking L fun _ _ => True) (writeEntry L e)
      (fun _ s' => s'.disk.records = s.disk.records.put e.record) (fun _ _ => True) s := by
  have hrest : Prog.wp (tracking L fun _ _ => True) (do
      let already ← alreadyCaptured L e.record.id
      capture L e.record none e.typeFaults (some e.record.disposition) (if already then none else some e.raw))
      (fun _ s' => s'.disk.records = s.disk.records.put e.record) (fun _ _ => True) s := by
    rw [Prog.wp_bind]
    refine Prog.wp_mono _ (wp_alreadyCaptured e.record.id (X := fun _ _ => False))
      (fun already s₁ hs₁ => ?_) fun _ _ (h : False) => h.elim
    cases (show s₁ = s from hs₁)
    generalize (if already then none else some e.raw) = raw
    simp only [capture, Prog.wp_bind, wp_refuse, Prog.wp_andFinally, nextSeq, wp_fetch, wp_write, Prog.wp_pure]
    refine ⟨fun hv => ⟨fun hp => ⟨trivial, fun _ => ?_⟩, fun _ => trivial⟩, fun _ => trivial⟩
    refine Prog.wp_mono _ (wp_appendRaw_disk e.record.id raw trivial (X := fun _ _ => False))
      (fun _ s₂ h₂ => ?_) fun _ _ (h : False) => h.elim
    have h₂ : s₂.disk.records = s.disk.records := by rw [h₂]; rfl
    have hwritten : written e.record (s.disk.seq + 1) s₂.disk =
        (.ok e.record, { s₂.disk with records := s₂.disk.records.put e.record, index := s₂.disk.index ++ [⟨s.disk.seq + 1, e.record.id⟩] }) := by
      rw [written, h₂, hnew]
    refine Prog.wp_mono _ (wp_captureWrite_disk e.record (s.disk.seq + 1) trivial) (fun y s₃ h₃ => ?_)
      fun _ _ _ => trivial
    rw [hwritten, Prod.mk.injEq] at h₃
    obtain ⟨hy, hdisk⟩ := h₃
    obtain ⟨y, merged⟩ := y
    obtain rfl : e.record = y := Except.ok.inj hy
    have hrecords : s₃.disk.records = s.disk.records.put e.record := by rw [← hdisk, ← h₂]
    -- The disposition it is written with is the one it has.
    simp only [ne_eq, not_true_eq_false, if_false]
    exact wp_published e.record merged fun s₄ h₄ => by rw [h₄]; exact hrecords
  unfold writeEntry
  split
  · simp only [Prog.wp_bind, wp_refuse]
    exact ⟨fun _ => by simpa only [Prog.wp_bind] using hrest, fun _ => trivial⟩
  · simpa only [Prog.wp_bind, Prog.wp_pure] using hrest

/-- The records of entries with different names go beside those that are there. -/
theorem wp_writeBatch {entries : List Import.Entry} (hnodup : (entries.map (·.record.id)).Nodup)
    (hnew : ∀ e ∈ entries, s.disk.records.find e.record.id = none) :
    Prog.wp (tracking L fun _ _ => True) (writeBatch L entries)
      (fun _ s' => s'.disk.records.rows = s.disk.records.rows ++ entries.map (·.record)) (fun _ _ => True) s := by
  let J (rest : List Import.Entry) (s' : World) : Prop :=
    (rest.map (·.record.id)).Nodup ∧ (∀ e ∈ rest, s'.disk.records.find e.record.id = none) ∧
      s'.disk.records.rows ++ rest.map (·.record) = s.disk.records.rows ++ entries.map (·.record)
  have hstep : ∀ e rest s₁, J (e :: rest) s₁ → Prog.wp (tracking L fun _ _ => True)
      (do
        let _ ← writeEntry L e
        pure () : Program L Unit) (fun _ => J rest) (fun _ _ => True) s₁ := by
    rintro e rest s₁ ⟨hnd, hfree, hrows⟩
    obtain ⟨hfirst, hrest⟩ := List.nodup_cons.1 hnd
    have hfree' := List.forall_mem_cons.1 hfree
    rw [Prog.wp_bind]
    refine Prog.wp_mono _ (wp_writeEntry hfree'.1) (fun _ s₂ h₂ => (Prog.wp_pure _).2 ⟨hrest, ?_, ?_⟩)
      fun _ _ _ => trivial
    · intro e' he'
      have hne : e'.record.id ≠ e.record.id := fun h => hfirst (List.mem_map.2 ⟨e', he', h⟩)
      rw [h₂, Table.find_put_other _ _ hne]
      exact hfree'.2 e' he'
    · rw [h₂, Table.rows_put_new hfree'.1, List.append_assoc]
      exact hrows
  have hall : J entries s := ⟨hnodup, hnew, rfl⟩
  unfold writeBatch
  refine Prog.wp_mono _ (Prog.wp_each (P := tracking L fun _ _ => True) (X := fun _ _ => True) (J := J) _ hstep
    entries s hall) (fun _ s' h => ?_) fun _ _ _ => trivial
  simpa using h.2.2

/-! ## The names of the records -/

/-- What tells a mark from the others of its kind. -/
def keyOf (item : OutboundItem) : SourceKind × String × String := (item.kind, item.conversationId, item.messageId)

theorem own_sublist (pool : List Send) : (pool.map (·.item)).Sublist (pool.flatMap marks) := by
  induction pool with
  | nil => exact .slnil
  | cons send pool ih => exact .cons_cons _ (ih.trans (List.sublist_append_right _ _))

/-- The marks under which the sends stand are different marks. -/
theorem own_nodup {α : Type} {f : OutboundItem → α} (hids : (items.map f).Nodup) {J : Js} :
    ((sendsOf J context items).map fun send => f send.item).Nodup := by
  have hmarks := (@joinOutbound_conserves J (context.toleranceMs.getD 180000) items).all
  have hown := ((hmarks.map f).nodup_iff.2 hids).sublist ((own_sublist _).map f)
  rwa [List.map_map] at hown

theorem record_id (send : Send) : (entryFor context send).record.id =
    ⟨send.item.conversationId, send.item.conversationId ++ ":" ++ send.item.messageId, 0⟩ := rfl

theorem record_id_inj {one other : Send} : (entryFor context one).record.id = (entryFor context other).record.id ↔
    one.item.conversationId = other.item.conversationId ∧ one.item.messageId = other.item.messageId := by
  rw [record_id, record_id, Identity.mk.injEq]
  refine ⟨fun ⟨hconv, hid, _⟩ => ⟨hconv, ?_⟩, fun ⟨hconv, hid⟩ => ⟨hconv, by rw [hconv, hid], rfl⟩⟩
  rw [hconv] at hid
  exact String.append_right_inj _ |>.1 hid

/-- No two sends that stand under marks of different kinds have one conversation and one id. -/
def NoClash (sends : List Send) : Prop :=
  ∀ one ∈ sends, ∀ other ∈ sends, one.item.kind ≠ other.item.kind →
    one.item.conversationId = other.item.conversationId → one.item.messageId ≠ other.item.messageId

theorem ids_nodup_iff {sends : List Send} (hkeys : (sends.map fun send => keyOf send.item).Nodup) :
    (sends.map fun send => (entryFor context send).record.id).Nodup ↔ NoClash sends := by
  constructor
  · intro hnodup one hone other hother hkind hconv hid
    have := List.inj_on_of_nodup_map hnodup hone hother (record_id_inj.2 ⟨hconv, hid⟩)
    exact hkind (by rw [this])
  · intro hclash
    refine List.Nodup.map_on (fun one hone other hother hid => ?_) (List.Nodup.of_map _ hkeys)
    obtain ⟨hconv, hid⟩ := record_id_inj.1 hid
    by_cases hkind : one.item.kind = other.item.kind
    · exact List.inj_on_of_nodup_map hkeys hone hother (by simp only [keyOf, hkind, hconv, hid])
    · exact absurd hid (hclash one hone other hother hkind hconv)

/-- Every send has a record of its own, and after the first import that comes to its end the store holds just
those beside what it held, each with the body of its send. -/
structure Distinct (L : Loop) (context : OutboundContext) (items : List OutboundItem) : Prop where
  keys : ((payload L.js context items).map (·.record.id)).Nodup
  written : ∀ s s', (∀ e ∈ payload L.js context items, s.disk.records.find e.record.id = none) →
    Prog.Runs (writeOutbound L context items) s (.ok ()) s' →
    s'.disk.records.rows.length = s.disk.records.rows.length + (sendsOf L.js context items).length ∧
    ∀ send ∈ sendsOf L.js context items,
      (s'.disk.records.find (entryFor context send).record.id).map (·.body) = some (bodyOf (partsOf send)).body

theorem written_of_nodup (hnodup : ((payload L.js context items).map (·.record.id)).Nodup) :
    Distinct L context items := by
  refine ⟨hnodup, fun s s' hnew hrun => ?_⟩
  have hrows : s'.disk.records.rows = s.disk.records.rows ++ (payload L.js context items).map (·.record) :=
    plain_runs hrun (tracking_true ▸ wp_writeBatch hnodup hnew)
  refine ⟨by rw [hrows]; simp [payload], fun send hsend => ?_⟩
  have hmem : (entryFor context send).record ∈ s'.disk.records.rows := by
    rw [hrows]
    exact List.mem_append_right _ (List.mem_map_of_mem (List.mem_map_of_mem hsend))
  rw [Table.mem_find hmem]
  rfl

theorem distinct_iff (L : Loop) (context : OutboundContext) (hids : (items.map keyOf).Nodup) :
    (Distinct L context items ↔ NoClash (sendsOf L.js context items)) ∧
    ((items.map fun item => (item.conversationId, item.messageId)).Nodup → Distinct L context items) := by
  have hpayload : (payload L.js context items).map (·.record.id) =
      (sendsOf L.js context items).map fun send => (entryFor context send).record.id := List.map_map
  have hiff := @ids_nodup_iff context (sendsOf L.js context items) (own_nodup hids)
  rw [← hpayload] at hiff
  refine ⟨⟨fun h => hiff.1 h.keys, fun h => written_of_nodup (hiff.2 h)⟩, fun hall => ?_⟩
  refine written_of_nodup (hiff.2 fun one hone other hother hkind hconv hid => hkind ?_)
  have := List.inj_on_of_nodup_map (own_nodup hall (J := L.js)) hone hother
    (by simp only [hconv, hid])
  rw [this]

/-! ## An import, and one that clashes -/

def desk : Channel := { kind := "whatsapp", account := "desk" }

def deskLoop : Loop :=
  { oneLoop desk { channels := [desk] } with
    js := { plainJs with
      parse := fun text =>
        [("2026-03-01T10:00:00Z", 1772359200000), ("2026-03-01T11:00:00Z", 1772362800000)].lookup text } }

instance (q : Ask) (a : q.Answer) (w : World) : Decidable (deskLoop.outside q a w) :=
  inferInstanceAs (Decidable True)

def ledger : OutboundContext := { agent := "agent", account := "desk" }

def sendOf (kind : SourceKind) (messageId timestamp text : String) : OutboundItem :=
  { kind, messageId, conversationId := "desk:c", chatKey := "c", timestamp := some timestamp, text }

/-- A capture, and a turn an hour later. -/
def hourApart (turnId : String) : List OutboundItem :=
  [sendOf .event "7" "2026-03-01T10:00:00Z" "yes", sendOf .turn turnId "2026-03-01T11:00:00Z" "no"]

/-- The store that the first import leaves. -/
def imported (turnId : String) : Option World :=
  match Prog.finishWith (𝔖 := sig deskLoop) (Given.answer {}) 0
      (writeOutbound deskLoop ledger (hourApart turnId)) {} with
  | some (.ok _, s') => some s'
  | _ => none

theorem imported_runs {turnId : String} (h : imported turnId = some s') :
    Prog.Runs (writeOutbound deskLoop ledger (hourApart turnId)) {} (.ok ()) s' := by
  unfold imported at h
  split at h
  · rename_i hrun
    cases h
    exact Prog.finishWith_runs _ hrun
  · cases h

theorem two_written : ∃ s', Prog.Runs (writeOutbound deskLoop ledger (hourApart "8")) {} (.ok ()) s' ∧
    s'.disk.records.rows.length = 2 ∧ Distinct deskLoop ledger (hourApart "8") := by
  have hrun : (imported "8").isSome = true := by decide +kernel
  obtain ⟨s', hs'⟩ := Option.isSome_iff_exists.1 hrun
  have hdistinct := (@distinct_iff (hourApart "8") deskLoop ledger (by decide +kernel)).2 (by decide +kernel)
  have hsends : (sendsOf deskLoop.js ledger (hourApart "8")).length = 2 := by decide +kernel
  have hwritten := (hdistinct.written {} s' (fun _ _ => rfl) (imported_runs hs')).1
  rw [hsends] at hwritten
  exact ⟨s', imported_runs hs', hwritten, hdistinct⟩

theorem body_lost : ((hourApart "7").map keyOf).Nodup ∧ ¬ Distinct deskLoop ledger (hourApart "7") ∧
    ∃ s', Prog.Runs (writeOutbound deskLoop ledger (hourApart "7")) {} (.ok ()) s' ∧
      s'.disk.records.rows.map (·.body) = ["yes"] := by
  refine ⟨by decide +kernel, fun h => ?_, ?_⟩
  · have hkeys := h.keys
    revert hkeys
    decide +kernel
  · have hrun : (imported "7").any (fun s' => s'.disk.records.rows.map (·.body) = ["yes"]) = true := by
      decide +kernel
    obtain ⟨s', hs', hbody⟩ := (Option.any_eq_true _ _).1 hrun
    exact ⟨s', imported_runs hs', by simpa using hbody⟩

end CarbonRuntime.Bugs.ClashingSend
