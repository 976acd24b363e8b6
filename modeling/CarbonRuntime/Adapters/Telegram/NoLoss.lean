import CarbonRuntime.Adapters.Telegram.Progress
import CarbonRuntime.Runtime.Process
import Mathlib.Algebra.GroupWithZero.Nat

/-!
# No update is lost

The server forgets what is below the offset it is asked for, and the worker asks for one past
the last update the loop consumed. `Held` is what holds of the channel whatever the server
answers, wherever a death falls and however the loop keeps pace: the offset on disk is one past
a consumed update, nothing was asked for past it, and what is at or past it is with the server
and, once shown, with the worker.
-/

open CarbonRuntime.Core CarbonRuntime.Stream

namespace CarbonRuntime.Adapters.Telegram

open Store

variable {L : Loop} {B : Bot} {d d' : Disk} {x : Item} {σ σ' : State} {e : Event} {w : Worker}

/-! ## Offsets -/

/-- The server numbers its updates, in numbers JavaScript holds. -/
def Update.Counted (u : Update) : Prop := ∃ id, u.updateId = some id ∧ id < 2 ^ 53

/-- The least update that is not confirmed. -/
def floor (B : Bot) (d : Disk) : Nat := (nextOffset B d).getD 0

/-- The watermark is at one of the updates. -/
def Marked (B : Bot) (d : Disk) (ids : List Nat) : Prop :=
  watermark B d = none ∨ ∃ id ∈ ids, id < 2 ^ 53 ∧ watermark B d = some (offsetPositionOf id)

theorem nextOffset_eq (B : Bot) (d : Disk) :
    nextOffset B d = ((watermark B d).bind Padded.number).map (· + 1) := rfl

theorem nextOffset_of_some {id : Nat} (hid : id < 2 ^ 53)
    (h : watermark B d = some (offsetPositionOf id)) : nextOffset B d = some (id + 1) := by
  rw [nextOffset_eq, h, Option.bind_some, offsetPositionOf, Padded.number_pad (by omega) (by omega)]
  rfl

theorem past_offset {i j : Nat} (hi : i < 2 ^ 53) (hj : j < 2 ^ 53) :
    past (offsetPositionOf i) (some (offsetPositionOf j)) = true ↔ j < i := by
  rw [← Padded.pad_lt_iff (w := 16) (by omega) (by omega) (by omega)]
  simp only [past, offsetPositionOf, Option.any_some, Bool.not_eq_true']
  exact decide_eq_false_iff_not.trans String.not_le

theorem Marked.offset {ids : List Nat} {n : Nat} (h : Marked B d ids) (hn : nextOffset B d = some n) :
    ∃ id ∈ ids, n = id + 1 := by
  rcases h with h | ⟨id, hid, hlt, h⟩
  · rw [nextOffset_eq, h] at hn
    cases hn
  · rw [nextOffset_of_some hlt h, Option.some.injEq] at hn
    exact ⟨id, hid, hn.symm⟩

theorem Marked.mono {ids ids' : List Nat} (h : Marked B d ids) (hids : ∀ i ∈ ids, i ∈ ids')
    (hw : watermark B d' = watermark B d) : Marked B d' ids' ∧ floor B d ≤ floor B d' := by
  have hfloor : floor B d' = floor B d := by
    rw [floor, floor, nextOffset_eq, nextOffset_eq, hw]
  refine ⟨?_, by omega⟩
  rcases h with h | ⟨id, hid, hlt, h⟩
  · exact .inl (hw.trans h)
  · exact .inr ⟨id, hids id hid, hlt, hw.trans h⟩

/-- Consuming an update, to its end or not, moves the offset up or leaves it. -/
theorem Marked.consume {ids : List Nat} {id : Nat} (h : Marked B d ids) (hid : id < 2 ^ 53)
    (hw : watermark B d' = watermark B d ∨ past (offsetPositionOf id) (watermark B d) = true ∧
      watermark B d' = some (offsetPositionOf id)) :
    Marked B d' (id :: ids) ∧ floor B d ≤ floor B d' := by
  rcases hw with hw | ⟨hpast, hw⟩
  · exact h.mono (fun _ => List.mem_cons_of_mem _) hw
  · refine ⟨.inr ⟨id, List.mem_cons_self, hid, hw⟩, ?_⟩
    rw [floor, floor, nextOffset_of_some hid hw]
    rcases h with h | ⟨j, -, hj, h⟩
    · rw [nextOffset_eq, h]
      exact Nat.zero_le _
    · rw [h, past_offset hid hj] at hpast
      rw [nextOffset_of_some hj h]
      simp only [Option.getD_some]
      omega

/-- The item counts as consumed where the offset has moved. -/
theorem Marked.cut {ids : List Nat} {id : Nat} (h : Marked B d ids) (hid : id < 2 ^ 53)
    (hw : watermark B d' = watermark B d ∨ past (offsetPositionOf id) (watermark B d) = true ∧
      watermark B d' = some (offsetPositionOf id)) :
    Marked B d' (if nextOffset B d' = nextOffset B d then ids else id :: ids) ∧
      floor B d ≤ floor B d' := by
  refine ⟨?_, (h.consume hid hw).2⟩
  split
  · rename_i hsame
    rcases hw with hw | ⟨-, hw⟩
    · exact (h.mono (fun _ hi => hi) hw).1
    · rw [nextOffset_of_some hid hw] at hsame
      obtain ⟨j, hj, he⟩ := h.offset hsame.symm
      obtain rfl : id = j := by omega
      exact .inr ⟨id, hj, hid, hw⟩
  · exact (h.consume hid hw).1

/-! ## What the worker keeps -/

theorem unconfirmed_iff (offset : Option Nat) (x : Item) :
    unconfirmed offset x = true ↔ offset.getD 0 ≤ idOf x := by
  cases offset <;> simp [unconfirmed]

theorem mem_forgets {offset : Option Nat} {queue : List Update} {u : Update} :
    u ∈ forgets offset queue ↔ u ∈ queue ∧ offset.getD 0 ≤ u.updateId.getD 0 := by
  cases offset <;> simp [forgets]

theorem mem_retained {offset : Option Nat} {seen : List Item} :
    x ∈ retained offset seen ↔ x ∈ seen ∧ offset.getD 0 ≤ idOf x := by
  rw [retained, List.mem_mergeSort, List.mem_filter, unconfirmed_iff]

theorem mem_remember {receivedAt : String} : ∀ {updates : List Update} {seen : List Item},
    x ∈ remember receivedAt seen updates → x ∈ seen ∨ x.update ∈ updates := by
  intro updates
  induction updates with
  | nil => exact fun h => .inl h
  | cons u updates ih =>
    intro seen h
    rw [remember, List.foldl_cons] at h
    rcases ih h with h | h
    · split at h
      · exact .inl h
      · rcases List.mem_append.1 h with h | h
        · exact .inl h
        · rw [List.mem_singleton.1 h]
          exact .inr List.mem_cons_self
    · exact .inr (List.mem_cons_of_mem _ h)

/-- What was seen stays seen, and what an answer shows is seen. -/
theorem seen_remember (receivedAt : String) {i : Nat} : ∀ (updates : List Update) {seen : List Item},
    ((∃ x ∈ seen, idOf x = i) ∨ ∃ u ∈ updates, u.updateId.getD 0 = i) →
      ∃ x ∈ remember receivedAt seen updates, idOf x = i := by
  intro updates
  induction updates with
  | nil =>
    rintro seen (h | ⟨u, hu, -⟩)
    · exact h
    · cases hu
  | cons u updates ih =>
    intro seen h
    rw [remember, List.foldl_cons]
    refine ih ?_
    rcases h with ⟨x, hx, hi⟩ | ⟨v, hv, hi⟩
    · refine .inl ⟨x, ?_, hi⟩
      split
      · exact hx
      · exact List.mem_append_left _ hx
    · rcases List.mem_cons.1 hv with rfl | hv
      · refine .inl ?_
        split
        · rename_i hany
          obtain ⟨x, hx, hid⟩ := List.any_eq_true.1 hany
          refine ⟨x, hx, ?_⟩
          rw [idOf, of_decide_eq_true hid, hi]
        · exact ⟨itemFor receivedAt v, by simp, hi⟩
      · exact .inr ⟨v, hv, hi⟩

theorem mem_hydrated {media : Nat → Option (List Attachment)} {items : List Item} :
    x ∈ hydrated media items ↔ ∃ y ∈ items, { y with attachments := media (idOf y) } = x :=
  List.mem_map

/-! ## The invariant -/

def Capturing.items : Capturing → List Item
  | .idle => []
  | .handed items => items
  | .consuming items => items

structure Held (B : Bot) (σ : State) : Prop where
  marked : Marked B σ.disk σ.consumed
  queued : ∀ u ∈ σ.queue, u.Counted
  seen : ∀ w, σ.worker = some w → ∀ x ∈ w.seen, x.update.Counted
  batch : ∀ w, σ.worker = some w → ∀ x ∈ w.items, x.update.Counted
  inHand : ∀ x ∈ σ.loop.items, x.update.Counted
  asking : ∀ w n, σ.worker = some w → w.asking = some (some n) →
    n ≤ floor B σ.disk ∧ ∃ id ∈ σ.consumed, n ≤ id + 1
  asked : ∀ n ∈ σ.asked, ∃ id ∈ σ.consumed, n ≤ id + 1
  /-- What the server showed and may be asked for again is with the server. -/
  answered : ∀ i ∈ σ.answered, floor B σ.disk ≤ i → ∃ u ∈ σ.queue, u.updateId = some i
  /-- What the worker was shown and may hand over is with the worker. -/
  shown : ∀ w, σ.worker = some w → ∀ i ∈ w.shown, floor B σ.disk ≤ i → ∃ x ∈ w.seen, idOf x = i

theorem held_init : Held B {} := by
  refine ⟨.inl rfl, ?_, ?_, ?_, ?_, ?_, ?_, ?_, ?_⟩ <;> simp [Capturing.items]

/-- A run that ends has got to its end. -/
theorem Does.breaks {α : Type} {p : Program L α} (h : Does L p d d') : Breaks L p d d' := by
  obtain ⟨s, s', a, hr, hs, hs'⟩ := h
  exact ⟨s, s', _, hr, hs, hs'⟩

section Steps
variable (hs : Held B σ) (st : Step L B σ e σ')
include hs st

/-- The offset on disk goes up only, to one past a consumed update. -/
theorem marked_step : Marked B σ'.disk σ'.consumed ∧ floor B σ.disk ≤ floor B σ'.disk ∧
    ∀ i ∈ σ.consumed, i ∈ σ'.consumed := by
  have hsame := hs.marked.mono (fun _ h => h) (rfl : watermark B σ.disk = _)
  have hwrite : ∀ {items : List Item} {now : String} {batch : Payload} {d : Disk},
      payloadOf B L.js σ.disk now items = .ok batch → Breaks L (putItems L batch) σ.disk d →
        Marked B d σ.consumed ∧ floor B σ.disk ≤ floor B d := by
    rintro items now batch d hb ⟨s, s', p, hp, hd, rfl⟩
    exact hs.marked.mono (fun _ h => h) (hd ▸ putItems_watermark hb hp)
  have hconsume : ∀ {x : Item} {d : Disk}, x.update.Counted →
      Breaks L (consumeItem L (adapter B L.js) x) σ.disk d → idOf x < 2 ^ 53 ∧
        (watermark B d = watermark B σ.disk ∨
          past (offsetPositionOf (idOf x)) (watermark B σ.disk) = true ∧
            watermark B d = some (offsetPositionOf (idOf x))) := by
    rintro x d ⟨id, hid, hlt⟩ ⟨s, s', p, hp, hd, rfl⟩
    have : idOf x = id := by rw [idOf, hid, Option.getD_some]
    rw [this]
    exact ⟨hlt, hd ▸ consumeItem_watermark hid hp⟩
  cases st with
  | write _ hb hd => exact ⟨(hwrite hb hd.breaks).1, (hwrite hb hd.breaks).2, fun _ h => h⟩
  | consume hl hd =>
    have hx := hs.inHand _ (by rw [hl]; exact List.mem_cons_self)
    obtain ⟨hid, hw⟩ := hconsume hx hd.breaks
    have := hs.marked.consume hid hw
    exact ⟨this.1, this.2, fun _ => List.mem_cons_of_mem _⟩
  | other hd =>
    have := hs.marked.mono (fun _ h => h) (show watermark B _ = watermark B σ.disk from
      congrArg Cursors.message hd)
    exact ⟨this.1, this.2, fun _ h => h⟩
  | cutWriting _ hb hd _ => exact ⟨(hwrite hb hd).1, (hwrite hb hd).2, fun _ h => h⟩
  | cutConsuming hl hd _ =>
    have hx := hs.inHand _ (by rw [hl]; exact List.mem_cons_self)
    obtain ⟨hid, hw⟩ := hconsume hx hd
    have := hs.marked.cut hid hw
    refine ⟨this.1, this.2, fun i hi => ?_⟩
    dsimp only
    split
    · exact hi
    · exact List.mem_cons_of_mem _ hi
  | _ => exact ⟨hsame.1, hsame.2, fun _ h => h⟩

theorem queued_step : ∀ u ∈ σ'.queue, u.Counted := by
  have h := hs.queued
  cases st with
  | arrive hid hlt =>
    intro u hu
    rcases List.mem_append.1 hu with hu | hu
    · exact h u hu
    · rw [List.mem_singleton.1 hu]
      exact ⟨_, hid, hlt⟩
  | answer _ _ _ => exact fun u hu => h u (mem_forgets.1 hu).1
  | lost _ _ => exact fun u hu => h u (mem_forgets.1 hu).1
  | _ => exact h

/-- What an answer shows was with the server. -/
theorem seen_step : ∀ w, σ'.worker = some w → ∀ x ∈ w.seen, x.update.Counted := by
  have h := hs.seen
  cases st with
  | boot _ =>
    intro w hw
    cases hw
    simp
  | turn hw _ _ =>
    intro w' hw'
    cases hw'
    exact fun x hx => h _ hw x (List.mem_of_mem_filter hx)
  | @answer w offset updates receivedAt outcome hw _ hu =>
    intro w' hw' x hx
    cases hw'
    have hx : x ∈ remember receivedAt w.seen updates := by
      cases outcome <;> exact hx
    rcases mem_remember hx with hx | hx
    · exact h w hw x hx
    · exact hs.queued _ (mem_forgets.1 (hu _ hx)).1
  | lost hw _ =>
    intro w' hw'
    cases hw'
    exact fun x hx => h _ hw x hx
  | die =>
    intro w hw
    cases hw
  | cutWriting _ _ _ hwk | cutConsuming _ _ hwk =>
    rcases hwk with rfl | rfl
    · intro w hw
      cases hw
    · exact h
  | _ => exact h

theorem batch_step : ∀ w, σ'.worker = some w → ∀ x ∈ w.items, x.update.Counted := by
  have h := hs.batch
  have hseen := seen_step hs st
  cases st with
  | boot _ =>
    intro w hw
    cases hw
    simp
  | turn hw _ _ =>
    intro w' hw'
    cases hw'
    exact fun x hx => h _ hw x hx
  | @answer w offset updates receivedAt outcome hw _ hu =>
    intro w' hw' x hx
    have hseen := hseen _ rfl
    cases hw'
    cases outcome with
    | settled media =>
      obtain ⟨y, hy, rfl⟩ := mem_hydrated.1 (show x ∈ hydrated media
        (retained offset (remember receivedAt w.seen updates)) from hx)
      exact hseen y (mem_retained.1 hy).1
    | again => exact h w hw x hx
    | failed => exact h w hw x hx
  | lost hw _ =>
    intro w' hw'
    cases hw'
    exact fun x hx => h _ hw x hx
  | die =>
    intro w hw
    cases hw
  | cutWriting _ _ _ hwk | cutConsuming _ _ hwk =>
    rcases hwk with rfl | rfl
    · intro w hw
      cases hw
    · exact h
  | _ => exact h

theorem inHand_step : ∀ x ∈ σ'.loop.items, x.update.Counted := by
  have h := hs.inHand
  cases st with
  | hand hw _ => exact hs.batch _ hw
  | write hl _ _ =>
    rw [hl] at h
    exact fun x hx => h x (List.mem_of_mem_filter hx)
  | consume hl _ =>
    rw [hl] at h
    exact fun x hx => h x (List.mem_cons_of_mem _ hx)
  | arrive _ _ | turn _ _ _ | answer _ _ _ | lost _ _ | other _ => exact h
  | _ => simp [Capturing.items]

theorem asking_step : ∀ w n, σ'.worker = some w → w.asking = some (some n) →
    n ≤ floor B σ'.disk ∧ ∃ id ∈ σ'.consumed, n ≤ id + 1 := by
  have h : ∀ w n, σ.worker = some w → w.asking = some (some n) →
      n ≤ floor B σ'.disk ∧ ∃ id ∈ σ'.consumed, n ≤ id + 1 := by
    intro w n hw hn
    obtain ⟨-, hle, hids⟩ := marked_step hs st
    obtain ⟨hfloor, id, hid, hlt⟩ := hs.asking w n hw hn
    exact ⟨by omega, id, hids id hid, hlt⟩
  have hnone : ∀ w n, (none : Option Worker) = some w → w.asking = some (some n) →
      n ≤ floor B σ'.disk ∧ ∃ id ∈ σ'.consumed, n ≤ id + 1 := by
    intro w n hw
    cases hw
  cases st with
  | boot _ =>
    intro w n hw hn
    cases hw
    cases hn
  | turn _ _ _ =>
    intro w n hw hn
    cases hw
    have hn : nextOffset B σ.disk = some n := by simpa using hn
    obtain ⟨id, hid, rfl⟩ := hs.marked.offset hn
    exact ⟨by rw [floor, hn, Option.getD_some], id, hid, by omega⟩
  | @answer w offset updates receivedAt outcome hw ha _ =>
    intro w' n hw' hn
    cases hw'
    cases outcome with
    | again => exact h w n hw hn
    | settled media => cases hn
    | failed => cases hn
  | lost _ _ =>
    intro w n hw hn
    cases hw
    cases hn
  | die => exact hnone
  | cutWriting _ _ _ hwk | cutConsuming _ _ hwk =>
    rcases hwk with rfl | rfl
    · exact hnone
    · exact h
  | _ => exact h

theorem asked_step : ∀ n ∈ σ'.asked, ∃ id ∈ σ'.consumed, n ≤ id + 1 := by
  have h : ∀ n ∈ σ.asked, ∃ id ∈ σ'.consumed, n ≤ id + 1 := by
    intro n hn
    obtain ⟨id, hid, hle⟩ := hs.asked n hn
    exact ⟨id, (marked_step hs st).2.2 id hid, hle⟩
  cases st with
  | answer hw ha _ | lost hw ha =>
    intro n hn
    rcases List.mem_append.1 hn with hn | hn
    · exact (hs.asking _ n hw (by rw [ha, Option.mem_toList.1 hn])).2
    · exact h n hn
  | _ => exact h

theorem answered_step : ∀ i ∈ σ'.answered, floor B σ'.disk ≤ i →
    ∃ u ∈ σ'.queue, u.updateId = some i := by
  have hkept : ∀ i ∈ σ.answered, floor B σ'.disk ≤ i → ∃ u ∈ σ.queue, u.updateId = some i :=
    fun i hi hle => hs.answered i hi ((marked_step hs st).2.1.trans hle)
  -- An answered call asked for no more than the offset on disk.
  have hasks : ∀ {w offset}, σ.worker = some w → w.asking = some offset → ∀ i,
      floor B σ.disk ≤ i → (∃ u ∈ σ.queue, u.updateId = some i) →
        ∃ u ∈ forgets offset σ.queue, u.updateId = some i := by
    rintro w offset hw ha i hle ⟨u, hu, hid⟩
    refine ⟨u, mem_forgets.2 ⟨hu, ?_⟩, hid⟩
    rw [hid, Option.getD_some]
    cases offset with
    | none => exact Nat.zero_le _
    | some n => exact (hs.asking w n hw ha).1.trans hle
  cases st with
  | arrive _ _ =>
    intro i hi hle
    obtain ⟨u, hu, hid⟩ := hkept i hi hle
    exact ⟨u, List.mem_append_left _ hu, hid⟩
  | answer hw ha hu =>
    intro i hi hle
    rcases List.mem_append.1 hi with hi | hi
    · obtain ⟨u, hmem, rfl⟩ := List.mem_map.1 hi
      obtain ⟨id, hid, -⟩ := hs.queued u (mem_forgets.1 (hu u hmem)).1
      exact ⟨u, hu u hmem, by rw [hid, Option.getD_some]⟩
    · exact hasks hw ha i hle (hkept i hi hle)
  | lost hw ha => exact fun i hi hle => hasks hw ha i hle (hkept i hi hle)
  | _ => exact hkept

theorem shown_step : ∀ w, σ'.worker = some w → ∀ i ∈ w.shown, floor B σ'.disk ≤ i →
    ∃ x ∈ w.seen, idOf x = i := by
  have h : ∀ w, σ.worker = some w → ∀ i ∈ w.shown, floor B σ'.disk ≤ i →
      ∃ x ∈ w.seen, idOf x = i :=
    fun w hw i hi hle => hs.shown w hw i hi ((marked_step hs st).2.1.trans hle)
  have hnone : ∀ w, (none : Option Worker) = some w → ∀ i ∈ w.shown, floor B σ'.disk ≤ i →
      ∃ x ∈ w.seen, idOf x = i := by
    intro w hw
    cases hw
  cases st with
  | boot _ =>
    intro w hw
    cases hw
    simp
  | turn hw _ _ =>
    intro w' hw' i hi hle
    cases hw'
    obtain ⟨x, hx, rfl⟩ := h _ hw i hi hle
    exact ⟨x, List.mem_filter.2 ⟨hx, (unconfirmed_iff _ _).2 hle⟩, rfl⟩
  | @answer w offset updates receivedAt outcome hw _ _ =>
    intro w' hw' i hi hle
    cases hw'
    have hi : i ∈ w.shown ++ updates.map (·.updateId.getD 0) := by
      cases outcome <;> exact hi
    have : ∃ x ∈ remember receivedAt w.seen updates, idOf x = i := by
      refine seen_remember _ _ ?_
      rcases List.mem_append.1 hi with hi | hi
      · exact .inl (h w hw i hi hle)
      · exact .inr (List.mem_map.1 hi)
    cases outcome <;> exact this
  | lost hw _ =>
    intro w' hw'
    cases hw'
    exact fun x hx => h _ hw x hx
  | die => exact hnone
  | cutWriting _ _ _ hwk | cutConsuming _ _ hwk =>
    rcases hwk with rfl | rfl
    · exact hnone
    · exact h
  | _ => exact h

theorem held_step : Held B σ' :=
  ⟨(marked_step hs st).1, queued_step hs st, seen_step hs st, batch_step hs st, inHand_step hs st,
    asking_step hs st, asked_step hs st, answered_step hs st, shown_step hs st⟩

end Steps

theorem held (h : (system L B).Reachable σ) : Held B σ := by
  have hind : (system L B).Inductive (Held B) :=
    ⟨fun σ hσ => by rw [show σ = {} from hσ]; exact held_init, fun _ _ _ hs st => held_step hs st⟩
  exact hind.reachable σ h

/-- Nothing was asked for past what was consumed. What the server showed and may be asked for
again is with the server; what the running worker was shown it keeps, and the next batch it
settles carries it. -/
theorem nothing_lost (h : (system L B).Reachable σ) :
    (∀ n ∈ σ.asked, ∃ id ∈ σ.consumed, n ≤ id + 1) ∧
      (∀ i ∈ σ.answered, floor B σ.disk ≤ i →
        ∃ u ∈ forgets (nextOffset B σ.disk) σ.queue, u.updateId = some i) ∧
      ∀ w, σ.worker = some w → ∀ i ∈ w.shown, floor B σ.disk ≤ i →
        (∃ x ∈ retained (nextOffset B σ.disk) w.seen, idOf x = i) ∧
          ∀ updates receivedAt media σ',
            (system L B).step σ (.answer updates receivedAt (.settled media)) σ' →
              ∃ w', σ'.worker = some w' ∧ ∃ x ∈ w'.items, idOf x = i := by
  have hs := held h
  refine ⟨hs.asked, fun i hi hle => ?_, fun w hw i hi hle => ⟨?_, ?_⟩⟩
  · obtain ⟨u, hu, hid⟩ := hs.answered i hi hle
    exact ⟨u, mem_forgets.2 ⟨hu, by rw [hid]; exact hle⟩, hid⟩
  · obtain ⟨x, hx, rfl⟩ := hs.shown w hw i hi hle
    exact ⟨x, mem_retained.2 ⟨hx, hle⟩, rfl⟩
  · intro updates receivedAt media σ' st
    cases st with
    | @answer w' offset _ _ _ hw' ha _ =>
      cases hw.symm.trans hw'
      obtain ⟨x, hx, rfl⟩ := seen_remember receivedAt updates
        (.inl (hs.shown w hw i hi hle))
      have hasks : offset.getD 0 ≤ idOf x := by
        cases offset with
        | none => exact Nat.zero_le _
        | some n => exact (hs.asking w n hw ha).1.trans hle
      exact ⟨_, rfl, _, mem_hydrated.2 ⟨x, mem_retained.2 ⟨hx, hasks⟩, rfl⟩, rfl⟩

/-! ## A message after another -/

abbrev telegram : Channel := { kind := "telegram", account := "1" }

abbrev chatLoop : Loop := oneLoop telegram { channels := [telegram] }

def bot : Bot := { agent := "agent", account := "1" }

def hello (id : Nat) : Update :=
  { updateId := some id
    content := .message
      { messageId := id, chat := some { id := 7 }, date := some 0, body := "hello" } false false }

/-- The update as the worker holds it. -/
def heard (id : Nat) : Item := itemFor "0" (hello id)

/-- The disk after a run that ends. -/
def ranTo (p : Program chatLoop Unit) (d : Disk) : Disk :=
  ((Prog.after (Given.answer {}) p { disk := d }).map World.disk).getD {}

theorem does_ranTo {p : Program chatLoop Unit} {d : Disk}
    (h : (Prog.after (Given.answer {}) p { disk := d }).isSome = true) :
    Does chatLoop p d (ranTo p d) := by
  obtain ⟨s', hs⟩ := Option.isSome_iff_exists.1 h
  exact ⟨{ disk := d }, s', (), Prog.after_runs hs, rfl, by rw [ranTo, hs]; rfl⟩

def firstBatch : Payload := ((payloadOf bot plainJs {} "0" [heard 5]).toOption).getD {}

/-- The first message is captured. -/
def captured5 : Disk := ranTo (putItems chatLoop firstBatch) {}

/-- And consumed. -/
def consumed5 : Disk := ranTo (consumeItem chatLoop (adapter bot plainJs) (heard 5)) captured5

/-- The first message was shown and handed over. -/
def handed5 (d : Disk) (loop : Capturing) : State :=
  { queue := [hello 5], disk := d, loop, answered := [5]
    worker := some { seen := [heard 5], highest := some 5, items := [heard 5], shown := [5] } }

theorem Step.answers (updates : List Update) (receivedAt : String) (outcome : Outcome) (w' : Worker)
    {offset : Option Nat} (hw : σ.worker = some w) (ha : w.asking = some offset)
    (hu : ∀ u ∈ updates, u ∈ forgets offset σ.queue)
    (htold : w.told offset updates receivedAt outcome = w') :
    Step L B σ (.answer updates receivedAt outcome) { σ with
      queue := forgets offset σ.queue
      asked := offset.toList ++ σ.asked
      answered := updates.map (·.updateId.getD 0) ++ σ.answered
      worker := some w' } :=
  htold ▸ .answer hw ha hu

theorem handed5_reachable : (system chatLoop bot).Reachable (handed5 {} (.handed [heard 5])) := by
  have h₀ : (system chatLoop bot).Reachable {} := ⟨{}, [], rfl, .nil _⟩
  have h₁ := h₀.step (Step.arrive (u := hello 5) rfl (by decide))
  have h₂ := h₁.step (Step.boot rfl)
  have h₃ := h₂.step (Step.turn rfl rfl rfl)
  have h₄ := h₃.step (Step.answers [hello 5] "0" (.settled fun _ => none)
    { seen := [heard 5], highest := some 5, items := [heard 5], shown := [5] } rfl rfl (by decide) (by decide +kernel))
  have h₅ := h₄.step (Step.hand rfl rfl)
  exact h₅

theorem consumed5_ran :
    (Prog.after (Given.answer {}) (putItems chatLoop firstBatch) { disk := {} }).isSome = true ∧
    (Prog.after (Given.answer {}) (consumeItem chatLoop (adapter bot plainJs) (heard 5))
      { disk := captured5 }).isSome = true ∧
    nextOffset bot consumed5 = some 6 := by decide +kernel

theorem captured5_reachable :
    (system chatLoop bot).Reachable (handed5 captured5 (.consuming [heard 5])) := by
  have h := handed5_reachable.step (Step.write rfl
    (rfl : payloadOf bot plainJs {} "0" [heard 5] = .ok firstBatch) (does_ranTo consumed5_ran.1))
  exact h

/-- The first message is consumed, and the second is shown. -/
def shown6 : State :=
  { queue := [hello 6], disk := consumed5, asked := [6], answered := [6, 5], consumed := [5]
    worker := some
      { seen := [heard 6], highest := some 5, items := [heard 5], asking := some (some 6)
        shown := [5, 6] } }

theorem consumed5_offset : nextOffset bot consumed5 = some 6 := consumed5_ran.2.2

theorem shown6_reachable : (system chatLoop bot).Reachable shown6 := by
  have h₁ := captured5_reachable.step (Step.consume rfl (does_ranTo consumed5_ran.2.1))
  have h₁ : (system chatLoop bot).Reachable
    { handed5 consumed5 (.consuming []) with consumed := [5] } := h₁
  have h₂ := h₁.step (Step.consumed rfl)
  have h₃ := h₂.step (Step.turn rfl rfl (by decide +kernel))
  have h₃ : (system chatLoop bot).Reachable { handed5 consumed5 .idle with
      consumed := [5]
      worker := some
        { seen := dropConfirmed (nextOffset bot consumed5) [heard 5], highest := some 5
          items := [heard 5], asking := some (nextOffset bot consumed5), shown := [5] } } := h₃
  rw [consumed5_offset] at h₃
  have h₄ := h₃.step (Step.arrive (u := hello 6) rfl (by decide))
  have h₅ := h₄.step (Step.answers [hello 6] "0" .again
    { seen := [heard 6], highest := some 5, items := [heard 5], asking := some (some 6)
      shown := [5, 6] } rfl rfl (by decide) (by decide +kernel))
  exact h₅

theorem nothing_lost_run : (∃ id ∈ shown6.consumed, 6 ≤ id + 1) ∧
    (∃ u ∈ forgets (nextOffset bot consumed5) [hello 6], u.updateId = some 6) ∧
    ∃ x ∈ retained (nextOffset bot consumed5) [heard 6], idOf x = 6 := by
  obtain ⟨hasked, hanswered, hshown⟩ := nothing_lost shown6_reachable
  have hfloor : floor bot shown6.disk ≤ 6 := by
    rw [floor, show shown6.disk = consumed5 from rfl, consumed5_offset, Option.getD_some]
  exact ⟨hasked 6 (by decide), hanswered 6 (by decide) hfloor, (hshown _ rfl 6 (by decide) hfloor).1⟩

end CarbonRuntime.Adapters.Telegram
