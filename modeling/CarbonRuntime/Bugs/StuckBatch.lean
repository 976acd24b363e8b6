import CarbonRuntime.Adapters.Telegram.NoLoss

/-!
# A batch that is handed over forever

The Telegram worker asks for no more updates until the stored offset is past the batch it
handed over (adapters/telegram/live.ts:277-283), and the offset moves only when an item is
consumed. The loop consumes what `listPending` answers (runtime/loop.ts:1174-1213), and an item
below its chat's cursor is not answered. Where the last item of a batch is one of those, its
capture returns and the offset stays below it: the worker waits, hands the batch over again, and
the next capture does the same. `consume` says of an update without a chat that it "still has to
move the offset, or it is met forever" (index.ts:197-205).

Counterexample: the process dies between the capture of a message and its consumption.
-/

open CarbonRuntime.Core CarbonRuntime.Stream

namespace CarbonRuntime.Bugs.StuckBatch

open Store Adapters Adapters.Telegram

variable {L : Loop} {B : Bot} {J : Js} {d d' : Disk} {x : Item} {items : List Item} {ids : List Nat}
  {σ σ' : State} {e : Telegram.Event} {w : Worker} {s s' : World}

/-- The offset is past the batch. -/
def Passed (B : Bot) (d : Disk) (items : List Item) : Prop := ∀ x ∈ items, idOf x < floor B d

/-- Each item is below the offset already, or not above one that is pending. -/
def Movable (B : Bot) (J : Js) (d : Disk) (items : List Item) : Prop :=
  ∀ x ∈ items, idOf x < floor B d ∨ ∃ y ∈ listPending B J d items, idOf x ≤ idOf y

instance : Decidable (Passed B d items) := inferInstanceAs (Decidable (∀ x ∈ items, _))

instance : Decidable (Movable B J d items) := inferInstanceAs (Decidable (∀ x ∈ items, _))

/-! ## Where the offset comes to -/

theorem idOf_counted (h : x.update.Counted) : x.update.updateId = some (idOf x) ∧ idOf x < 2 ^ 53 := by
  obtain ⟨id, hid, hlt⟩ := h
  rw [idOf, hid]
  exact ⟨rfl, hlt⟩

theorem consuming_floor (hm : Marked B d ids) (hx : x.update.Counted)
    (h : (adapter B J).consuming J x d = (.ok (), d')) :
    Marked B d' (idOf x :: ids) ∧ ∀ i, i < floor B d' ↔ i < floor B d ∨ i ≤ idOf x := by
  obtain ⟨hid, hlt⟩ := idOf_counted hx
  have hw := consuming_watermark hid h
  split at hw
  · rename_i hpast
    have hcons := hm.consume hlt (.inr ⟨hpast, hw⟩)
    refine ⟨hcons.1, fun i => ?_⟩
    have hle := hcons.2
    rw [floor, floor, nextOffset_of_some hlt hw, Option.getD_some] at hle ⊢
    omega
  · rename_i hnot
    refine ⟨(hm.mono (fun _ => List.mem_cons_of_mem _) hw).1, fun i => ?_⟩
    have hfloor : floor B d' = floor B d := by
      rw [floor, floor, nextOffset_eq, nextOffset_eq, hw]
    -- The watermark is not below the item.
    rcases hm with hm | ⟨j, -, hj, hm⟩
    · rw [hm] at hnot
      exact absurd rfl hnot
    · rw [hm, past_offset hlt hj] at hnot
      rw [hfloor, floor, nextOffset_of_some hj hm, Option.getD_some]
      omega

theorem consumed_floor : ∀ {pending : List Item} {d d' : Disk} {ids : List Nat}, Marked B d ids →
    (∀ x ∈ pending, x.update.Counted) →
      Task.each ((adapter B J).consuming J) pending d = (.ok (), d') →
        ∀ i, i < floor B d' ↔ i < floor B d ∨ ∃ y ∈ pending, i ≤ idOf y := by
  intro pending
  induction pending with
  | nil =>
    intro d d' ids _ _ h i
    cases h
    simp
  | cons x pending ih =>
    intro d d' ids hm hx h i
    rw [Task.each_cons] at h
    obtain ⟨_, d₁, h₁, h₂⟩ := Task.bind_ok h
    obtain ⟨hm₁, hone⟩ := consuming_floor hm (hx x List.mem_cons_self) h₁
    rw [ih hm₁ (fun y hy => hx y (List.mem_cons_of_mem _ hy)) h₂ i, hone i, or_assoc]
    simp only [List.mem_cons, exists_eq_or_imp]

/-- A capture that returns puts the offset past what was pending. -/
theorem capture_floor {listed at_ : Int} (hm : Marked B d ids) (hx : ∀ x ∈ items, x.update.Counted)
    (h : (adapter B J).capture J listed at_ items d = (.ok (), d')) (i : Nat) :
    i < floor B d' ↔ i < floor B d ∨ ∃ y ∈ listPending B J d items, i ≤ idOf y := by
  have hpending : ∀ x ∈ listPending B J d items, x.update.Counted :=
    fun x hmem => hx x (List.mem_of_mem_filter hmem)
  unfold Adapter.capture at h
  have hlist : (adapter B J).listPending d listed items = .ok (listPending B J d items) := rfl
  rw [hlist] at h
  dsimp only at h
  split at h
  · rename_i hempty
    cases h
    rw [List.isEmpty_iff.1 hempty]
    simp
  · split at h
    · cases h
    · rename_i batch hb
      obtain ⟨_, d₁, h₁, h₂⟩ := Task.bind_ok h
      obtain ⟨_, d₂, h₃, h₄⟩ := Task.bind_ok h₂
      have hput : putting J batch d = (.ok (), d₂) := by rw [putting, Task.bind_of_ok h₁, h₃]
      have hw : watermark B d₂ = watermark B d := by
        rw [← putting_watermark hb d, hput]
      obtain ⟨hm₂, -⟩ := hm.mono (fun _ hi => hi) hw
      have hfloor : floor B d₂ = floor B d := by rw [floor, floor, nextOffset_eq, nextOffset_eq, hw]
      rw [consumed_floor hm₂ hpending h₄ i, hfloor]

/-! ## What the worker waits for -/

theorem foldl_highest (n : Nat) : ∀ (l : List Item) (a : Nat),
    l.foldl (fun highest y => max highest (idOf y)) a < n ↔ a < n ∧ ∀ y ∈ l, idOf y < n := by
  intro l
  induction l with
  | nil => simp
  | cons y l ih =>
    intro a
    rw [List.foldl_cons, ih, Nat.max_lt]
    simp only [List.mem_cons, forall_eq_or_imp, and_assoc]

/-- The worker goes on where the offset is past the batch. -/
theorem waits_iff (hne : items ≠ []) (hw : w.highest = highestOf items none) :
    w.waits (nextOffset B d) = false ↔ Passed B d items := by
  cases items with
  | nil => exact absurd rfl hne
  | cons x items =>
    have hlt := foldl_highest (floor B d) items (idOf x)
    rw [Worker.waits, hw, Passed, highestOf]
    dsimp only
    cases ho : nextOffset B d with
    | none =>
      have hzero : floor B d = 0 := by rw [floor, ho, Option.getD_none]
      rw [hzero]
      exact iff_of_false (by simp) fun h => absurd (h x List.mem_cons_self) (Nat.not_lt_zero _)
    | some offset =>
      rw [floor, ho, Option.getD_some] at hlt ⊢
      rw [decide_eq_false_iff_not, Nat.not_le, hlt, List.forall_mem_cons]

/-- `highest` is that of the batch that was handed over. -/
def Marks (σ : State) : Prop :=
  ∀ w, σ.worker = some w → w.items ≠ [] → w.highest = highestOf w.items none

theorem marks_step (hs : Marks σ) (st : Step L B σ e σ') : Marks σ' := by
  cases st with
  | boot _ =>
    intro w hw
    cases hw
    simp
  | turn hw _ _ =>
    intro w' hw' hne
    cases hw'
    have := hs _ hw hne
    exact this
  | @answer w offset updates receivedAt outcome hw _ _ =>
    intro w' hw' hne
    cases hw'
    cases outcome with
    | again => exact hs w hw hne
    | failed => exact hs w hw hne
    | settled media =>
      dsimp only [Worker.told] at hne ⊢
      cases hi : hydrated media (retained offset (remember receivedAt w.seen updates)) with
      | nil => exact absurd hi hne
      | cons x items => rfl
  | lost hw _ =>
    intro w' hw' hne
    cases hw'
    have := hs _ hw hne
    exact this
  | die =>
    intro w hw
    cases hw
  | cutWriting _ _ _ hwk | cutConsuming _ _ hwk =>
    rcases hwk with rfl | rfl
    · intro w hw
      cases hw
    · exact hs
  | _ => exact hs

theorem marks (h : (system L B).Reachable σ) : Marks σ := by
  have hind : (system L B).Inductive Marks := by
    refine ⟨fun σ hσ w hw => ?_, fun _ _ _ hs st => marks_step hs st⟩
    rw [show σ = {} from hσ] at hw
    cases hw
  exact hind.reachable σ h

/-- Wherever a run has come, a capture of the batch the loop was handed that returns puts the
offset past the batch exactly where each of its items is below the offset already or not above
one that is pending; and exactly then the worker drops the batch and asks for more. -/
theorem passed_iff (h : (system L B).Reachable σ) (hl : σ.loop = .handed items)
    (hs : s.disk = σ.disk) (hr : Prog.Runs (captureItems L (adapter B L.js) items) s (.ok ()) s') :
    (Passed B s'.disk items ↔ Movable B L.js σ.disk items) ∧
      (Passed B s'.disk items ↔ dropConfirmed (nextOffset B s'.disk) items = []) ∧
      ∀ w, σ.worker = some w → w.items = items → items ≠ [] →
        (w.waits (nextOffset B s'.disk) = false ↔ Passed B s'.disk items) := by
  obtain ⟨listed, at_, hc⟩ := captureItems_runs hr
  have hheld := held h
  have hcounted : ∀ x ∈ items, x.update.Counted := by
    have := hheld.inHand
    rwa [hl] at this
  rw [hs] at hc
  have hfloor := capture_floor hheld.marked hcounted hc
  refine ⟨forall₂_congr fun x _ => hfloor (idOf x), ?_, fun w hw hitems hne => ?_⟩
  · rw [dropConfirmed, List.filter_eq_nil_iff, Passed]
    refine forall₂_congr fun x _ => ?_
    rw [unconfirmed_iff, Nat.not_le]
    rfl
  · subst hitems
    exact waits_iff hne (marks h w hw hne)

/-! ## The batch that is stuck -/

/-- The process died once the message was captured, and was started again. -/
def stuck (loop : Capturing) : State := { handed5 captured5 loop with answered := [5, 5] }

theorem stuck_reachable : (system chatLoop bot).Reachable (stuck .idle) := by
  have h₁ := captured5_reachable.step Step.die
  have h₂ := h₁.step (Step.boot rfl)
  have hoffset : nextOffset bot captured5 = none := by decide +kernel
  have h₃ := h₂.step (Step.turn rfl rfl rfl)
  have h₃ : (system chatLoop bot).Reachable { handed5 captured5 .idle with
      worker := some { asking := some (nextOffset bot captured5) } } := h₃
  rw [hoffset] at h₃
  have h₄ := h₃.step (Step.answers [hello 5] "0" (.settled fun _ => none)
    { seen := [heard 5], highest := some 5, items := [heard 5], shown := [5] } rfl rfl (by decide)
    (by decide +kernel))
  exact h₄

/-- The batch is handed over, its capture returns and leaves the offset below it; the worker
waits, and what it hands over next is the batch. -/
theorem batch_stuck : (system chatLoop bot).Reachable (stuck (.handed [heard 5])) ∧
    (∃ d', Does chatLoop (captureItems chatLoop (adapter bot plainJs) [heard 5]) captured5 d' ∧
      ¬ Passed bot d' [heard 5] ∧
      ∀ w, (stuck .idle).worker = some w → w.waits (nextOffset bot d') = true) ∧
    Step chatLoop bot (stuck (.handed [heard 5])) .skip (stuck .idle) ∧
    Step chatLoop bot (stuck .idle) .hand (stuck (.handed [heard 5])) := by
  have hhand := Step.hand (L := chatLoop) (B := bot) (σ := stuck .idle) rfl rfl
  refine ⟨stuck_reachable.step hhand, ⟨_, does_ranTo (by decide +kernel),
    by decide +kernel, ?_⟩, .skip rfl (by decide +kernel), hhand⟩
  rintro w ⟨⟩
  decide +kernel

/-- The same message, where no death comes between. -/
theorem passed_run : ∃ d', Does chatLoop (captureItems chatLoop (adapter bot plainJs) [heard 5]) {} d' ∧
    Passed bot d' [heard 5] := by
  obtain ⟨s, s', _, hr, hs, hd⟩ := does_ranTo
    (p := captureItems chatLoop (adapter bot plainJs) [heard 5]) (d := {}) (by decide +kernel)
  refine ⟨_, ⟨s, s', (), hr, hs, rfl⟩, ?_⟩
  exact (passed_iff handed5_reachable rfl hs hr).1.2 (by decide +kernel)

end CarbonRuntime.Bugs.StuckBatch
