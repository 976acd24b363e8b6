import CarbonRuntime.Core.LTS

/-!
# Media lanes (adapters/telegram/live.ts:94-133)

`Lanes` is a counting semaphore whose waiters leave the queue when their signal ends. A caller that was granted
a lane gives it once, in a `finally` (live.ts:477-486); a lane that is given goes straight to the first waiter.

**Results.** `inv_inductive`: what holds of the lanes in every run; `settled_run`: a waiter is settled once as
many lanes were given as wait before it, and one more.
-/

open CarbonRuntime.Core

namespace CarbonRuntime.Adapters.Telegram.MediaLanes

/-- `DOWNLOAD_CHAINS` -/
def downloadChains : Nat := 4

/-- A call of `take`, and its signal. -/
structure Waiter where
  id : Nat
  signal : Nat
deriving DecidableEq

structure Lanes where
  free : Nat := downloadChains
  queue : List Waiter := []
  /-- Those whose `abort` listener is on their signal. -/
  listening : List Waiter := []
deriving DecidableEq

/-- The lanes, and what is around them. -/
structure State where
  lanes : Lanes := {}
  /-- The signals that have ended. -/
  aborted : List Nat := []
  /-- The calls of `take`, the last one first. -/
  calls : List Waiter := []
  /-- The calls of a waiter's `resolve`, the last one first. -/
  resolved : List (Waiter × Bool) := []
  /-- The callers that were granted a lane and have not given it. -/
  held : List Waiter := []
deriving DecidableEq

def State.resolve (s : State) (w : Waiter) (granted : Bool) : State :=
  { s with
    resolved := (w, granted) :: s.resolved
    held := if granted then w :: s.held else s.held }

/-- mirrors live.ts:114-128 -/
def State.take (s : State) (w : Waiter) : State :=
  let s := { s with calls := w :: s.calls }
  if w.signal ∈ s.aborted then s.resolve w false
  else if 0 < s.lanes.free then
    { s with lanes := { s.lanes with free := s.lanes.free - 1 } }.resolve w true
  else
    { s with lanes := { s.lanes with queue := s.lanes.queue ++ [w], listening := s.lanes.listening ++ [w] } }

/-- mirrors live.ts:129-132 -/
def State.give (s : State) : State :=
  match s.lanes.queue with
  | next :: queue =>
    { s with lanes := { s.lanes with queue, listening := s.lanes.listening.erase next } }.resolve next true
  | [] => { s with lanes := { s.lanes with free := min downloadChains (s.lanes.free + 1) } }

/-- `onAbort`, live.ts:119-123; the listener is on the signal once -/
def State.onAbort (s : State) (w : Waiter) : State :=
  { s with lanes := { s.lanes with queue := s.lanes.queue.erase w, listening := s.lanes.listening.erase w } }.resolve
    w false

/-- The signal ends, and its listeners are called. -/
def State.abort (s : State) (signal : Nat) : State :=
  if signal ∈ s.aborted then s
  else (s.lanes.listening.filter (·.signal = signal)).foldl State.onAbort { s with aborted := signal :: s.aborted }

inductive Op
  | take (w : Waiter)
  | give (w : Waiter)
  | abort (signal : Nat)
deriving DecidableEq

/-- A call of `take` is a new one, and a lane is given by a caller that holds it. -/
def exec (s : State) : Op → Option State
  | .take w => if w ∈ s.calls then none else some (s.take w)
  | .give w => if w ∈ s.held then some ({ s with held := s.held.erase w }.give) else none
  | .abort signal => some (s.abort signal)

def system : LTS State Op := .ofExec (· = {}) exec

/-! ## What holds in every run -/

/-- What holds while the waiters `leaving` are still to leave the queue. -/
structure Inv (leaving : List Waiter) (s : State) : Prop where
  total : s.lanes.free + s.held.length = downloadChains
  listening : s.lanes.listening = s.lanes.queue
  idle : 0 < s.lanes.free → s.lanes.queue = []
  live : ∀ w ∈ s.lanes.queue, w ∈ leaving ∨ w.signal ∉ s.aborted
  calls : (s.resolved.map (·.1) ++ s.lanes.queue).Perm s.calls
  nodup : s.calls.Nodup

variable {s s' : State} {w v : Waiter} {op : Op} {ops : List Op} {leaving : List Waiter} {k : Nat}

theorem inv_init : Inv [] {} :=
  ⟨rfl, rfl, fun _ => rfl, fun _ h => absurd h List.not_mem_nil, .refl _, List.nodup_nil⟩

theorem Inv.queue_nodup (h : Inv leaving s) : s.lanes.queue.Nodup :=
  (List.nodup_append.1 (h.calls.nodup_iff.2 h.nodup)).2.1

theorem Inv.waits (h : Inv [] s) (hw : w ∈ s.lanes.queue) : w.signal ∉ s.aborted :=
  (h.live w hw).resolve_left List.not_mem_nil

theorem inv_take (h : Inv [] s) (hnew : w ∉ s.calls) : Inv [] (s.take w) := by
  have hnodup : (w :: s.calls).Nodup := List.nodup_cons.2 ⟨hnew, h.nodup⟩
  unfold State.take
  dsimp only
  split
  · exact ⟨h.total, h.listening, h.idle, h.live, h.calls.cons w, hnodup⟩
  · rename_i hlive
    split
    · rename_i hfree
      have htotal := h.total
      refine ⟨?_, h.listening, fun _ => h.idle hfree, h.live, h.calls.cons w, hnodup⟩
      simp only [State.resolve, if_true, List.length_cons]
      omega
    · rename_i hfree
      refine ⟨h.total, ?_, fun hf => absurd hf hfree, ?_, ?_, hnodup⟩
      · simp only [h.listening]
      · intro v hv
        obtain hv | hv := List.mem_append.1 hv
        · exact h.live v hv
        · obtain rfl := List.mem_singleton.1 hv
          exact .inr hlive
      · dsimp only
        rw [← List.append_assoc]
        exact (h.calls.append_right [w]).trans (List.perm_append_singleton w s.calls)

theorem inv_give (h : Inv [] s) (hw : w ∈ s.held) : Inv [] ({ s with held := s.held.erase w }.give) := by
  have htotal := h.total
  have hlength := List.length_erase_of_mem hw
  have hpos := List.length_pos_of_mem hw
  unfold State.give
  dsimp only
  split
  · rename_i next queue hqueue
    have hcalls := h.calls
    have hlive := h.live
    rw [hqueue] at hcalls hlive
    refine ⟨?_, ?_, ?_, fun v hv => hlive v (List.mem_cons_of_mem _ hv), ?_, h.nodup⟩
    · simp only [State.resolve, if_true, List.length_cons]
      omega
    · simp only [State.resolve, h.listening, hqueue, List.erase_cons_head]
    · intro hf
      have := h.idle hf
      rw [hqueue] at this
      cases this
    · simp only [State.resolve, List.map_cons]
      exact (List.perm_middle.symm).trans hcalls
  · rename_i hqueue
    refine ⟨?_, h.listening, fun _ => hqueue, h.live, h.calls, h.nodup⟩
    dsimp only
    omega

/-! ## A signal that ends -/

theorem inv_onAbort (h : Inv (w :: leaving) s) (hw : w ∈ s.lanes.queue) : Inv leaving (s.onAbort w) := by
  refine ⟨h.total, ?_, fun hf => ?_, fun v hv => ?_, ?_, h.nodup⟩
  · simp only [State.onAbort, State.resolve, h.listening]
  · have : s.lanes.queue = [] := h.idle hf
    rw [this] at hw
    cases hw
  · obtain ⟨hne, hv⟩ := h.queue_nodup.mem_erase_iff.1 hv
    obtain hv | hv := h.live v hv
    · exact .inl ((List.mem_cons.1 hv).resolve_left hne)
    · exact .inr hv
  · refine List.Perm.trans ?_ h.calls
    exact (List.perm_middle.symm).trans ((List.perm_cons_erase hw).symm.append_left _)

theorem inv_leave (h : Inv leaving s) (hin : ∀ w ∈ leaving, w ∈ s.lanes.queue) (hnodup : leaving.Nodup) :
    Inv [] (leaving.foldl State.onAbort s) := by
  induction leaving generalizing s with
  | nil => exact h
  | cons w leaving ih =>
    obtain ⟨hw, hnodup⟩ := List.nodup_cons.1 hnodup
    refine ih (inv_onAbort h (hin w List.mem_cons_self)) (fun v hv => ?_) hnodup
    have hne : v ≠ w := fun he => hw (he ▸ hv)
    exact (List.mem_erase_of_ne hne).2 (hin v (List.mem_cons_of_mem _ hv))

theorem inv_abort (signal : Nat) (h : Inv [] s) : Inv [] (s.abort signal) := by
  unfold State.abort
  split
  · exact h
  · rename_i hnew
    rw [h.listening]
    refine inv_leave ⟨h.total, h.listening, h.idle, fun v hv => ?_, h.calls, h.nodup⟩ ?_ (h.queue_nodup.filter _)
    · by_cases hs : v.signal = signal
      · exact .inl (List.mem_filter.2 ⟨hv, by simpa using hs⟩)
      · exact .inr fun hm => (List.mem_cons.1 hm).elim hs (h.waits hv)
    · exact fun v hv => (List.mem_filter.1 hv).1

theorem inv_step (h : Inv [] s) (hst : exec s op = some s') : Inv [] s' := by
  cases op with
  | take w =>
    simp only [exec, Option.ite_none_left_eq_some, Option.some.injEq] at hst
    obtain ⟨hnew, rfl⟩ := hst
    exact inv_take h hnew
  | give w =>
    simp only [exec, Option.ite_none_right_eq_some, Option.some.injEq] at hst
    obtain ⟨hw, rfl⟩ := hst
    exact inv_give h hw
  | abort signal =>
    obtain rfl := Option.some.inj hst
    exact inv_abort signal h

theorem inv_inductive : system.Inductive (Inv []) where
  init s h := by
    obtain rfl : s = {} := h
    exact inv_init
  step s op s' h hst := inv_step h hst

/-! ## Grants -/

theorem granted_leave (h : (v, true) ∈ (leaving.foldl State.onAbort s).resolved) : (v, true) ∈ s.resolved := by
  induction leaving generalizing s with
  | nil => exact h
  | cons w leaving ih =>
    obtain heq | hmem := List.mem_cons.1 (ih h)
    · cases heq
    · exact hmem

/-- A lane is granted to no waiter whose signal has ended. -/
theorem granted_live (h : Inv [] s) (hst : exec s op = some s') (hw : (w, true) ∈ s'.resolved) :
    (w, true) ∈ s.resolved ∨ w.signal ∉ s'.aborted := by
  cases op with
  | take v =>
    simp only [exec, Option.ite_none_left_eq_some, Option.some.injEq] at hst
    obtain ⟨-, rfl⟩ := hst
    unfold State.take at hw ⊢
    dsimp only at hw ⊢
    split at hw
    · obtain heq | hmem := List.mem_cons.1 hw
      · cases heq
      · exact .inl hmem
    · rename_i hlive
      split at hw
      · obtain heq | hmem := List.mem_cons.1 hw
        · cases heq
          right
          rw [if_neg hlive]
          split <;> exact hlive
        · exact .inl hmem
      · exact .inl hw
  | give v =>
    simp only [exec, Option.ite_none_right_eq_some, Option.some.injEq] at hst
    obtain ⟨-, rfl⟩ := hst
    unfold State.give at hw ⊢
    dsimp only at hw ⊢
    split at hw
    · rename_i next queue hqueue
      obtain heq | hmem := List.mem_cons.1 hw
      · cases heq
        right
        exact h.waits (hqueue ▸ List.mem_cons_self)
      · exact .inl hmem
    · exact .inl hw
  | abort signal =>
    obtain rfl := Option.some.inj hst
    unfold State.abort at hw
    split at hw
    · exact .inl hw
    · exact .inl (granted_leave (s := { s with aborted := signal :: s.aborted }) hw)

/-! ## A waiter is settled -/

theorem resolved_leave : s.resolved <:+ (leaving.foldl State.onAbort s).resolved := by
  induction leaving generalizing s with
  | nil => exact List.suffix_refl _
  | cons v leaving ih => exact (List.suffix_cons (v, false) s.resolved).trans (@ih (s.onAbort v))

/-- What was settled stays settled. -/
theorem resolved_step (hst : exec s op = some s') : s.resolved <:+ s'.resolved := by
  cases op with
  | take v =>
    simp only [exec, Option.ite_none_left_eq_some, Option.some.injEq] at hst
    obtain ⟨-, rfl⟩ := hst
    unfold State.take
    dsimp only
    split
    · exact List.suffix_cons _ _
    · split
      · exact List.suffix_cons _ _
      · exact List.suffix_refl _
  | give v =>
    simp only [exec, Option.ite_none_right_eq_some, Option.some.injEq] at hst
    obtain ⟨-, rfl⟩ := hst
    unfold State.give
    dsimp only
    split
    · exact List.suffix_cons _ _
    · exact List.suffix_refl _
  | abort signal =>
    obtain rfl := Option.some.inj hst
    unfold State.abort
    split
    · exact List.suffix_refl _
    · exact resolved_leave (s := { s with aborted := signal :: s.aborted })

def State.Settled (s : State) (w : Waiter) : Prop := w ∈ s.resolved.map (·.1)

theorem settled_step (hst : exec s op = some s') (h : s.Settled w) : s'.Settled w :=
  List.map_subset _ (resolved_step hst).subset h

/-- The waiter waits behind at most so many. -/
def State.Waits (s : State) (w : Waiter) (k : Nat) : Prop :=
  ∃ before after, s.lanes.queue = before ++ w :: after ∧ before.length ≤ k

theorem waits_onAbort (h : s.Waits w k) : (s.onAbort v).Settled w ∨ (s.onAbort v).Waits w k := by
  obtain ⟨before, after, hqueue, hlen⟩ := h
  by_cases hv : v = w
  · exact .inl (by rw [hv]; exact List.mem_cons_self)
  · have hne : ¬ (w == v) = true := by simpa using Ne.symm hv
    right
    simp only [State.Waits, State.onAbort, State.resolve, hqueue, List.erase_append]
    split
    · exact ⟨_, _, rfl, Nat.le_trans (List.length_erase_le ..) hlen⟩
    · rw [List.erase_cons, if_neg hne]
      exact ⟨_, _, rfl, hlen⟩

theorem waits_leave (h : s.Waits w k) : (leaving.foldl State.onAbort s).Settled w ∨
    (leaving.foldl State.onAbort s).Waits w k := by
  induction leaving generalizing s with
  | nil => exact .inr h
  | cons v leaving ih =>
    obtain hs | hw := waits_onAbort (v := v) h
    · exact .inl (List.map_subset _ (@resolved_leave (s.onAbort v) leaving).subset hs)
    · exact ih hw

def Op.isGive : Op → Bool
  | .give _ => true
  | _ => false

/-- Each lane that is given takes a waiter one place further, and out of the first. -/
theorem waits_step (h : s.Waits w k) (hst : exec s op = some s') :
    s'.Settled w ∨ if op.isGive then 0 < k ∧ s'.Waits w (k - 1) else s'.Waits w k := by
  cases op with
  | take v =>
    simp only [exec, Option.ite_none_left_eq_some, Option.some.injEq] at hst
    obtain ⟨-, rfl⟩ := hst
    obtain ⟨before, after, hqueue, hlen⟩ := h
    right
    rw [if_neg (show ¬ Op.isGive (.take v) = true from Bool.false_ne_true)]
    unfold State.take
    dsimp only
    split
    · exact ⟨before, after, hqueue, hlen⟩
    · split
      · exact ⟨before, after, hqueue, hlen⟩
      · exact ⟨before, after ++ [v], by simp only [hqueue, List.append_assoc, List.cons_append], hlen⟩
  | give v =>
    simp only [exec, Option.ite_none_right_eq_some, Option.some.injEq] at hst
    obtain ⟨-, rfl⟩ := hst
    obtain ⟨before, after, hqueue, hlen⟩ := h
    unfold State.give
    dsimp only
    rw [hqueue]
    cases before with
    | nil => exact .inl List.mem_cons_self
    | cons b before =>
      rw [List.length_cons] at hlen
      refine .inr ⟨by omega, before, after, rfl, ?_⟩
      omega
  | abort signal =>
    obtain rfl := Option.some.inj hst
    unfold State.abort
    split
    · exact .inr h
    · exact waits_leave (s := { s with aborted := signal :: s.aborted }) h

theorem settled_run (hrun : system.Run s ops s') (h : s.Settled w) : s'.Settled w := by
  induction hrun with
  | nil => exact h
  | cons hst _ ih => exact ih (settled_step hst h)

theorem waits_run (hrun : system.Run s ops s') (h : s.Waits w k) (hk : k < ops.countP Op.isGive) :
    s'.Settled w := by
  induction hrun generalizing k with
  | nil => simp at hk
  | @cons s s₁ s' op ops hst hrun ih =>
    obtain hs | hw := waits_step h hst
    · exact settled_run hrun hs
    · by_cases hop : op.isGive = true
      · rw [List.countP_cons_of_pos hop] at hk
        rw [if_pos hop] at hw
        exact ih hw.2 (by omega)
      · rw [List.countP_cons_of_neg hop] at hk
        rw [if_neg hop] at hw
        exact ih hw hk

/-! ## What holds of the lanes -/

/-- No lane is lost or given twice, each call of `take` waits or was settled once, and none waits that has ended
or while a lane is free. -/
structure Sound (s : State) : Prop where
  total : s.lanes.free + s.held.length = downloadChains
  once : (s.resolved.map (·.1) ++ s.lanes.queue).Perm s.calls ∧ s.calls.Nodup
  live : ∀ w ∈ s.lanes.queue, w.signal ∉ s.aborted
  idle : 0 < s.lanes.free → s.lanes.queue = []

/-- No step grants a lane to a caller whose signal has ended. -/
def GrantsLive (s : State) : Prop := ∀ op s', exec s op = some s' → ∀ w, (w, true) ∈ s'.resolved →
  (w, true) ∈ s.resolved ∨ w.signal ∉ s'.aborted

/-- A waiter is settled by the time as many lanes were given as wait before it, and one more. -/
def Serves (s : State) : Prop := ∀ before w after, s.lanes.queue = before ++ w :: after →
  ∀ ops s', system.Run s ops s' → before.length < ops.countP Op.isGive → s'.Settled w

theorem lanes_sound (h : system.Reachable s) : Sound s ∧ GrantsLive s ∧ Serves s := by
  have hinv := inv_inductive.reachable s h
  refine ⟨⟨hinv.total, ⟨hinv.calls, hinv.nodup⟩, fun w => hinv.waits, hinv.idle⟩,
    fun op s' hst w hw => granted_live hinv hst hw, fun before w after hqueue ops s' hrun hk => ?_⟩
  exact waits_run hrun ⟨before, after, hqueue, Nat.le_refl _⟩ hk

/-- Of six callers two wait; the signal of one ends, and the other is given the lane of the first. -/
def crowd : List Op := (List.range 6).map (fun n => .take ⟨n, n⟩) ++ [.abort 5, .abort 0, .give ⟨0, 0⟩]

theorem crowd_sound : ∃ s, system.Reachable s ∧ s.held.length = 4 ∧ Sound s ∧ GrantsLive s ∧ Serves s := by
  have hplay : (LTS.play exec {} crowd).any (fun s => decide (s.held.length = 4)) = true := by decide
  obtain ⟨s, hs, hheld⟩ := (Option.any_eq_true _ _).1 hplay
  have hreach : system.Reachable s := LTS.reachable_of_play rfl hs
  exact ⟨s, hreach, by simpa using hheld, lanes_sound hreach⟩

end CarbonRuntime.Adapters.Telegram.MediaLanes
