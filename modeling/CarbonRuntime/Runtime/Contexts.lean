import CarbonRuntime.Runtime.Records

/-!
# The contexts of the turns, with the calls that wait

`turnContexts` (runtime/records-tool.ts:111-175) with the calls of `start` kept apart: which are
active, which wait and what each was answered. A call's signal may be aborted at any time, before
the call as well. The state has what the calls saw so far besides: those accepted, those that
became active, in order, and the answers.

**Results.** `start_turns`, `finish_turns`, `drain_turns`, `tick_turns`: without the calls these are
the operations on `Turns`. `contexts_inv`: what holds in every run.
-/

open CarbonRuntime.Core CarbonRuntime.Stream

namespace CarbonRuntime.Records

/-- A call of `start`, and its signal. -/
structure StartCall where
  id : Nat
  context : TurnContext
deriving DecidableEq

inductive Answer
  | active | cancelled | stopping
deriving DecidableEq

/-- What a call was answered, and whether its signal was aborted by then. -/
structure Answered where
  call : Nat
  answer : Answer
  aborted : Bool
deriving DecidableEq

structure Contexts where
  active : Option StartCall := none
  waiting : List StartCall := []
  accepting : Bool := true
  inspectionFailed : Bool := false
  /-- The signals that were aborted. -/
  aborted : List Nat := []
  accepted : List StartCall := []
  activated : List StartCall := []
  answers : List Answered := []
deriving DecidableEq

inductive ContextOp
  | start (ps : Processes) (call : StartCall)
  | abort (id : Nat)
  | finish (releaseId : String)
  | tick (ps : Processes)
  | drain

namespace Contexts

def calls (s : Contexts) : List StartCall := s.active.toList ++ s.waiting

def turns (s : Contexts) : Turns where
  active := s.active.map (·.context)
  waiting := s.waiting.map (·.context)
  accepting := s.accepting

def answer (s : Contexts) (id : Nat) (a : Answer) : Contexts :=
  { s with answers := s.answers ++ [⟨id, a, s.aborted.contains id⟩] }

/-- `advance`: the first that waits is active and answered so. -/
def advance (s : Contexts) : Contexts :=
  match s.waiting with
  | [] => { s with active := none }
  | next :: rest =>
    { s with active := some next, waiting := rest, activated := s.activated ++ [next] }.answer
      next.id .active

/-- A call that is accepted: active, answered as cancelled, or waiting. -/
def accept (s : Contexts) (call : StartCall) : Contexts :=
  let s := { s with accepted := s.accepted ++ [call] }
  if s.active.isSome then
    if s.aborted.contains call.id then s.answer call.id .cancelled
    else { s with waiting := s.waiting ++ [call] }
  else
    { s with active := some call, activated := s.activated ++ [call] }.answer call.id .active

/-- mirrors `start`; a refused call is answered at once and leaves everything as it was -/
def start (s : Contexts) (ps : Processes) (call : StartCall) : Except (List Fault) Contexts :=
  if !s.accepting then .error [turnStopping call.context.releaseId]
  else do
    validateTurnContext ps call.context s.turns.contexts
    return s.accept call

/-- A signal is aborted once, and a call that waits is answered as cancelled. -/
def abort (s : Contexts) (id : Nat) : Contexts :=
  if s.aborted.contains id then s
  else
    let s := { s with aborted := id :: s.aborted }
    if s.waiting.any (·.id = id) then
      { s with waiting := s.waiting.filter (·.id ≠ id) }.answer id .cancelled
    else s

/-- mirrors `end` -/
def finish (s : Contexts) (releaseId : String) : Except (List Fault) Contexts :=
  if s.active.any (·.context.releaseId = releaseId) then .ok s.advance
  else .error [contextMismatch releaseId]

/-- The timer, until the service drains. -/
def tick (s : Contexts) (ps : Processes) : Contexts :=
  match s.active with
  | none => s
  | some call =>
    if !s.accepting then s
    else
      match ps call.context.owner.pid with
      | .error _ => { s with inspectionFailed := true }
      | .ok generation =>
        let s := { s with inspectionFailed := false }
        if generation = some call.context.owner.generation then s else s.advance

/-- mirrors `drain` -/
def drain (s : Contexts) : Contexts :=
  { s with
    accepting := false, waiting := []
    answers := s.answers ++ s.waiting.map fun c => ⟨c.id, .stopping, s.aborted.contains c.id⟩ }

/-- Each call of `start` is its own. -/
def Step (s : Contexts) : ContextOp → Contexts → Prop
  | .start ps call, s' => call.id ∉ s.accepted.map (·.id) ∧
      match s.start ps call with
      | .ok t => s' = t
      | .error _ => s' = s
  | .abort id, s' => s' = s.abort id
  | .finish releaseId, s' =>
    match s.finish releaseId with
    | .ok t => s' = t
    | .error _ => s' = s
  | .tick ps, s' => s' = s.tick ps
  | .drain, s' => s' = s.drain

end Contexts

def contexts : LTS Contexts ContextOp where
  init s := s = {}
  step s op s' := s.Step op s'

namespace Contexts

variable {s s' : Contexts} {op : ContextOp} {ps : Processes} {call : StartCall}

/-! ## Without the calls -/

theorem advance_turns (s : Contexts) : s.advance.turns = s.turns.advance := by
  unfold advance Turns.advance turns
  cases s.waiting <;> rfl

theorem start_turns (h : call.id ∉ s.aborted) :
    (s.start ps call).map turns = s.turns.start ps call.context := by
  unfold start Turns.start
  rw [show s.turns.accepting = s.accepting from rfl]
  split
  · rfl
  · cases validateTurnContext ps call.context s.turns.contexts with
    | error e => rfl
    | ok u =>
      have hcontains : s.aborted.contains call.id = false := by simpa using h
      cases hactive : s.active with
      | none => simp [accept, answer, turns, hactive, Except.map, bind, Except.bind, pure, Except.pure]
      | some c =>
        simp only [accept, hactive, hcontains, Except.map, bind, Except.bind, pure, Except.pure, turns,
          Option.isSome_some, if_true, Bool.false_eq_true, if_false, Option.map_some, List.map_append,
          List.map_cons, List.map_nil]

theorem finish_turns (releaseId : String) :
    (s.finish releaseId).map turns = s.turns.finish releaseId := by
  unfold finish Turns.finish
  rw [show s.turns.active.any (·.releaseId = releaseId) =
    s.active.any (·.context.releaseId = releaseId) by
      unfold turns
      cases s.active <;> rfl]
  split
  · rw [Except.map, advance_turns]
  · rfl

theorem drain_turns (s : Contexts) : s.drain.turns = s.turns.drain := rfl

theorem tick_turns (h : s.accepting = true) : (s.tick ps).turns = s.turns.monitor ps := by
  unfold tick Turns.monitor
  split
  · rename_i hactive
    rw [show s.turns.active = none by rw [turns, hactive]; rfl]
  · rename_i call hactive
    rw [show s.turns.active = some call.context by rw [turns, hactive]; rfl, if_neg (by simp [h])]
    dsimp only
    cases ps call.context.owner.pid with
    | error e => rfl
    | ok generation =>
      dsimp only
      split
      · rfl
      · exact advance_turns { s with inspectionFailed := false }

/-! ## What holds over a run -/

/-- Answered otherwise than with `active`. -/
def dropped (answers : List Answered) (call : StartCall) : Bool :=
  answers.any fun a => a.call = call.id && a.answer ≠ .active

/-- What holds of the calls in every run. -/
structure Kept (s : Contexts) : Prop where
  /-- A call that is accepted waits or is answered, once. -/
  once : (s.accepted.map (·.id)).Nodup ∧
    (s.answers.map (·.call) ++ s.waiting.map (·.id)).Perm (s.accepted.map (·.id))
  /-- In the order they were accepted, without those answered otherwise. -/
  order : s.activated ++ s.waiting = s.accepted.filter fun c => !dropped s.answers c
  last : ∀ c, s.active = some c → s.activated.getLast? = some c
  apart : s.calls.Pairwise fun c d => d.context.clashes c.context = false
  idle : s.active = none → s.waiting = []
  /-- A signal that is aborted leaves no call waiting. -/
  waiting : ∀ c ∈ s.waiting, c.id ∉ s.aborted

theorem dropped_answer (l : List Answered) (a : Answered) (c : StartCall) :
    dropped (l ++ [a]) c = (dropped l c || (a.call = c.id && a.answer ≠ .active : Bool)) := by
  simp [dropped, List.any_append]

/-- A call that is answered was accepted, and waits no more. -/
theorem Kept.answered (h : s.Kept) {a : Answered} (ha : a ∈ s.answers) :
    a.call ∈ s.accepted.map (·.id) ∧ a.call ∉ s.waiting.map (·.id) := by
  have hmem : a.call ∈ s.answers.map (·.call) := List.mem_map_of_mem ha
  refine ⟨h.once.2.subset (List.mem_append_left _ hmem), fun hw => ?_⟩
  have hnodup := h.once.2.nodup_iff.2 h.once.1
  exact (List.nodup_append.1 hnodup).2.2 _ hmem _ hw rfl

/-- A call that was not accepted was not answered. -/
theorem Kept.fresh (h : s.Kept) (hid : call.id ∉ s.accepted.map (·.id)) : dropped s.answers call = false := by
  rw [dropped, List.any_eq_false]
  intro a ha
  have := (h.answered ha).1
  simp only [Bool.and_eq_true, decide_eq_true_eq, not_and]
  intro he
  exact absurd (he ▸ this) hid

/-- The calls that became active and those that wait are different ones. -/
theorem Kept.distinct (h : s.Kept) : ((s.activated ++ s.waiting).map (·.id)).Nodup := by
  rw [h.order]
  exact h.once.1.sublist (List.filter_sublist.map _)

theorem Kept.advance (h : s.Kept) : s.advance.Kept := by
  unfold Contexts.advance
  split
  · rename_i hw
    have hcalls : ({ s with active := none } : Contexts).calls.Sublist s.calls :=
      List.sublist_append_right _ _
    exact ⟨h.once, h.order, nofun, h.apart.sublist hcalls, fun _ => hw, h.waiting⟩
  · rename_i next rest hw
    have horder := h.order
    have honce := h.once
    rw [hw] at horder honce
    refine ⟨⟨honce.1, ?_⟩, ?_, ?_, ?_, nofun, ?_⟩
    · simpa [answer] using honce.2
    · simp only [answer, dropped_answer, List.append_assoc, List.singleton_append, horder]
      simp
    · intro c hc
      cases hc
      simp [answer]
    · refine h.apart.sublist ?_
      simp only [calls, answer, Option.toList_some, hw, List.singleton_append]
      exact List.sublist_append_right _ _
    · exact fun c hc => h.waiting c (by rw [hw]; exact List.mem_cons_of_mem _ hc)

/-- One call more is accepted, and answered at once. -/
theorem Kept.filter (h : s.Kept) (hid : call.id ∉ s.accepted.map (·.id)) (a : Answer) :
    (s.accepted ++ [call]).filter
        (fun c => !(dropped s.answers c || (call.id = c.id && a ≠ .active : Bool))) =
      s.activated ++ s.waiting ++ if a = .active then [call] else [] := by
  have hother : ∀ c ∈ s.accepted, (!(dropped s.answers c || (call.id = c.id && a ≠ .active : Bool))) =
      !dropped s.answers c := by
    intro c hc
    have hne : call.id ≠ c.id := fun he => hid (he ▸ List.mem_map_of_mem hc)
    simp [hne]
  rw [List.filter_append, List.filter_congr hother, h.order]
  have hfresh := h.fresh hid
  by_cases ha : a = .active
  · simp [hfresh, ha]
  · simp [hfresh, ha]

theorem Kept.accept (h : s.Kept) (hid : call.id ∉ s.accepted.map (·.id))
    (hnew : ∀ c ∈ s.calls, call.context.clashes c.context = false) : (s.accept call).Kept := by
  have hnodup : ((s.accepted ++ [call]).map (·.id)).Nodup := by
    rw [List.map_append, List.nodup_append]
    refine ⟨h.once.1, List.nodup_singleton _, fun a ha b hb => ?_⟩
    rw [List.map_singleton, List.mem_singleton] at hb
    rintro rfl
    exact hid (hb ▸ ha)
  have honce : (s.answers.map (·.call) ++ s.waiting.map (·.id) ++ [call.id]).Perm
      ((s.accepted ++ [call]).map (·.id)) := by
    rw [List.map_append]
    exact h.once.2.append_right [call.id]
  have hanswered : (s.answers.map (·.call) ++ [call.id] ++ s.waiting.map (·.id)).Perm
      ((s.accepted ++ [call]).map (·.id)) := by
    refine List.Perm.trans ?_ honce
    rw [List.append_assoc, List.append_assoc]
    exact List.Perm.append_left _ List.perm_append_comm
  have hpair : (s.calls ++ [call]).Pairwise fun c d => d.context.clashes c.context = false := by
    rw [List.pairwise_append]
    refine ⟨h.apart, List.pairwise_singleton _ _, fun c hc d hd => ?_⟩
    rw [List.mem_singleton.1 hd]
    exact hnew c hc
  unfold Contexts.accept
  dsimp only
  split
  · rename_i hactive
    split
    · refine ⟨⟨hnodup, ?_⟩, ?_, h.last, h.apart, h.idle, h.waiting⟩
      · simpa [answer] using hanswered
      · have hf := h.filter hid .cancelled
        simp only [if_neg (show ¬ Answer.cancelled = .active by simp), List.append_nil] at hf
        simp only [answer, dropped_answer]
        exact hf.symm
    · rename_i hlive
      refine ⟨⟨hnodup, ?_⟩, ?_, h.last, ?_, ?_, ?_⟩
      · simpa using honce
      · have hf := h.filter hid .active
        simp only [ne_eq, not_true_eq_false, decide_false, Bool.and_false, Bool.or_false, if_true]
          at hf
        simpa using hf.symm
      · simpa [calls] using hpair
      · intro hnone
        rw [hnone] at hactive
        cases hactive
      · intro c hc
        rcases List.mem_append.1 hc with hc | hc
        · exact h.waiting c hc
        · rw [List.mem_singleton.1 hc]
          simpa using hlive
  · rename_i hactive
    have hnone : s.active = none := by simpa using hactive
    have hempty := h.idle hnone
    refine ⟨⟨hnodup, ?_⟩, ?_, ?_, ?_, nofun, h.waiting⟩
    · simpa [answer] using hanswered
    · have hf := h.filter hid .active
      rw [hempty, List.append_nil, if_pos rfl] at hf
      simp only [answer, dropped_answer, hempty, List.append_nil]
      exact hf.symm
    · intro c hc
      cases hc
      simp [answer]
    · rw [show s.calls = [] by rw [calls, hnone, hempty]; rfl] at hpair
      simp [calls, answer, hempty]

/-- Calls that wait are answered otherwise. -/
theorem Kept.less (h : s.Kept) (ids : List Nat) (hids : ∀ i ∈ ids, i ∈ s.waiting.map (·.id)) :
    s.accepted.filter (fun c => !(dropped s.answers c || ids.contains c.id)) =
      s.activated ++ s.waiting.filter fun c => !ids.contains c.id := by
  have hsplit : (fun c => !(dropped s.answers c || ids.contains c.id)) =
      fun c : StartCall => !ids.contains c.id && !dropped s.answers c := by
    funext c
    rw [Bool.not_or, Bool.and_comm]
  have hactivated : ∀ c ∈ s.activated, (!ids.contains c.id) = true := by
    intro c hc
    have hdistinct := h.distinct
    rw [List.map_append, List.nodup_append] at hdistinct
    simp only [Bool.not_eq_true', List.contains_eq_mem, decide_eq_false_iff_not]
    exact fun hin => hdistinct.2.2 _ (List.mem_map_of_mem hc) _ (hids _ hin) rfl
  rw [hsplit, ← List.filter_filter, ← h.order, List.filter_append,
    List.filter_eq_self.2 hactivated]

theorem Kept.abort (h : s.Kept) (id : Nat) : (s.abort id).Kept := by
  unfold Contexts.abort
  dsimp only
  split
  · exact h
  · split
    · rename_i hwaits
      have hin : id ∈ s.waiting.map (·.id) := by simpa using hwaits
      have hkeep : (s.waiting.filter (·.id ≠ id)).map (·.id) = (s.waiting.map (·.id)).erase id := by
        have hnodup : (s.waiting.map (·.id)).Nodup := by
          have := h.distinct
          rw [List.map_append] at this
          exact (List.nodup_append.1 this).2.1
        rw [hnodup.erase_eq_filter, List.filter_map]
        exact congrArg _ (List.filter_congr fun c _ => by simp [bne, beq_eq_decide])
      refine ⟨⟨h.once.1, ?_⟩, ?_, h.last, ?_, fun hnone => ?_, fun c hc => ?_⟩
      · simp only [answer, List.map_append, List.map_cons, List.map_nil, hkeep]
        rw [List.append_assoc]
        exact (List.Perm.append_left _ (List.perm_cons_erase hin).symm).trans h.once.2
      · have hless := h.less [id] (by simpa using hin)
        simp only [answer, dropped_answer]
        simpa [eq_comm] using hless.symm
      · exact h.apart.sublist (List.Sublist.append_left List.filter_sublist _)
      · rw [show s.waiting = [] from h.idle hnone] at hin
        cases hin
      · have hmem := List.mem_filter.1 hc
        have hne : c.id ≠ id := by simpa using hmem.2
        exact fun hin => (List.mem_cons.1 hin).elim hne (h.waiting c hmem.1)
    · rename_i hnot
      refine ⟨h.once, h.order, h.last, h.apart, h.idle, fun c hc => ?_⟩
      simp only [List.any_eq_true, decide_eq_true_eq, not_exists, not_and] at hnot
      rw [List.mem_cons, not_or]
      exact ⟨hnot c hc, h.waiting c hc⟩

theorem Kept.drain (h : s.Kept) : s.drain.Kept := by
  have hcalls : s.drain.calls.Sublist s.calls :=
    List.Sublist.append_left (List.nil_sublist _) _
  refine ⟨⟨h.once.1, ?_⟩, ?_, h.last, h.apart.sublist hcalls, fun _ => rfl, nofun⟩
  · simpa [Contexts.drain, Function.comp_def] using h.once.2
  · have hless := h.less (s.waiting.map (·.id)) fun _ hi => hi
    have hdropped : ∀ c, dropped s.drain.answers c =
        (dropped s.answers c || (s.waiting.map (·.id)).contains c.id) := by
      intro c
      have hany : (s.waiting.any fun d => decide (d.id = c.id)) =
          (s.waiting.map (·.id)).contains c.id := by
        rw [List.contains_eq_any_beq, List.any_map]
        exact congrArg _ (funext fun d => by simp [eq_comm, beq_eq_decide])
      simp only [Contexts.drain, dropped, List.any_append, List.any_map, Function.comp_def, ne_eq,
        reduceCtorEq, not_false_eq_true, decide_true, Bool.and_true, hany]
    have hnone : s.waiting.filter (fun c => !(s.waiting.map (·.id)).contains c.id) = [] := by
      rw [List.filter_eq_nil_iff]
      intro c hc
      have hmem : c.id ∈ s.waiting.map (·.id) := List.mem_map_of_mem hc
      simp [hmem]
    simp only [hdropped]
    rw [hnone] at hless
    exact hless.symm

theorem clash_free (h : validateTurnContext ps call.context s.turns.contexts = .ok ()) :
    ∀ c ∈ s.calls, call.context.clashes c.context = false := by
  unfold validateTurnContext at h
  split at h
  · cases h
  · split at h
    · cases h
    · split at h
      · cases h
      · rename_i hclash
        intro c hc
        have hmem : c.context ∈ s.turns.contexts := by
          simp only [Turns.contexts, turns, calls, Option.mem_toList, List.mem_append,
            Option.map_eq_some_iff, List.mem_map] at hc ⊢
          exact hc.imp (fun h => ⟨c, h, rfl⟩) fun h => ⟨c, h, rfl⟩
        simp only [Bool.not_eq_true, List.any_eq_false] at hclash
        simpa using hclash _ hmem

theorem start_ok {t : Contexts} (h : s.start ps call = .ok t) :
    s.accepting = true ∧ validateTurnContext ps call.context s.turns.contexts = .ok () ∧
      t = s.accept call := by
  unfold Contexts.start at h
  split at h
  · cases h
  · rename_i haccepting
    cases hvalid : validateTurnContext ps call.context s.turns.contexts with
    | error e => rw [hvalid] at h; cases h
    | ok u =>
      rw [hvalid] at h
      cases h
      exact ⟨by simpa using haccepting, rfl, rfl⟩

theorem Kept.tick (h : s.Kept) (ps : Processes) : (s.tick ps).Kept := by
  unfold Contexts.tick
  split
  · exact h
  · split
    · exact h
    · split
      · exact ⟨h.once, h.order, h.last, h.apart, h.idle, h.waiting⟩
      · have hseen : ({ s with inspectionFailed := false } : Contexts).Kept :=
          ⟨h.once, h.order, h.last, h.apart, h.idle, h.waiting⟩
        dsimp only
        split
        · exact hseen
        · exact hseen.advance

theorem Kept.step (h : s.Kept) (hst : s.Step op s') : s'.Kept := by
  cases op with
  | start ps call =>
    obtain ⟨hid, hst⟩ := hst
    cases hstart : s.start ps call with
    | error e =>
      rw [hstart] at hst
      exact hst ▸ h
    | ok t =>
      rw [hstart] at hst
      obtain ⟨-, hvalid, rfl⟩ := start_ok hstart
      exact hst ▸ h.accept hid (clash_free hvalid)
  | abort id => exact hst ▸ h.abort id
  | finish releaseId =>
    cases hfinish : s.finish releaseId with
    | error e =>
      simp only [Contexts.Step, hfinish] at hst
      exact hst ▸ h
    | ok t =>
      simp only [Contexts.Step, hfinish] at hst
      unfold Contexts.finish at hfinish
      split at hfinish
      · cases hfinish
        exact hst ▸ h.advance
      · cases hfinish
  | tick ps => exact hst ▸ h.tick ps
  | drain => exact hst ▸ h.drain

theorem kept_init : ({} : Contexts).Kept :=
  ⟨⟨List.nodup_nil, .nil⟩, rfl, nofun, .nil, fun _ => rfl, nofun⟩

theorem kept_reachable (h : contexts.Reachable s) : s.Kept :=
  LTS.Inductive.reachable (T := contexts) (I := Kept)
    ⟨fun s hs => by rw [show s = {} from hs]; exact kept_init, fun s op s' hi hst => hi.step hst⟩ s h

end Contexts

end CarbonRuntime.Records
