import CarbonRuntime.Core.LTS
import Mathlib.Data.List.Basic
import Mathlib.Logic.Function.Basic

/-!
# The sweep over the loops of a process

`run` (runtime/index.ts:383-474) takes the loops of the declared channels in turn: a sweep makes a
pass of every loop that is due, one after the other, and the process sleeps until the first of
them is due again. A loop is hinted by its adapter, or, the browser's, by a capture or a tool
server's status; a hint makes it due at once and ends the sleep.

Everything between two awaits is one step: the look at one loop, the return of a pass, the end of
a sweep with the computation of the sleep. A hint, a stop signal or the death of the child may
come between any two steps, so also during a pass or the sleep, and before the process has gone on
after it. The clock is read at each step and need not advance.

**Results.** `owed_step`: until its pass starts, a hinted loop stays due, and each step of the
process brings its pass nearer. `hinted_started`: so it starts within `patience` steps of the
process, which is never stuck and sleeps not at all until then.
-/

open CarbonRuntime.Core

namespace CarbonRuntime.Scheduler

/-- A loop, as far as the sweep reads it. -/
structure Polled where
  browser : Bool
  account : String
  intervalMs : Nat
deriving DecidableEq

/-- Where the process is. -/
inductive Pc
  /-- In a sweep, before it looks at the loop of this number. -/
  | sweep (loop : Nat)
  /-- In the pass of a loop; the generation is the one read before it. -/
  | passing (loop generation : Nat)
  /-- Asleep, for so long or until it is woken; `draining.wake` is set. -/
  | sleeping (ms : Option Nat)
  /-- The sleep has ended. -/
  | woken
  | returned
  | threw
deriving DecidableEq

structure Sched where
  /-- `none` is `Infinity`. -/
  dueAt : Nat → Option Nat := fun _ => some 0
  generation : Nat → Nat := fun _ => 0
  draining : Bool := false
  childExit : Bool := false
  done : Nat := 0
  pc : Pc := .sweep 0

/-- How a pass ends. -/
inductive PassEnd
  | returned | childExited | threw
deriving DecidableEq

inductive Op
  /-- The adapter of a loop says that a settled batch is waiting. -/
  | ready (loop : Nat)
  /-- An inbound record of this conversation is captured. -/
  | captured (conversationId : String)
  | toolStatus (loop : Nat)
  | signal
  | exit
  /-- The sweep looks at a loop that is not due. -/
  | skip (loop now : Nat)
  /-- A pass of the loop starts. -/
  | pass (loop now : Nat)
  /-- The pass has ended. -/
  | passed (how : PassEnd) (now : Nat)
  /-- The sweep has ended. -/
  | swept (now : Nat)
  | timer
  /-- The process goes on after its sleep. -/
  | resume
deriving DecidableEq

/-- The steps of the process itself. -/
def Op.own : Op → Bool
  | .skip _ _ | .pass _ _ | .passed _ _ | .swept _ | .timer | .resume => true
  | _ => false

def isPast (due : Option Nat) (now : Nat) : Bool := due.any fun d => decide (d ≤ now)

/-- `Math.min` of the due times. -/
def earliest : List (Option Nat) → Option Nat
  | [] => none
  | none :: l => earliest l
  | some d :: l => some ((earliest l).elim d (min d))

namespace Sched

variable (loops : List Polled) (passes : Option Nat) (s : Sched)

/-- `draining.wake?.()`: only a sleep can be ended. -/
def wake : Sched :=
  match s.pc with
  | .sleeping _ => { s with pc := .woken }
  | _ => s

/-- A loop is due at once, and its generation is another. -/
def raise (loop : Nat) : Sched :=
  { s with
    generation := Function.update s.generation loop (s.generation loop + 1)
    dueAt := Function.update s.dueAt loop (some 0) }

/-- The listener of the store's browser changes looks at every loop. -/
def raiseAll (conversationId : String) : List Polled → Nat → Sched → Sched
  | [], _, s => s
  | l :: rest, i, s =>
    raiseAll conversationId rest (i + 1)
      (if l.browser && (l.account ++ ":ticket:").toList.isPrefixOf conversationId.toList then
        s.raise i
      else s)

/-- Whether another sweep is made, `while (done < passes)` and the check behind it. -/
def goesOn : Bool :=
  passes.all (fun n => decide (s.done < n)) && !s.childExit && !s.draining

/-- The process begins a sweep, or returns. -/
def head : Sched := { s with pc := if s.goesOn passes then .sweep 0 else .returned }

/-- How long the process sleeps; `none` is until it is woken. -/
def rest (now : Nat) : Option Nat :=
  (earliest ((List.range loops.length).map s.dueAt)).map (· - now)

/-- The sweep has ended, or was broken off. -/
def swept (now : Nat) : Sched :=
  let s := { s with done := s.done + 1 }
  if s.goesOn passes then { s with pc := .sleeping (s.rest loops now) }
  else { s with pc := .returned }

/-- When the loop is due after its pass. -/
def dueAfter (l : Polled) (loop generation now : Nat) : Option Nat :=
  if s.generation loop ≠ generation then some 0
  else if l.browser then none else some (now + l.intervalMs)

def afterPass (l : Polled) (loop generation now : Nat) : Sched :=
  { s with dueAt := Function.update s.dueAt loop (s.dueAfter l loop generation now) }

end Sched

/-- One step; `none` where it cannot be taken. -/
def exec (loops : List Polled) (passes : Option Nat) (s : Sched) : Op → Option Sched
  | .ready loop =>
    match loops[loop]? with
    | some l =>
      if l.browser || s.draining then none else some (s.raise loop).wake
    | none => none
  | .captured conversationId => some (s.raiseAll conversationId loops 0).wake
  | .toolStatus loop =>
    match loops[loop]? with
    | some l => if l.browser then some (s.raise loop).wake else none
    | none => none
  | .signal => some (if s.draining then s else { s with draining := true }.wake)
  | .exit => some { s with childExit := true }.wake
  | .skip loop now =>
    if s.pc = .sweep loop && decide (loop < loops.length) && !s.draining &&
        !isPast (s.dueAt loop) now then
      some { s with pc := .sweep (loop + 1) }
    else none
  | .pass loop now =>
    if s.pc = .sweep loop && decide (loop < loops.length) && !s.draining &&
        isPast (s.dueAt loop) now then
      some { s with pc := .passing loop (s.generation loop) }
    else none
  | .passed how now =>
    match s.pc with
    | .passing loop generation =>
      match how, loops[loop]? with
      | .returned, some l =>
        let s := s.afterPass l loop generation now
        some (if s.childExit then s.swept loops passes now
          else { s with pc := .sweep (loop + 1) })
      | .childExited, some _ => some ({ s with childExit := true }.swept loops passes now)
      | .threw, some _ => some { s with pc := .threw }
      | _, none => none
    | _ => none
  | .swept now =>
    match s.pc with
    | .sweep loop =>
      if loops.length ≤ loop || s.draining then some (s.swept loops passes now) else none
    | _ => none
  | .timer =>
    match s.pc with
    | .sleeping (some _) => some { s with pc := .woken }
    | _ => none
  | .resume =>
    match s.pc with
    | .woken => some (s.head passes)
    | _ => none

/-- A process over its loops; a run that is to make no pass returns at once. -/
def scheduler (loops : List Polled) (passes : Option Nat) : LTS Sched Op where
  init s := s = ({} : Sched).head passes
  step s op s' := exec loops passes s op = some s'

/-! ## What is owed to a loop -/

/-- The step hints the loop. -/
def Hints (loops : List Polled) (loop : Nat) : Op → Prop
  | .ready i => i = loop
  | .captured conversationId => ∃ l, loops[loop]? = some l ∧ l.browser = true ∧
      (l.account ++ ":ticket:").toList.isPrefixOf conversationId.toList = true
  | .toolStatus i => i = loop
  | _ => False

/-- The generation a pass began at is not ahead of its loop's. -/
structure Sched.Sound (loops : List Polled) (s : Sched) : Prop where
  passing : ∀ i g, s.pc = .passing i g → i < loops.length ∧ g ≤ s.generation i

/-- The loop is due, and a pass of it under way began before the hint. -/
structure Sched.Raised (loop : Nat) (s : Sched) : Prop where
  due : s.dueAt loop = some 0
  newer : ∀ g, s.pc = .passing loop g → g < s.generation loop

/-- A pass of the loop is owed, and nobody sleeps meanwhile. -/
structure Sched.Owed (loop : Nat) (s : Sched) : Prop extends s.Raised loop where
  slept : ∀ ms, s.pc = .sleeping ms → ms = some 0

/-- The process neither stops nor has ended. -/
structure Sched.Live (s : Sched) : Prop where
  draining : s.draining = false
  childExit : s.childExit = false
  returned : s.pc ≠ .returned
  threw : s.pc ≠ .threw

section fields
variable (s : Sched) (i : Nat)

theorem wake_pc : s.wake.pc = s.pc ∨ s.wake.pc = .woken := by
  unfold Sched.wake
  split
  · exact .inr rfl
  · exact .inl rfl

theorem wake_awake (ms : Option Nat) : s.wake.pc ≠ .sleeping ms := by
  unfold Sched.wake
  split
  · simp
  · rename_i h
    exact fun he => h ms he

theorem wake_passing {j g : Nat} (h : s.wake.pc = .passing j g) : s.pc = .passing j g := by
  rcases wake_pc s with hw | hw
  · rwa [hw] at h
  · rw [hw] at h
    cases h

@[simp] theorem wake_dueAt : s.wake.dueAt = s.dueAt := by unfold Sched.wake; split <;> rfl

@[simp] theorem wake_generation : s.wake.generation = s.generation := by
  unfold Sched.wake; split <;> rfl

@[simp] theorem wake_draining : s.wake.draining = s.draining := by
  unfold Sched.wake; split <;> rfl

@[simp] theorem wake_childExit : s.wake.childExit = s.childExit := by
  unfold Sched.wake; split <;> rfl

@[simp] theorem raise_pc : (s.raise i).pc = s.pc := rfl

theorem raise_due : (s.raise i).dueAt i = some 0 := by simp [Sched.raise]

theorem due_raise {j : Nat} (h : s.dueAt j = some 0) : (s.raise i).dueAt j = some 0 := by
  by_cases hj : j = i
  · subst hj
    exact raise_due s j
  · simpa [Sched.raise, Function.update_of_ne hj] using h

theorem raise_generation : (s.raise i).generation i = s.generation i + 1 := by simp [Sched.raise]

theorem le_raise (j : Nat) : s.generation j ≤ (s.raise i).generation j := by
  by_cases h : j = i
  · subst h
    simp [Sched.raise]
  · simp [Sched.raise, Function.update_of_ne h]

theorem raiseAll_keeps {P : Sched → Prop} (hP : ∀ s i, P s → P (s.raise i)) (c : String)
    (l : List Polled) : ∀ (n : Nat) (s : Sched), P s → P (s.raiseAll c l n) := by
  induction l with
  | nil => exact fun n s h => h
  | cons x l ih =>
    intro n s h
    rw [Sched.raiseAll]
    refine ih (n + 1) _ ?_
    split
    · exact hP s n h
    · exact h

/-- What a hint of one loop brings about stands after a capture that hints it. -/
theorem raiseAll_raises {P Q : Sched → Prop} (hP : ∀ s i, P s → P (s.raise i))
    (hQ : ∀ s i, Q s → Q (s.raise i)) {c : String} {x : Polled} {loop : Nat}
    (hx : x.browser = true ∧ (x.account ++ ":ticket:").toList.isPrefixOf c.toList = true)
    (hPQ : ∀ s, P s → Q (s.raise loop)) (l : List Polled) :
    ∀ (n i : Nat) (s : Sched), n + i = loop → l[i]? = some x → P s → Q (s.raiseAll c l n) := by
  induction l with
  | nil => intro n i s _ h; simp at h
  | cons y l ih =>
    intro n i s hn h hs
    rw [Sched.raiseAll]
    cases i with
    | zero =>
      simp only [List.getElem?_cons_zero, Option.some.injEq] at h
      subst h
      rw [if_pos (by rw [hx.1, hx.2]; rfl)]
      exact raiseAll_keeps hQ c l _ _ (by rw [show n = loop by omega]; exact hPQ s hs)
    | succ i =>
      rw [List.getElem?_cons_succ] at h
      refine ih (n + 1) i _ (by omega) h ?_
      split
      · exact hP s n hs
      · exact hs

end fields

/-! ## One step -/

section step
variable {loops : List Polled} {passes : Option Nat} {s s' : Sched} {op : Op} {loop : Nat}

theorem sound_raise (h : s.Sound loops) (i : Nat) : (s.raise i).Sound loops where
  passing j g hp := by
    obtain ⟨hj, hg⟩ := h.passing j g hp
    exact ⟨hj, Nat.le_trans hg (le_raise s i j)⟩

theorem sound_wake (h : s.Sound loops) : s.wake.Sound loops where
  passing j g hp := by
    rw [wake_generation]
    exact h.passing j g (wake_passing s hp)

theorem raised_raise (h : s.Raised loop) (i : Nat) : (s.raise i).Raised loop where
  due := due_raise s i h.due
  newer g hp := Nat.lt_of_lt_of_le (h.newer g hp) (le_raise s i loop)

theorem raised_of_raise (h : s.Sound loops) : (s.raise loop).Raised loop where
  due := raise_due s loop
  newer g hp := by
    rw [raise_generation]
    exact Nat.lt_succ_of_le (h.passing loop g hp).2

theorem woken_owed (h : s.Raised loop) : s.wake.Owed loop where
  due := by rw [wake_dueAt]; exact h.due
  newer g hp := by
    rw [wake_generation]
    exact h.newer g (wake_passing s hp)
  slept ms hp := absurd hp (wake_awake s ms)

/-- A hint is owed from the step on that raises it. -/
theorem owed_of_hint (hs : s.Sound loops) (hst : exec loops passes s op = some s')
    (hh : Hints loops loop op) : s'.Owed loop := by
  cases op with
  | ready i =>
    cases hh
    simp only [exec] at hst
    split at hst
    · split at hst
      · cases hst
      · cases hst
        exact woken_owed (raised_of_raise hs)
    · cases hst
  | captured c =>
    obtain ⟨l, hl, hx⟩ := hh
    cases hst
    refine woken_owed (raiseAll_raises (P := Sched.Sound loops) (Q := Sched.Raised loop)
      (fun s i h => sound_raise h i) (fun s i h => raised_raise h i) hx ?_ loops 0 loop s
      (Nat.zero_add loop) hl hs)
    exact fun s h => raised_of_raise h
  | toolStatus i =>
    cases hh
    simp only [exec] at hst
    split at hst
    · split at hst
      · cases hst
        exact woken_owed (raised_of_raise hs)
      · cases hst
    · cases hst
  | _ => exact hh.elim

/-- What a hint, a stop and the death of the child keep. -/
theorem others_keep {P : Sched → Prop} (hraise : ∀ s i, P s → P (s.raise i))
    (hwake : ∀ s, P s → P s.wake) (hdrain : ∀ s, P s → P { s with draining := true })
    (hexit : ∀ s, P s → P { s with childExit := true })
    (hst : exec loops passes s op = some s') (ho : op.own = false) (h : P s) : P s' := by
  cases op with
  | ready i =>
    simp only [exec] at hst
    split at hst
    · split at hst
      · cases hst
      · cases hst
        exact hwake _ (hraise s i h)
    · cases hst
  | captured c =>
    cases hst
    exact hwake _ (raiseAll_keeps hraise c loops 0 s h)
  | toolStatus i =>
    simp only [exec] at hst
    split at hst
    · split at hst
      · cases hst
        exact hwake _ (hraise s i h)
      · cases hst
    · cases hst
  | signal =>
    simp only [exec] at hst
    split at hst
    · cases hst
      exact h
    · cases hst
      exact hwake _ (hdrain s h)
  | exit =>
    cases hst
    exact hwake _ (hexit s h)
  | _ => cases ho

/-- What is not the process's own step leaves it where it is, or ends its sleep. -/
theorem others_pc (hst : exec loops passes s op = some s') (ho : op.own = false) :
    s'.pc = s.pc ∨ (∃ ms, s.pc = .sleeping ms) ∧ s'.pc = .woken := by
  refine others_keep (P := fun t => t.pc = s.pc ∨ (∃ ms, s.pc = .sleeping ms) ∧ t.pc = .woken)
    (fun _ _ h => h) (fun t h => ?_) (fun _ h => h) (fun _ h => h) hst ho (.inl rfl)
  unfold Sched.wake
  split
  · rename_i ms hms
    rcases h with h | ⟨hs, h⟩
    · exact .inr ⟨⟨ms, by rw [← h, hms]⟩, rfl⟩
    · exact .inr ⟨hs, rfl⟩
  · exact h

/-- The steps of the process itself, one by one. -/
inductive Own (loops : List Polled) (passes : Option Nat) (s : Sched) : Op → Sched → Prop
  | skip (i now : Nat) : s.pc = .sweep i → i < loops.length → isPast (s.dueAt i) now = false →
      Own loops passes s (.skip i now) { s with pc := .sweep (i + 1) }
  | pass (i now : Nat) : s.pc = .sweep i → i < loops.length →
      Own loops passes s (.pass i now) { s with pc := .passing i (s.generation i) }
  | goOn (i g now : Nat) (l : Polled) : s.pc = .passing i g → loops[i]? = some l →
      Own loops passes s (.passed .returned now)
        { s.afterPass l i g now with pc := .sweep (i + 1) }
  | breakOff (i g now : Nat) (l : Polled) : s.pc = .passing i g → s.childExit = true →
      Own loops passes s (.passed .returned now) ((s.afterPass l i g now).swept loops passes now)
  | childExited (i g now : Nat) : s.pc = .passing i g →
      Own loops passes s (.passed .childExited now)
        ({ s with childExit := true }.swept loops passes now)
  | threw (i g now : Nat) : s.pc = .passing i g →
      Own loops passes s (.passed .threw now) { s with pc := .threw }
  | swept (i now : Nat) : s.pc = .sweep i → loops.length ≤ i ∨ s.draining = true →
      Own loops passes s (.swept now) (s.swept loops passes now)
  | timer (ms : Nat) : s.pc = .sleeping (some ms) → Own loops passes s .timer { s with pc := .woken }
  | resume : s.pc = .woken → Own loops passes s .resume (s.head passes)

theorem own_of_exec (hst : exec loops passes s op = some s') (ho : op.own = true) :
    Own loops passes s op s' := by
  cases op with
  | skip i now =>
    simp only [exec] at hst
    split at hst
    · rename_i h
      simp only [Bool.and_eq_true, decide_eq_true_eq, Bool.not_eq_true'] at h
      cases hst
      exact .skip i now h.1.1.1 h.1.1.2 h.2
    · cases hst
  | pass i now =>
    simp only [exec] at hst
    split at hst
    · rename_i h
      simp only [Bool.and_eq_true, decide_eq_true_eq, Bool.not_eq_true'] at h
      cases hst
      exact .pass i now h.1.1.1 h.1.1.2
    · cases hst
  | passed how now =>
    simp only [exec] at hst
    split at hst
    · rename_i i g hpc
      split at hst
      · rename_i l hl
        cases hst
        split
        · rename_i hc
          exact .breakOff i g now l hpc hc
        · exact .goOn i g now l hpc hl
      · cases hst
        exact .childExited i g now hpc
      · cases hst
        exact .threw i g now hpc
      · cases hst
    · cases hst
  | swept now =>
    simp only [exec] at hst
    split at hst
    · rename_i i hpc
      split at hst
      · rename_i h
        cases hst
        exact .swept i now hpc (by simpa using h)
      · cases hst
    · cases hst
  | timer =>
    simp only [exec] at hst
    split at hst
    · rename_i ms hpc
      cases hst
      exact .timer ms hpc
    · cases hst
  | resume =>
    simp only [exec] at hst
    split at hst
    · rename_i hpc
      cases hst
      exact .resume hpc
    · cases hst
  | _ => cases ho

/-- The end of a sweep leaves the process asleep or done, and nothing else as it was not. -/
theorem swept_cases (now : Nat) :
    (s.swept loops passes now).dueAt = s.dueAt ∧
      (s.swept loops passes now).generation = s.generation ∧
      (s.swept loops passes now).draining = s.draining ∧
      (s.swept loops passes now).childExit = s.childExit ∧
      ((s.swept loops passes now).pc = .sleeping (s.rest loops now) ∨
        (s.swept loops passes now).pc = .returned) := by
  unfold Sched.swept
  dsimp only
  split
  · exact ⟨rfl, rfl, rfl, rfl, .inl rfl⟩
  · exact ⟨rfl, rfl, rfl, rfl, .inr rfl⟩

theorem head_cases : (s.head passes).pc = .sweep 0 ∨ (s.head passes).pc = .returned := by
  unfold Sched.head
  split
  · exact .inl rfl
  · exact .inr rfl

/-- A stop and the death of the child are not taken back, and nothing follows the end. -/
theorem live_before (hst : exec loops passes s op = some s') (h : s'.Live) : s.Live := by
  cases ho : op.own with
  | false =>
    have hd := others_keep (P := fun t => s.draining = true → t.draining = true) (fun _ _ h => h)
      (fun t h => by rwa [wake_draining]) (fun _ _ _ => rfl) (fun _ h => h) hst ho id
    have hc := others_keep (P := fun t => s.childExit = true → t.childExit = true) (fun _ _ h => h)
      (fun t h => by rwa [wake_childExit]) (fun _ h => h) (fun _ _ _ => rfl) hst ho id
    have hend : ∀ e, (∀ ms, e ≠ .sleeping ms) → s'.pc ≠ e → s.pc ≠ e := by
      intro e hne hs he
      rcases others_pc hst ho with hpc | ⟨⟨ms, hms⟩, _⟩
      · exact hs (hpc.trans he)
      · exact hne ms (he.symm.trans hms)
    refine ⟨?_, ?_, hend _ (fun _ => by simp) h.returned, hend _ (fun _ => by simp) h.threw⟩
    · exact Bool.eq_false_iff.2 fun he => by rw [h.draining] at hd; exact absurd (hd he) (by simp)
    · exact Bool.eq_false_iff.2 fun he => by rw [h.childExit] at hc; exact absurd (hc he) (by simp)
  | true =>
    cases own_of_exec hst ho with
    | skip i now hs => exact ⟨h.1, h.2, by simp [hs], by simp [hs]⟩
    | pass i now hs => exact ⟨h.1, h.2, by simp [hs], by simp [hs]⟩
    | goOn i g now l hs => exact ⟨h.1, h.2, by simp [hs], by simp [hs]⟩
    | breakOff i g now l hs hc =>
      obtain ⟨_, _, hd, he, _⟩ := @swept_cases loops passes
        (s.afterPass l i g now) now
      exact ⟨hd ▸ h.1, he ▸ h.2, by simp [hs], by simp [hs]⟩
    | childExited i g now hs =>
      obtain ⟨_, _, _, he, _⟩ := @swept_cases loops passes
        { s with childExit := true } now
      exact absurd (he.symm.trans h.2) (by simp)
    | threw => exact absurd rfl h.threw
    | swept i now hs =>
      obtain ⟨_, _, hd, he, _⟩ := @swept_cases loops passes s now
      exact ⟨hd ▸ h.1, he ▸ h.2, by simp [hs], by simp [hs]⟩
    | timer ms hs => exact ⟨h.1, h.2, by simp [hs], by simp [hs]⟩
    | resume hs => exact ⟨h.1, h.2, by simp [hs], by simp [hs]⟩

theorem sound_of_pc (h : ∀ i g, s.pc ≠ .passing i g) : s.Sound loops where
  passing i g hp := absurd hp (h i g)

theorem sound_swept (s : Sched) (now : Nat) : (s.swept loops passes now).Sound loops := by
  refine sound_of_pc fun i g hp => ?_
  rcases (@swept_cases loops passes s now).2.2.2.2 with h | h <;>
    · rw [h] at hp
      cases hp

theorem sound_head (s : Sched) : (s.head passes).Sound loops := by
  refine sound_of_pc fun i g hp => ?_
  rcases @head_cases passes s with h | h <;>
    · rw [h] at hp
      cases hp

theorem sound_step (hs : s.Sound loops) (hst : exec loops passes s op = some s') :
    s'.Sound loops := by
  cases ho : op.own with
  | false =>
    exact others_keep (fun _ i h => sound_raise h i) (fun _ h => sound_wake h) (fun _ h => ⟨h.1⟩)
      (fun _ h => ⟨h.1⟩) hst ho hs
  | true =>
    cases own_of_exec hst ho with
    | skip => exact sound_of_pc fun i g hp => by cases hp
    | pass i now _ hi =>
      refine ⟨fun j g hp => ?_⟩
      cases hp
      exact ⟨hi, Nat.le_refl _⟩
    | goOn => exact sound_of_pc fun i g hp => by cases hp
    | breakOff => exact sound_swept _ _
    | childExited => exact sound_swept _ _
    | threw => exact sound_of_pc fun i g hp => by cases hp
    | swept => exact sound_swept _ _
    | timer => exact sound_of_pc fun i g hp => by cases hp
    | resume => exact sound_head _

theorem sound_inductive : (scheduler loops passes).Inductive (Sched.Sound loops) where
  init s h := by
    cases (show s = _ from h)
    exact sound_head _
  step _ _ _ hs hst := by
    change exec loops passes _ _ = some _ at hst
    exact sound_step hs hst

theorem earliest_zero {l : List (Option Nat)} (h : some 0 ∈ l) : earliest l = some 0 := by
  induction l with
  | nil => simp at h
  | cons d l ih =>
    cases d with
    | none => exact ih (by simpa using h)
    | some d =>
      rw [earliest]
      rcases List.mem_cons.1 h with h | h
      · cases h
        cases earliest l <;> simp
      · rw [ih h]
        simp

theorem owed_swept (hl : loop < loops.length) (hd : s.dueAt loop = some 0) (now : Nat) :
    (s.swept loops passes now).Owed loop := by
  obtain ⟨hdue, -, -, -, hpc⟩ := @swept_cases loops passes s now
  refine ⟨⟨by rw [hdue]; exact hd, fun g hp => ?_⟩, fun ms hp => ?_⟩
  · rcases hpc with h | h <;>
      · rw [h] at hp
        cases hp
  · rcases hpc with h | h
    · rw [h] at hp
      cases hp
      rw [Sched.rest, earliest_zero]
      · simp
      · exact List.mem_map.2 ⟨loop, List.mem_range.2 hl, hd⟩
    · rw [h] at hp
      cases hp

/-- How many steps the process is from a pass of the loop, at most. -/
def rank (n loop : Nat) : Pc → Nat
  | .sweep i => if i ≤ loop then 2 * (loop - i) + 1 else 2 * (n - i) + 2 * loop + 4
  | .passing i _ => if i < loop then 2 * (loop - i) else 2 * (n - i) + 2 * loop + 3
  | .sleeping _ => 2 * loop + 3
  | .woken => 2 * loop + 2
  | .returned | .threw => 0

/-- Until its pass starts, the loop stays owed one, and each step of the process is a step
nearer to it. -/
theorem owed_step (hs : s.Sound loops) (hl : loop < loops.length) (h : s.Owed loop)
    (hst : exec loops passes s op = some s') (hlive : s'.Live)
    (hp : ∀ now, op ≠ .pass loop now) : s'.Owed loop ∧
      rank loops.length loop s'.pc + (if op.own then 1 else 0) ≤ rank loops.length loop s.pc := by
  cases ho : op.own with
  | false =>
    refine ⟨?_, ?_⟩
    · exact others_keep
        (fun _ i h => ⟨raised_raise h.toRaised i, h.slept⟩) (fun _ h => woken_owed h.toRaised)
        (fun _ h => ⟨⟨h.due, h.newer⟩, h.slept⟩) (fun _ h => ⟨⟨h.due, h.newer⟩, h.slept⟩) hst ho h
    · rcases others_pc hst ho with hpc | ⟨⟨ms, hms⟩, hpc⟩
      · simp [hpc]
      · simp [hpc, hms, rank]
  | true =>
    simp only [if_true]
    cases own_of_exec hst ho with
    | skip i now hpc hi hdue =>
      have hne : i ≠ loop := by
        rintro rfl
        simp [h.due, isPast] at hdue
      refine ⟨⟨⟨h.due, fun g hp => by cases hp⟩, fun ms hp => by cases hp⟩, ?_⟩
      simp only [hpc, rank]
      split <;> split <;> omega
    | pass i now hpc hi =>
      have hne : i ≠ loop := fun he => hp now (by rw [he])
      refine ⟨⟨⟨h.due, fun g hp => ?_⟩, fun ms hp => by cases hp⟩, ?_⟩
      · cases hp
        exact absurd rfl hne
      · simp only [hpc, rank]
        split <;> split <;> omega
    | goOn i g now l hpc hl' =>
      have hi := (hs.passing i g hpc).1
      refine ⟨⟨⟨?_, fun g hp => by cases hp⟩, fun ms hp => by cases hp⟩, ?_⟩
      · by_cases he : loop = i
        · subst he
          have hlt := h.newer g hpc
          simp [Sched.afterPass, Sched.dueAfter, Nat.ne_of_gt hlt]
        · simpa [Sched.afterPass, Function.update_of_ne he] using h.due
      · simp only [hpc, rank]
        split <;> split <;> omega
    | breakOff i g now l hpc hc =>
      obtain ⟨-, -, -, he, -⟩ := @swept_cases loops passes
        (s.afterPass l i g now) now
      exact absurd (hlive.childExit.symm.trans (he.trans hc)) (by simp)
    | childExited i g now hpc =>
      obtain ⟨-, -, -, he, -⟩ := @swept_cases loops passes
        { s with childExit := true } now
      exact absurd (he.symm.trans hlive.childExit) (by simp)
    | threw => exact absurd rfl hlive.threw
    | swept i now hpc hi =>
      refine ⟨owed_swept hl h.due now, ?_⟩
      obtain ⟨-, -, hd, -, hend⟩ := @swept_cases loops passes s now
      have hend := hend.resolve_right hlive.returned
      have hi : loops.length ≤ i :=
        hi.resolve_right fun hdr => by
          have := hd.symm.trans hlive.draining
          rw [hdr] at this
          cases this
      simp only [hpc, hend, rank]
      split <;> omega
    | timer ms hpc =>
      refine ⟨⟨⟨h.due, fun g hp => by cases hp⟩, fun ms hp => by cases hp⟩, ?_⟩
      simp [hpc, rank]
    | resume hpc =>
      have hhead := @head_cases passes s
      have hhead := hhead.resolve_right hlive.returned
      refine ⟨⟨⟨h.due, fun g hp => ?_⟩, fun ms hp => ?_⟩, ?_⟩
      · rw [hhead] at hp
        cases hp
      · rw [hhead] at hp
        cases hp
      · simp [hpc, hhead, rank]

theorem hints_lt (hst : exec loops passes s op = some s') (hh : Hints loops loop op) :
    loop < loops.length := by
  cases op with
  | ready i =>
    cases hh
    simp only [exec] at hst
    split at hst
    · rename_i l hl
      exact (List.getElem?_eq_some_iff.1 hl).1
    · cases hst
  | captured c =>
    obtain ⟨l, hl, -⟩ := hh
    exact (List.getElem?_eq_some_iff.1 hl).1
  | toolStatus i =>
    cases hh
    simp only [exec] at hst
    split at hst
    · rename_i l hl
      exact (List.getElem?_eq_some_iff.1 hl).1
    · cases hst
  | _ => exact hh.elim

/-- A process that owes a pass is never stuck. -/
theorem owed_moves (hs : s.Sound loops) (h : s.Owed loop) (hlive : s.Live) :
    ∃ op, op.own = true ∧ (exec loops passes s op).isSome = true := by
  cases hpc : s.pc with
  | sweep i =>
    by_cases hi : i < loops.length
    · cases hdue : isPast (s.dueAt i) 0 with
      | false => exact ⟨.skip i 0, rfl, by simp [exec, hpc, hi, hlive.draining, hdue]⟩
      | true => exact ⟨.pass i 0, rfl, by simp [exec, hpc, hi, hlive.draining, hdue]⟩
    · exact ⟨.swept 0, rfl, by simp [exec, hpc, Nat.le_of_not_lt hi]⟩
  | passing i g =>
    have hi := (hs.passing i g hpc).1
    exact ⟨.passed .threw 0, rfl, by simp [exec, hpc, hi]⟩
  | sleeping ms =>
    cases h.slept ms hpc
    exact ⟨.timer, rfl, by simp [exec, hpc]⟩
  | woken => exact ⟨.resume, rfl, by simp [exec, hpc]⟩
  | returned => exact absurd hpc hlive.returned
  | threw => exact absurd hpc hlive.threw

end step

/-! ## Runs -/

section run
variable {loops : List Polled} {passes : Option Nat} {s s₁ s' : Sched} {op : Op} {ops : List Op}
  {loop : Nat}

theorem live_run (hrun : (scheduler loops passes).Run s ops s') (h : s'.Live) : s.Live := by
  induction hrun with
  | nil => exact h
  | cons hst _ ih => exact live_before hst (ih h)

/-- Run the steps one after the other. -/
def play (loops : List Polled) (passes : Option Nat) : Sched → List Op → Option Sched
  | s, [] => some s
  | s, op :: ops => (exec loops passes s op).bind fun s' => play loops passes s' ops

theorem run_of_play (h : play loops passes s ops = some s') :
    (scheduler loops passes).Run s ops s' := by
  induction ops generalizing s with
  | nil =>
    cases h
    exact .nil _
  | cons op ops ih =>
    rw [play, Option.bind_eq_some_iff] at h
    obtain ⟨t, ht, h⟩ := h
    exact .cons ht (ih h)

theorem owed_run (hl : loop < loops.length) (hrun : (scheduler loops passes).Run s ops s')
    (hs : s.Sound loops) (h : s.Owed loop) (hlive : s'.Live) (hp : ∀ now, .pass loop now ∉ ops) :
    s'.Sound loops ∧ s'.Owed loop ∧
      rank loops.length loop s'.pc + ops.countP Op.own ≤ rank loops.length loop s.pc := by
  induction hrun with
  | nil => exact ⟨hs, h, Nat.le_refl _⟩
  | @cons t t₁ t' op ops hst hrun ih =>
    have hlive₁ : t₁.Live := live_run hrun hlive
    obtain ⟨h₁, hrank⟩ := owed_step hs hl h hst hlive₁ fun now he =>
      hp now (he ▸ List.mem_cons_self)
    obtain ⟨hs', h', hrank'⟩ := ih (sound_step hs hst) h₁ hlive fun now hm =>
      hp now (List.mem_cons_of_mem _ hm)
    refine ⟨hs', h', ?_⟩
    rw [List.countP_cons]
    omega

/-- How many steps a process may take until the pass of a hinted loop starts. -/
def patience (loops : List Polled) : Nat := 2 * loops.length + 3

theorem rank_le (hl : loop < loops.length) (pc : Pc) :
    rank loops.length loop pc ≤ patience loops := by
  unfold rank patience
  split
  · split <;> omega
  · split <;> omega
  all_goals omega

/-- A hint is followed by a pass of its loop that starts after it, unless the process stops: it
starts within `patience` steps of the process, which can always take one, and until then the
process sleeps for no time at all. -/
theorem hint_followed (hr : (scheduler loops passes).Reachable s)
    (hst : exec loops passes s op = some s₁) (hh : Hints loops loop op)
    (hrun : (scheduler loops passes).Run s₁ ops s') (hlive : s'.Live) :
    (∃ now, .pass loop now ∈ ops) ∨
      ops.countP Op.own ≤ patience loops ∧ (∀ ms, s'.pc = .sleeping ms → ms = some 0) ∧
        ∃ op', op'.own = true ∧ (exec loops passes s' op').isSome = true := by
  by_cases hp : ∃ now, .pass loop now ∈ ops
  · exact .inl hp
  · refine .inr ?_
    have hs := sound_inductive.reachable s hr
    have hl := hints_lt hst hh
    obtain ⟨hs', h', hrank⟩ := owed_run hl hrun (sound_step hs hst) (owed_of_hint hs hst hh) hlive
      fun now hm => hp ⟨now, hm⟩
    have := rank_le hl s₁.pc
    exact ⟨by omega, h'.slept, owed_moves hs' h' hlive⟩

/-- The hint of a process's only loop during its first pass. -/
theorem hint_followed_once :
    let loops : List Polled := [⟨false, "ops", 1000⟩]
    let ops : List Op := [.passed .returned 5, .swept 5, .timer, .resume]
    ∃ s s₁ s' : Sched, (scheduler loops none).Reachable s ∧
      exec loops none s (.ready 0) = some s₁ ∧ (scheduler loops none).Run s₁ ops s' ∧ s'.Live ∧
      ((∃ now, .pass 0 now ∈ ops) ∨
        ops.countP Op.own ≤ patience loops ∧ (∀ ms, s'.pc = .sleeping ms → ms = some 0) ∧
          ∃ op', op'.own = true ∧ (exec loops none s' op').isSome = true) := by
  intro loops ops
  have hr : (scheduler loops none).Reachable { pc := .passing 0 0 } :=
    ⟨_, [.pass 0 0], rfl, run_of_play rfl⟩
  have hst : exec loops none { pc := .passing 0 0 } (.ready 0) =
    some (({ pc := .passing 0 0 } : Sched).raise 0) := rfl
  have hrun : (scheduler loops none).Run (({ pc := .passing 0 0 } : Sched).raise 0) ops _ :=
    run_of_play rfl
  exact ⟨_, _, _, hr, hst, hrun, ⟨rfl, rfl, by decide, by decide⟩,
    hint_followed hr hst rfl hrun ⟨rfl, rfl, by decide, by decide⟩⟩

theorem returned_run (hrun : (scheduler loops passes).Run s ops s') (h : s.pc = .returned) :
    ∀ i now, .pass i now ∉ ops := by
  induction hrun with
  | nil => simp
  | @cons t t₁ t' op ops hst hrun ih =>
    have hst : exec loops passes t op = some t₁ := hst
    have ho : op.own = false := by
      by_contra ho
      cases own_of_exec hst (by simpa using ho) <;> simp_all
    have hpc : t₁.pc = .returned := by
      rcases others_pc hst ho with hpc | ⟨⟨ms, hms⟩, _⟩
      · exact hpc.trans h
      · rw [h] at hms
        cases hms
    intro i now hm
    rcases List.mem_cons.1 hm with rfl | hm
    · cases ho
    · exact ih hpc i now hm

/-- The process is told to stop after the hint: it returns, and no pass follows. -/
theorem hint_dropped :
    let loops : List Polled := [⟨false, "ops", 1000⟩]
    let ops : List Op := [.signal, .passed .returned 5, .swept 5]
    ∃ s s₁ s' : Sched, (scheduler loops none).Reachable s ∧ s.draining = false ∧
      exec loops none s (.ready 0) = some s₁ ∧ (scheduler loops none).Run s₁ ops s' ∧
      ∀ more s'', (scheduler loops none).Run s' more s'' → ∀ now, .pass 0 now ∉ ops ++ more := by
  intro loops ops
  have hr : (scheduler loops none).Reachable { pc := .passing 0 0 } :=
    ⟨_, [.pass 0 0], rfl, run_of_play rfl⟩
  have hst : exec loops none { pc := .passing 0 0 } (.ready 0) =
    some (({ pc := .passing 0 0 } : Sched).raise 0) := rfl
  have hrun : (scheduler loops none).Run (({ pc := .passing 0 0 } : Sched).raise 0) ops _ :=
    run_of_play rfl
  refine ⟨_, _, _, hr, rfl, hst, hrun, fun more s'' hmore now hm => ?_⟩
  rcases List.mem_append.1 hm with hm | hm
  · simp [ops] at hm
  · exact returned_run hmore rfl 0 now hm

end run

end CarbonRuntime.Scheduler
