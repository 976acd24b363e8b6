import CarbonRuntime.Core.LTS
import CarbonRuntime.Core.Wp

/-!
# A service that is started, serves jobs, and may die at any point

A `Service` has a boot program, a program for each job, what a death does to
the state (what was only in memory is gone), and what may be done to the state
while nothing runs (`tend`). Its states are the program state with what the
process is doing: `down`, `idle` between jobs, or running what is left of a
program, either the boot or a job. A program that raises takes the process
down. `die` may happen in any state in which the process is up: between any two
acts, or while an answer is awaited.

`Service.rule` is the invariant rule: what the boot and every job keep (`wp`), and
a death and what is done meanwhile, is kept by every step of the service.

`play` computes a state from a script of episodes, each with the answers it
hears; `play_reachable` says that the service reaches it.
-/
namespace CarbonRuntime.Core

structure Service (𝔖 : Sig) (J : Type) where
  boot : Prog 𝔖 Unit
  job : J → Prog 𝔖 Unit
  lose : 𝔖.S → 𝔖.S
  tend : 𝔖.S → 𝔖.S → Prop

namespace Service

variable {𝔖 : Sig} {J : Type}

inductive Phase (𝔖 : Sig)
  | down
  | idle
  | booting (p : Prog 𝔖 Unit)
  | running (p : Prog 𝔖 Unit)

structure State (𝔖 : Sig) where
  phase : Phase 𝔖
  st : 𝔖.S

inductive Label (J : Type)
  | start
  | go
  | done
  | fail
  | job (j : J)
  | die
  | tend

inductive Step (V : Service 𝔖 J) : State 𝔖 → Label J → State 𝔖 → Prop
  | start (s : 𝔖.S) : Step V ⟨.down, s⟩ .start ⟨.booting V.boot, s⟩
  | boot {p p' : Prog 𝔖 Unit} {s s' : 𝔖.S} : Prog.Step (p, s) (p', s') →
      Step V ⟨.booting p, s⟩ .go ⟨.booting p', s'⟩
  | booted (s : 𝔖.S) : Step V ⟨.booting (.ret ()), s⟩ .done ⟨.idle, s⟩
  | bootFail (e : 𝔖.E) (s : 𝔖.S) : Step V ⟨.booting (.throw e), s⟩ .fail ⟨.down, V.lose s⟩
  | job (j : J) (s : 𝔖.S) : Step V ⟨.idle, s⟩ (.job j) ⟨.running (V.job j), s⟩
  | go {p p' : Prog 𝔖 Unit} {s s' : 𝔖.S} : Prog.Step (p, s) (p', s') →
      Step V ⟨.running p, s⟩ .go ⟨.running p', s'⟩
  | done (s : 𝔖.S) : Step V ⟨.running (.ret ()), s⟩ .done ⟨.idle, s⟩
  | fail (e : 𝔖.E) (s : 𝔖.S) : Step V ⟨.running (.throw e), s⟩ .fail ⟨.down, V.lose s⟩
  | die (ph : Phase 𝔖) (s : 𝔖.S) : ph ≠ .down → Step V ⟨ph, s⟩ .die ⟨.down, V.lose s⟩
  | tend (s s' : 𝔖.S) : V.tend s s' → Step V ⟨.down, s⟩ .tend ⟨.down, s'⟩

def lts (V : Service 𝔖 J) (I₀ : 𝔖.S → Prop) : LTS (State 𝔖) (Label J) where
  init c := c.phase = .down ∧ I₀ c.st
  step := Step V

/-- What is known of a service's state: `D` while the process is down, `I`
while it is idle, and else the protocol's invariant with `wp` of what is left
of the program. -/
def Good (B U : Proto 𝔖) (D I : 𝔖.S → Prop) (XB XU : 𝔖.E → 𝔖.S → Prop) : State 𝔖 → Prop
  | ⟨.down, s⟩ => D s
  | ⟨.idle, s⟩ => I s
  | ⟨.booting p, s⟩ => B.inv s ∧ Prog.wp B p (fun _ => I) XB s
  | ⟨.running p, s⟩ => U.inv s ∧ Prog.wp U p (fun _ => I) XU s

theorem rule (V : Service 𝔖 J) {B U : Proto 𝔖} {D I : 𝔖.S → Prop}
    {XB XU : 𝔖.E → 𝔖.S → Prop}
    (hvB : ∀ q a s, 𝔖.valid q a s → B.heard q a s)
    (hvU : ∀ q a s, 𝔖.valid q a s → U.heard q a s)
    (tend : ∀ s s', D s → V.tend s s' → D s')
    (start : ∀ s, D s → B.inv s ∧ Prog.wp B V.boot (fun _ => I) XB s)
    (job : ∀ j s, I s → U.inv s ∧ Prog.wp U (V.job j) (fun _ => I) XU s)
    (loseB : ∀ s, B.inv s → D (V.lose s))
    (loseI : ∀ s, I s → D (V.lose s))
    (loseU : ∀ s, U.inv s → D (V.lose s)) {c c' : State 𝔖} {l : Label J} (hst : Step V c l c')
    (hg : Good B U D I XB XU c) : Good B U D I XB XU c' := by
  cases hst with
  | start s => exact start s hg
  | boot h => exact Prog.wp_step hvB h hg.1 hg.2
  | booted s => exact (Prog.wp_ret ()).1 hg.2
  | bootFail e s => exact loseB s hg.1
  | job j s => exact job j s hg
  | go h => exact Prog.wp_step hvU h hg.1 hg.2
  | done s => exact (Prog.wp_ret ()).1 hg.2
  | fail e s => exact loseU s hg.1
  | die ph s hne =>
    cases ph with
    | down => exact absurd rfl hne
    | idle => exact loseI s hg
    | booting p => exact loseB s hg.1
    | running p => exact loseU s hg.1
  | tend s s' h => exact tend s s' hg h

/-! ## Scripts -/

section play
variable (V : Service 𝔖 J) {I₀ : 𝔖.S → Prop}

/-- A program run to its end, or cut short by a death after some steps. -/
inductive Episode (𝔖 : Sig) (J : Type)
  | boot (o : Nat → 𝔖.S → (q : 𝔖.Q) → 𝔖.A q)
  | job (j : J) (o : Nat → 𝔖.S → (q : 𝔖.Q) → 𝔖.A q)
  | cut (j : J) (steps : Nat) (o : Nat → 𝔖.S → (q : 𝔖.Q) → 𝔖.A q)

/-- Where a run to the end leads: `idle`, or down where it raises. -/
def ended (lose : 𝔖.S → 𝔖.S) : Option (Prog.Result 𝔖 Unit × 𝔖.S) → Option (Bool × 𝔖.S)
  | some (.ok (), s) => some (true, s)
  | some (.error _, s) => some (false, lose s)
  | none => none

/-- The state after a script, with whether the service is up. -/
def play [∀ q a s, Decidable (𝔖.valid q a s)] : Bool × 𝔖.S → List (Episode 𝔖 J) → Option (Bool × 𝔖.S)
  | c, [] => some c
  | (false, s), .boot o :: more => do
    let c ← ended V.lose (Prog.finishWith o 0 V.boot s)
    play c more
  | (true, s), .job j o :: more => do
    let c ← ended V.lose (Prog.finishWith o 0 (V.job j) s)
    play c more
  | (true, s), .cut j steps o :: more =>
    play (false, V.lose (Prog.stepsWith o steps 0 (V.job j) s).2) more
  | _, _ => none

def phaseOf : Bool → Phase 𝔖
  | true => .idle
  | false => .down

variable {V} {s s' : 𝔖.S}

theorem Reachable.step {c c' : State 𝔖} {l : Label J} (h : (V.lts I₀).Reachable c)
    (hst : Step V c l c') : (V.lts I₀).Reachable c' := by
  obtain ⟨c₀, ls, h₀, hr⟩ := h
  exact ⟨c₀, ls ++ [l], h₀, hr.append (.cons hst (.nil _))⟩

theorem Reachable.boots {c c' : Prog 𝔖 Unit × 𝔖.S} (hst : Prog.Steps c c')
    (h : (V.lts I₀).Reachable ⟨.booting c.1, c.2⟩) : (V.lts I₀).Reachable ⟨.booting c'.1, c'.2⟩ := by
  induction hst with
  | refl => exact h
  | head hst _ ih => exact ih (Reachable.step h (.boot hst))

theorem Reachable.runs {c c' : Prog 𝔖 Unit × 𝔖.S} (hst : Prog.Steps c c')
    (h : (V.lts I₀).Reachable ⟨.running c.1, c.2⟩) : (V.lts I₀).Reachable ⟨.running c'.1, c'.2⟩ := by
  induction hst with
  | refl => exact h
  | head hst _ ih => exact ih (Reachable.step h (.go hst))

theorem Reachable.booted {r : Prog.Result 𝔖 Unit} {b : Bool} {s'' : 𝔖.S}
    (h : (V.lts I₀).Reachable ⟨.down, s⟩) (hr : Prog.Runs V.boot s r s')
    (he : ended V.lose (some (r, s')) = some (b, s'')) :
    (V.lts I₀).Reachable ⟨phaseOf b, s''⟩ := by
  have hb := Reachable.boots hr (Reachable.step h (.start s))
  cases r with
  | ok a =>
    cases he
    exact Reachable.step hb (.booted s')
  | error e =>
    cases he
    exact Reachable.step hb (.bootFail e s')

theorem Reachable.done {r : Prog.Result 𝔖 Unit} {b : Bool} {s'' : 𝔖.S} {j : J}
    (h : (V.lts I₀).Reachable ⟨.idle, s⟩) (hr : Prog.Runs (V.job j) s r s')
    (he : ended V.lose (some (r, s')) = some (b, s'')) :
    (V.lts I₀).Reachable ⟨phaseOf b, s''⟩ := by
  have hj := Reachable.runs hr (Reachable.step h (.job j s))
  cases r with
  | ok a =>
    cases he
    exact Reachable.step hj (.done s')
  | error e =>
    cases he
    exact Reachable.step hj (.fail e s')

theorem play_reachable [∀ q a s, Decidable (𝔖.valid q a s)] (script : List (Episode 𝔖 J)) :
    ∀ {b b' : Bool} {s s' : 𝔖.S}, play V (b, s) script = some (b', s') →
      (V.lts I₀).Reachable ⟨phaseOf b, s⟩ → (V.lts I₀).Reachable ⟨phaseOf b', s'⟩ := by
  induction script with
  | nil =>
    intro b b' s s' h hc
    cases h
    exact hc
  | cons e more ih =>
    intro b b' s s' h hc
    cases e with
    | boot o =>
      cases b with
      | true => cases h
      | false =>
        obtain ⟨⟨b₁, s₁⟩, he, h⟩ := Option.bind_eq_some_iff.1 h
        cases hf : Prog.finishWith o 0 V.boot s with
        | none =>
          rw [hf] at he
          cases he
        | some x =>
          rw [hf] at he
          exact ih h (Reachable.booted hc (Prog.finishWith_runs _ hf) he)
    | job j o =>
      cases b with
      | false => cases h
      | true =>
        obtain ⟨⟨b₁, s₁⟩, he, h⟩ := Option.bind_eq_some_iff.1 h
        cases hf : Prog.finishWith o 0 (V.job j) s with
        | none =>
          rw [hf] at he
          cases he
        | some x =>
          rw [hf] at he
          exact ih h (Reachable.done hc (Prog.finishWith_runs _ hf) he)
    | cut j steps o =>
      cases b with
      | false => cases h
      | true =>
        have hcut := Reachable.runs (Prog.stepsWith_steps (o := o) steps 0 (V.job j) s)
          (Reachable.step hc (.job j s))
        exact ih h (Reachable.step hcut (.die _ _ (by simp)))

/-- A job run to its end is a run of the service. -/
theorem run_done {j : J} (h : Prog.Runs (V.job j) s (.ok ()) s') :
    ∃ ls, (V.lts I₀).Run ⟨.idle, s⟩ ls ⟨.idle, s'⟩ := by
  have hgo : ∀ {c c' : Prog 𝔖 Unit × 𝔖.S}, Prog.Steps c c' →
      ∃ ls, (V.lts I₀).Run ⟨.running c.1, c.2⟩ ls ⟨.running c'.1, c'.2⟩ := by
    intro c c' hst
    induction hst with
    | refl => exact ⟨[], .nil _⟩
    | head hst _ ih =>
      obtain ⟨ls, hr⟩ := ih
      exact ⟨.go :: ls, .cons (.go hst) hr⟩
  obtain ⟨ls, hr⟩ := hgo h
  have hdone : (V.lts I₀).Run ⟨.running (.ret ()), s'⟩ [.done] ⟨.idle, s'⟩ :=
    .cons (.done s') (.nil _)
  have hrun : (V.lts I₀).Run ⟨.running (V.job j), s⟩ (ls ++ [.done]) ⟨.idle, s'⟩ :=
    hr.append hdone
  exact ⟨.job j :: (ls ++ [.done]), .cons (.job j s) hrun⟩

end play

end Service

end CarbonRuntime.Core
